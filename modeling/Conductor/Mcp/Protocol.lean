import Conductor.Js.JsonText

/-! # JSON-RPC 2.0 and MCP messages

The subset of the protocol that the server uses. A response is kept as what it
says; `Response.toJson` is the object that goes over the wire. -/
namespace Conductor.Mcp.Protocol
open Conductor.Js.Text Conductor.Js.Number Conductor.Js.Values Conductor.Js.JsonText

def MCP_PROTOCOL_VERSION : JsString := js "2024-11-05"
def MCP_SERVER_NAME : JsString := js "agent-conductor"

inductive JsonRpcErrorCode
  | ParseError
  | InvalidRequest
  | MethodNotFound
  | InvalidParams
  | InternalError
  deriving DecidableEq

def JsonRpcErrorCode.code : JsonRpcErrorCode → Int
  | .ParseError => -32700
  | .InvalidRequest => -32600
  | .MethodNotFound => -32601
  | .InvalidParams => -32602
  | .InternalError => -32603

/-- The text block of a tool result. The text is missing when the payload is
undefined. -/
structure ToolsCallResult where
  text : Option JsString
  isError : Bool

/-- The results that the server answers with. -/
inductive Result
  | initializeResult (serverVersion : JsString)
  | pong
  | toolsList (tools : List Json)
  | toolsCall (result : ToolsCallResult)

inductive JsonRpcResponse
  | success (id : Json) (result : Result)
  | error (id : Json) (code : JsonRpcErrorCode) (message : JsString)

def JsonRpcResponse.id : JsonRpcResponse → Json
  | .success id _ | .error id _ _ => id

def JsonRpcResponse.isError : JsonRpcResponse → Bool
  | .success _ _ => false
  | .error _ _ _ => true

def jsonRpcSuccess (id : Json) (result : Result) : JsonRpcResponse := .success id result

/-- No caller passes `data`. -/
def jsonRpcError (id : Json) (code : JsonRpcErrorCode) (message : JsString) : JsonRpcResponse :=
  .error id code message

def toolCallError (id : Json) (message : JsString) : JsonRpcResponse :=
  jsonRpcSuccess id (.toolsCall ⟨some message, true⟩)

/-- `none` is an undefined payload, which `JSON.stringify` leaves undefined. -/
def toolCallSuccess (id : Json) (payload : Option Json) : JsonRpcResponse :=
  let text := payload.map fun v => match v with
    | .str s => s
    | v => stringifyIndented 0 v
  jsonRpcSuccess id (.toolsCall ⟨text, false⟩)

/-! ## The objects on the wire -/

def ToolsCallResult.toJson (r : ToolsCallResult) : Json :=
  let textMember := match r.text with
    | some t => [(js "text", Json.str t)]
    | none => []
  let content := (js "content", Json.arr [.obj ((js "type", .str (js "text")) :: textMember)])
  .obj (if r.isError then [(js "isError", .bool true), content] else [content])

def Result.toJson : Result → Json
  | .initializeResult version => .obj [
      (js "protocolVersion", .str MCP_PROTOCOL_VERSION),
      (js "capabilities", .obj [(js "tools", .obj [])]),
      (js "serverInfo", .obj [(js "name", .str MCP_SERVER_NAME), (js "version", .str version)])]
  | .pong => .obj []
  | .toolsList tools => .obj [(js "tools", .arr tools)]
  | .toolsCall r => r.toJson

def JsonRpcResponse.toJson : JsonRpcResponse → Json
  | .success id result =>
    .obj [(js "jsonrpc", .str (js "2.0")), (js "id", id), (js "result", result.toJson)]
  | .error id code message =>
    .obj [(js "jsonrpc", .str (js "2.0")), (js "id", id),
      (js "error", .obj [(js "code", .num (ofInt code.code)), (js "message", .str message)])]

/-- On the wire a response carries the protocol's version and its own id, and
has an error member or a result member, never both. -/
theorem toJson_envelope (r : JsonRpcResponse) :
    isText (optProp (some r.toJson) (js "jsonrpc")) (js "2.0") = true ∧
      optProp (some r.toJson) (js "id") = some r.id ∧
      (optProp (some r.toJson) (js "error")).isSome = r.isError ∧
      (optProp (some r.toJson) (js "result")).isSome = !r.isError := by
  cases r with
  | success id result => exact ⟨by rfl, by rfl, by rfl, by rfl⟩
  | error id code message => exact ⟨by rfl, by rfl, by rfl, by rfl⟩

end Conductor.Mcp.Protocol
