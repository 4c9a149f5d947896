import Conductor.Mcp.Server
import Conductor.Mcp.Tools
import Conductor.Reminders.Cli
import Conductor.Sessions.Snapshot

/-! # The handlers of the tools

What each tool does with its arguments, and how `tools/call` answers. A handler
reads its arguments with `stringArg`, `numberArg` and `boolArg`; nothing else
looks at them. -/
namespace Conductor.Mcp.Handlers
open Conductor.Js Conductor.Js.Text Conductor.Js.Number Conductor.Js.Values Conductor.Js.JsonText
open Conductor.Js.Utf8 Conductor.Jsonl.Parser Conductor.Sessions.Types Conductor.Sessions.RefinedStatus
open Conductor.Sessions.Snapshot Conductor.Discovery.Providers Conductor.Tmux.Effects
open Conductor.Reminders.Cli Conductor.Mcp.Protocol Conductor.Mcp.Registry Conductor.Mcp.Tools
open Conductor.Mcp.Server

/-! ## The world of a call -/

/-- Why the audit log could not be read. -/
inductive ReadError
  | enoent
  | failed (message : JsString)

/-- What the tools read beyond what an inject reads. -/
structure ToolWorld extends World where
  disk : Disk
  cache : Option Cache
  shell : Shell
  AUDIT_FILE_PATH : JsString
  auditLog : Except ReadError Bytes

inductive ToolEffect
  | inject (e : Effect)
  /-- `remindctl` is executed with these arguments. -/
  | remindctl (args : List JsString)

/-- Keys are sent, the audit log is appended to, or a reminder is added or completed. -/
def ToolEffect.changes : ToolEffect → Bool
  | .inject (.sendKeys _) | .inject (.appendAudit _) => true
  | .inject _ => false
  | .remindctl args => Reminders.Cli.changes args

/-- What the handlers return. -/
inductive Payload
  | snapshot (entries : List SnapshotEntry)
  | sessions (sessions : List LocalSession)
  | transcript (path : JsString) (limit : Rat) (lines : List JsString)
      (lastAssistant : Option AssistantTurn)
  | todos (todos : List Json)
  | todo (answer : Json)
  | inject (answer : Json)
  | audit (path : JsString) (total : Nat) (entries : List Json)

structure ToolRun where
  effects : List ToolEffect
  result : Except JsError Payload

/-- A run without effects. -/
def quiet (result : Except JsError Payload) : ToolRun := ⟨[], result⟩

/-- Go on with a required argument, which may not be empty. -/
def withText (args : Json) (key : String) (run : JsString → ToolRun) : ToolRun :=
  match stringArg args (js key) with
  | none | some [] => quiet (throw (.error (js "missing required arg: " ++ js key)))
  | some text => run text

/-- What becomes of an execution of `remindctl`. -/
def ofExecuted {α : Type} (e : Executed α) (payload : α → Payload) : ToolRun :=
  ⟨[.remindctl e.args], e.result.map payload⟩

/-! ## The handlers -/

def providerArg (args : Json) : JsString := (stringArg args (js "provider")).getD DEFAULT_PROVIDER_NAME

def snapshotTool (w : ToolWorld) (args : Json) : ToolRun :=
  quiet do
    let sessions ← discoverSessions w.host (providerArg args)
    let entries ← buildSnapshot ⟨w.fs, w.tmux, w.now, w.cache⟩ w.disk sessions
    return .snapshot entries

def sessionsTool (w : ToolWorld) (args : Json) : ToolRun :=
  quiet do
    let sessions ← discoverSessions w.host (providerArg args)
    return .sessions sessions

/-- `readJsonlTailLines` with any number for a limit: a file that is longer is not
read when the limit is negative or not a whole number. -/
def tailLines (file : Option Bytes) (limit : Rat) : List JsString :=
  match file with
  | none => []
  | some bytes =>
    if (bytes.length : Rat) ≤ limit then readJsonlTailLines (some bytes) bytes.length
    else if limit.den = 1 ∧ 0 ≤ limit then readJsonlTailLines (some bytes) limit.num.toNat
    else []

def transcriptTool (w : ToolWorld) (args : Json) : ToolRun :=
  withText args "path" fun path =>
    let limit := (numberArg args (js "limit")).getD 5
    let file := w.disk.bytes path
    quiet (pure (.transcript path limit (tailLines file limit) (extractLastAssistantTurn file)))

def todosListTool (w : ToolWorld) (args : Json) : ToolRun :=
  ofExecuted (listTodos w.shell ((stringArg args (js "list")).getD ACTIVE_LIST)) .todos

def todosAddTool (w : ToolWorld) (args : Json) : ToolRun :=
  withText args "title" fun title =>
    let input : AddTodoInput :=
      { title, notes := stringArg args (js "body"), due := none, metadata := none }
    ofExecuted (addTodo w.shell input ((stringArg args (js "list")).getD ACTIVE_LIST)) .todo

def todosCompleteTool (w : ToolWorld) (args : Json) : ToolRun :=
  withText args "id" fun id => ofExecuted (completeTodo w.shell id) .todo

def injectTool (w : ToolWorld) (args : Json) : ToolRun :=
  let o := Tools.injectTool w.toWorld args
  ⟨o.effects.map .inject, o.result.map .inject⟩

/-- The number without its fraction. -/
def truncated (q : Rat) : Int := if q < 0 then -(-q).floor else q.floor

/-- `entries.slice(start)`. -/
def sliceFrom (start : Int) (entries : List Json) : List Json :=
  if start < 0 then entries.drop (entries.length - (-start).toNat) else entries.drop start.toNat

/-- The entries of the log: blank lines and what is not JSON are skipped. -/
def auditEntries (raw : JsString) : List Json :=
  (lines raw).filterMap fun line => if (trim line).isEmpty then none else parse line

def auditTailTool (w : ToolWorld) (args : Json) : ToolRun :=
  let tail := (numberArg args (js "tail")).getD 20
  match w.auditLog with
  | .error .enoent => quiet (pure (.audit w.AUDIT_FILE_PATH 0 []))
  | .error (.failed message) => quiet (throw (.error message))
  | .ok raw =>
    let entries := auditEntries (decode raw)
    quiet (pure (.audit w.AUDIT_FILE_PATH entries.length (sliceFrom (truncated (-tail)) entries)))

/-- The handler of a tool. -/
def handler (w : ToolWorld) : McpTool → Json → ToolRun
  | .snapshot => snapshotTool w
  | .sessions => sessionsTool w
  | .transcript => transcriptTool w
  | .todosList => todosListTool w
  | .todosAdd => todosAddTool w
  | .todosComplete => todosCompleteTool w
  | .inject => injectTool w
  | .auditTail => auditTailTool w

/-! ## The answer -/

/-- How payloads and exceptions become text. -/
structure Wire where
  payload : Payload → Option Json
  /-- `err.message`. -/
  errorMessage : JsError → JsString

def outcomeOf (wire : Wire) (r : ToolRun) : HandlerOutcome :=
  match r.result with
  | .ok payload => .ok (wire.payload payload)
  | .error e => .error (wire.errorMessage e)

/-- The `params` of a call. -/
def callParams (tool : McpTool) (arguments : Json) : Json :=
  .obj [(js "name", .str tool.descriptor.name), (js "arguments", arguments)]

/-- What `tools/call` answers. -/
def answer (w : ToolWorld) (wire : Wire) (id : Json) (tool : McpTool) (arguments : Json) :
    Option JsonRpcResponse :=
  (startCall id (some (callParams tool arguments))).response fun t args =>
    outcomeOf wire (handler w t args)

/-- A JSON-RPC error, or content that says that it is an error. -/
def reportsError : Option JsonRpcResponse → Bool
  | some (.error _ _ _) => true
  | some (.success _ (.toolsCall r)) => r.isError
  | _ => false

theorem startCall_params (id : Json) (tool : McpTool) (ms : List (JsString × Json)) :
    startCall id (some (callParams tool (.obj ms))) = .awaiting tool (.obj ms) id := by
  unfold startCall
  have hname : optProp (some (callParams tool (.obj ms))) (js "name") =
      some (.str tool.descriptor.name) := by rfl
  have hargs : optProp (some (callParams tool (.obj ms))) (js "arguments") = some (.obj ms) := by rfl
  have hparams : falsy (some (callParams tool (.obj ms))) = false := rfl
  simp only [hparams, hname, hargs, findTool_name]
  rfl

/-- An answer reports an error exactly when the handler throws. -/
theorem answer_error_iff {w : ToolWorld} {wire : Wire} {id : Json} {tool : McpTool}
    {ms : List (JsString × Json)} :
    reportsError (answer w wire id tool (.obj ms)) = true ↔
      ∃ e, (handler w tool (.obj ms)).result = .error e := by
  unfold answer
  rw [startCall_params]
  show reportsError (some (finishCall id (outcomeOf wire (handler w tool (.obj ms))))) = true ↔ _
  unfold outcomeOf
  cases (handler w tool (.obj ms)).result with
  | error e => exact ⟨fun _ => ⟨e, rfl⟩, fun _ => rfl⟩
  | ok payload =>
    refine ⟨fun h => (by cases h), fun h => ?_⟩
    obtain ⟨e, he⟩ := h
    cases he

end Conductor.Mcp.Handlers
