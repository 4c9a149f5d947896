import Conductor.Mcp.Protocol
import Conductor.Mcp.Registry

/-! # The dispatcher of the MCP server

`dispatch` takes whatever JSON value a client sends. It runs to its end at once
unless it calls a tool, whose outcome it then waits for: `dispatchStart` is the
part before the wait, `finishCall` the part after it. -/
namespace Conductor.Mcp.Server
open Conductor.Js.Text Conductor.Js.Values
open Conductor.Mcp.Protocol Conductor.Mcp.Registry

/-- What a handler's promise settles with: a payload, or the message of what it threw. -/
abbrev HandlerOutcome := Except JsString (Option Json)

inductive Started
  | answered (response : Option JsonRpcResponse)
  | awaiting (tool : McpTool) (arguments : Json) (id : Json)

/-- `!v`, for a value that may be undefined. -/
def falsy : Option Json → Bool
  | none | some .null | some (.bool false) | some (.str []) => true
  | some (.num .nan) => true
  | some (.num (.finite q)) => q == 0
  | _ => false

/-- The branch for `tools/call`. -/
def startCall (id : Json) (params : Option Json) : Started :=
  match falsy params, optProp params (js "name") with
  | false, some (.str name) =>
    match findTool name with
    | some tool => .awaiting tool (orElse (optProp params (js "arguments")) (.obj [])) id
    | none => .answered (some (jsonRpcError id .MethodNotFound (js "unknown tool '" ++ name ++ js "'")))
  | _, _ => .answered (some (jsonRpcError id .InvalidParams
      (js "tools/call requires \x7b name: string, arguments?: object \x7d")))

/-- The branches of the dispatcher, past the check of the envelope. -/
def startMethod (serverVersion : JsString) (method : JsString) (params : Option Json) (id : Json)
    (isNotification : Bool) : Started :=
  if method = js "initialize" then
    .answered (if isNotification then none
      else some (jsonRpcSuccess id (.initializeResult serverVersion)))
  else if method = js "notifications/initialized" ∨ method = js "initialized" then .answered none
  else if method = js "ping" then
    .answered (if isNotification then none else some (jsonRpcSuccess id .pong))
  else if method = js "tools/list" then
    .answered (some (jsonRpcSuccess id (.toolsList allToolDescriptors)))
  else if method = js "tools/call" then startCall id params
  else .answered (some (jsonRpcError id .MethodNotFound (js "unknown method '" ++ method ++ js "'")))

/-- Reading a property of `null` throws; every other value can be read. -/
def dispatchStart (serverVersion : JsString) (req : Json) : Except JsError Started := do
  let version ← prop req (js "jsonrpc")
  let method ← prop req (js "method")
  let id ← prop req (js "id")
  let params ← prop req (js "params")
  match isText version (js "2.0"), method with
  | true, some (.str method) =>
    return startMethod serverVersion method params (orElse id .null) id.isNone
  | _, _ =>
    return .answered (some (jsonRpcError (orElse id .null) .InvalidRequest
      (js "invalid JSON-RPC envelope")))

/-- A tool that throws is reported to the model, not as a protocol error. -/
def finishCall (id : Json) : HandlerOutcome → JsonRpcResponse
  | .ok payload => toolCallSuccess id payload
  | .error message => toolCallError id message

/-- The response that a started call ends with. -/
def Started.response (handler : McpTool → Json → HandlerOutcome) : Started → Option JsonRpcResponse
  | .answered response => response
  | .awaiting tool arguments id => some (finishCall id (handler tool arguments))

/-- `none` is the `null` that stands for no response. -/
def dispatch (serverVersion : JsString) (handler : McpTool → Json → HandlerOutcome) (req : Json) :
    Except JsError (Option JsonRpcResponse) :=
  (dispatchStart serverVersion req).map (·.response handler)

/-! ## Envelopes -/

/-- A request or a notification, with its id if it has one. -/
structure Envelope where
  id : Option Json
  method : JsString
  params : Option Json

/-- What a well-formed message says; `none` when it is not an envelope. -/
def envelope (req : Json) : Option Envelope :=
  match isText (optProp (some req) (js "jsonrpc")) (js "2.0"), optProp (some req) (js "method") with
  | true, some (.str method) =>
    some ⟨optProp (some req) (js "id"), method, optProp (some req) (js "params")⟩
  | _, _ => none

theorem dispatchStart_envelope (serverVersion : JsString) {req : Json} {m : Envelope}
    (h : envelope req = some m) :
    dispatchStart serverVersion req =
      .ok (startMethod serverVersion m.method m.params (orElse m.id .null) m.id.isNone) := by
  have hne : isNull req = false := by
    cases req with
    | null => cases h
    | _ => rfl
  unfold envelope at h
  unfold dispatchStart
  simp only [prop_of_ne_null hne, pure_bind]
  split at h
  · cases h
    rfl
  · cases h

/-- Everything else but `null` is refused at once. -/
theorem dispatchStart_refused (serverVersion : JsString) {req : Json} (hne : isNull req = false)
    (h : envelope req = none) :
    dispatchStart serverVersion req =
      .ok (.answered (some (jsonRpcError (orElse (optProp (some req) (js "id")) .null)
        .InvalidRequest (js "invalid JSON-RPC envelope")))) := by
  unfold envelope at h
  unfold dispatchStart
  simp only [prop_of_ne_null hne, pure_bind]
  split at h
  · cases h
  · rfl

/-! ## Who is answered -/

/-- The methods that are never answered. -/
def silentMethods : List JsString := [js "notifications/initialized", js "initialized"]

/-- The methods whose notifications are not answered. -/
def quietMethods : List JsString := js "initialize" :: js "ping" :: silentMethods

/-- The rule of JSON-RPC: a notification gets no response, a request one with its own id. -/
def Answers (id : Option Json) (response : Option JsonRpcResponse) : Prop :=
  match id with
  | none => response = none
  | some v => ∃ r, response = some r ∧ r.id = v

theorem finishCall_id (id : Json) (outcome : HandlerOutcome) : (finishCall id outcome).id = id := by
  cases outcome <;> rfl

/-- A tool call is answered with its id, on each of its exits. -/
theorem startCall_response (handler : McpTool → Json → HandlerOutcome) (id : Json)
    (params : Option Json) : ∃ r, (startCall id params).response handler = some r ∧ r.id = id := by
  unfold startCall
  split
  · split
    · exact ⟨_, rfl, finishCall_id id _⟩
    · exact ⟨_, rfl, rfl⟩
  · exact ⟨_, rfl, rfl⟩

theorem startMethod_silent {serverVersion method : JsString}
    {handler : McpTool → Json → HandlerOutcome} {params : Option Json} {id : Json}
    {isNotification : Bool}
    (h : method ∈ silentMethods ∨ (isNotification = true ∧ method ∈ quietMethods)) :
    (startMethod serverVersion method params id isNotification).response handler = none := by
  have hsilent : method ∈ silentMethods →
      startMethod serverVersion method params id isNotification = .answered none := by
    intro hm
    simp only [silentMethods, List.mem_cons, List.not_mem_nil, or_false] at hm
    rcases hm with rfl | rfl
    · rfl
    · rfl
  rcases h with hm | ⟨rfl, hm⟩
  · rw [hsilent hm]
    rfl
  · rcases List.mem_cons.mp hm with rfl | hm
    · rfl
    · rcases List.mem_cons.mp hm with rfl | hm
      · rfl
      · rw [hsilent hm]
        rfl

/-- Every other message is answered, whatever its method, and with its id. -/
theorem startMethod_answers {method : JsString} (serverVersion : JsString)
    (handler : McpTool → Json → HandlerOutcome) (isNotification : Bool) (params : Option Json) (id : Json)
    (hs : method ∉ silentMethods) (hq : isNotification = true → method ∉ quietMethods) :
    ∃ r, (startMethod serverVersion method params id isNotification).response handler = some r ∧
      r.id = id := by
  have hrequest : method ∈ quietMethods → isNotification = false := by
    intro hm
    cases isNotification with
    | false => rfl
    | true => exact absurd hm (hq rfl)
  unfold startMethod
  split
  · rename_i hm
    rw [hrequest (by simp [hm, quietMethods])]
    exact ⟨_, rfl, rfl⟩
  · split
    · rename_i hm
      exact absurd (by simpa [silentMethods] using hm) hs
    · split
      · rename_i hm
        rw [hrequest (by simp [hm, quietMethods])]
        exact ⟨_, rfl, rfl⟩
      · split
        · exact ⟨_, rfl, rfl⟩
        · split
          · exact startCall_response handler id params
          · exact ⟨_, rfl, rfl⟩

theorem orElse_some_null (v : Json) : orElse (some v) .null = v := by
  cases v <;> rfl

theorem answers_iff (serverVersion method : JsString) (handler : McpTool → Json → HandlerOutcome)
    (params id : Option Json) :
    Answers id
      ((startMethod serverVersion method params (orElse id .null) id.isNone).response handler) ↔
      (id.isSome = true ∧ method ∉ silentMethods) ∨ (id = none ∧ method ∈ quietMethods) := by
  cases id with
  | none =>
    show (startMethod serverVersion method params .null true).response handler = none ↔ _
    by_cases hq : method ∈ quietMethods
    · simp [hq, startMethod_silent (.inr ⟨rfl, hq⟩)]
    · have hs : method ∉ silentMethods := fun hm => hq (by simp [quietMethods, hm])
      obtain ⟨r, hr, -⟩ :=
        startMethod_answers serverVersion handler true params .null hs fun _ => hq
      simp [hq, hr]
  | some v =>
    show (∃ r, (startMethod serverVersion method params (orElse (some v) .null) false).response
      handler = some r ∧ r.id = v) ↔ _
    rw [orElse_some_null]
    by_cases hs : method ∈ silentMethods
    · simp [hs, startMethod_silent (.inl hs)]
    · have hanswered :=
        startMethod_answers serverVersion handler false params v hs fun hn => (by cases hn)
      simp [hs, hanswered]

/-- A message is answered as JSON-RPC asks exactly when it is a request with a
method that is not silent, or a notification with a quiet one; what the handler
does plays no part. -/
theorem dispatch_answers_iff {req : Json} {m : Envelope} (serverVersion : JsString)
    (handler : McpTool → Json → HandlerOutcome) (h : envelope req = some m) :
    (∃ response, dispatch serverVersion handler req = .ok response ∧ Answers m.id response) ↔
      (m.id.isSome = true ∧ m.method ∉ silentMethods) ∨
        (m.id = none ∧ m.method ∈ quietMethods) := by
  have hd : dispatch serverVersion handler req = .ok ((startMethod serverVersion m.method m.params
      (orElse m.id .null) m.id.isNone).response handler) := by
    rw [dispatch, dispatchStart_envelope serverVersion h]
    rfl
  rw [hd, ← answers_iff serverVersion m.method handler m.params m.id]
  refine ⟨fun ⟨response, he, ha⟩ => ?_, fun ha => ⟨_, rfl, ha⟩⟩
  cases he
  exact ha

def message (id : Option Json) (method : String) : Json :=
  let head := [(js "jsonrpc", Json.str (js "2.0")), (js "method", .str (js method))]
  .obj (match id with
    | none => head
    | some v => (js "id", v) :: head)

/-- A request to list the tools. -/
theorem list_request_answered :
    ∃ response, dispatch (js "dev") (fun _ _ => .ok none) (message (some .null) "tools/list") =
      .ok response ∧ Answers (some .null) response :=
  have he : envelope (message (some .null) "tools/list") =
      some ⟨some .null, js "tools/list", none⟩ := by rfl
  (dispatch_answers_iff (js "dev") (fun _ _ => .ok none) he).mpr (.inl ⟨rfl, by decide⟩)

/-- A notification with that method is answered, and a request `initialized` is not. -/
theorem list_notification_answered :
    envelope (message none "tools/list") = some ⟨none, js "tools/list", none⟩ ∧
      (∃ r, dispatch (js "dev") (fun _ _ => .ok none) (message none "tools/list") = .ok (some r)) ∧
      (¬ ∃ response, dispatch (js "dev") (fun _ _ => .ok none) (message none "tools/list") =
        .ok response ∧ Answers none response) ∧
      ¬ ∃ response, dispatch (js "dev") (fun _ _ => .ok none) (message (some .null) "initialized") =
        .ok response ∧ Answers (some .null) response := by
  refine ⟨rfl, ⟨_, rfl⟩, ?_, ?_⟩
  · intro ⟨response, hd, ha⟩
    cases hd
    cases ha
  · intro ⟨response, hd, r, hr, _⟩
    cases hd
    cases hr

end Conductor.Mcp.Server
