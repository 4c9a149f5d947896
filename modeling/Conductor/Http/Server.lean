import Conductor.Js.JsonText
import Conductor.Js.Utf8
import Conductor.Discovery.Providers

/-! # The HTTP daemon

The dispatcher from the method gate to the routes, and the request handler that
writes what it returns. What a route computes is a parameter; whether it throws
is part of it. -/
namespace Conductor.Http.Server
open Conductor.Js Conductor.Js.Text Conductor.Js.Number Conductor.Js.Values Conductor.Js.JsonText
open Conductor.Sessions.Types Conductor.Discovery.Providers

structure Request where
  method : JsString
  /-- The `Host` header. -/
  host : Option JsString
  /-- The request target. -/
  url : Option JsString

/-- The query parameters in the order of `searchParams.entries()`. -/
abbrev SearchParams := List (JsString × JsString)

/-- What the dispatcher uses of the platform and of the rest of the program. -/
structure Daemon where
  /-- `new URL(target, "http://127.0.0.1").searchParams`, or what it throws. -/
  newURL : JsString → Except JsError SearchParams
  errorMessage : JsError → JsString
  host : Host
  sessionJson : LocalSession → Json
  /-- `buildSnapshot`. -/
  buildSnapshot : List LocalSession → Except JsError Json
  handleHealth : Json
  handleAudit : SearchParams → Except JsError Json
  renderMetrics : Except JsError JsString

/-- A JSON body, or a text with its own content type. -/
inductive Body
  | json (v : Json)
  | text (contentType text : JsString)

structure DispatchResult where
  status : Nat
  body : Body

/-! ## The guard -/

/-- `h.lastIndexOf(unit)`. -/
def lastIndexOf (h : JsString) (unit : UInt16) : Option Nat :=
  (h.reverse.idxOf? unit).map fun k => h.length - 1 - k

/-- The host name without its port. -/
def hostName (host : JsString) : Option JsString :=
  if (js "[").isPrefixOf host then
    (host.idxOf? 0x5D).map fun stop => (host.take stop).drop 1
  else match lastIndexOf host 0x3A with
    | some colon => some (if 0 < colon then host.take colon else host)
    | none => some host

def isLoopbackHost : Option JsString → Bool
  | none | some [] => false
  | some host => match hostName host with
    | none => false
    | some h => h == js "127.0.0.1" || h == js "localhost" || h == js "::1"

/-! ## The routes -/

/-- `query[key]`: a repeated parameter takes its last value. -/
def queryValue (query : SearchParams) (key : JsString) : Option JsString := query.reverse.lookup key

def parseQuery (d : Daemon) (rawUrl : JsString) : Except JsError SearchParams := d.newURL rawUrl

def providerNameOf (query : SearchParams) : JsString :=
  (queryValue query (js "provider")).getD DEFAULT_PROVIDER_NAME

def handleSnapshot (d : Daemon) (query : SearchParams) : Except JsError Json := do
  let sessions ← discoverSessions d.host (providerNameOf query)
  d.buildSnapshot sessions

def handleSessions (d : Daemon) (query : SearchParams) : Except JsError Json := do
  let sessions ← discoverSessions d.host (providerNameOf query)
  return .arr (sessions.map d.sessionJson)

def PROMETHEUS_CONTENT_TYPE : JsString := js "text/plain; version=0.0.4; charset=utf-8"

def routes : List JsString :=
  [js "/health", js "/snapshot", js "/sessions", js "/audit", js "/metrics", js "/events (WebSocket)"]

/-- The switch over the path. -/
def route (d : Daemon) (path : JsString) (query : SearchParams) : Except JsError DispatchResult :=
  if path = js "/" ∨ path = js "/health" then return ⟨200, .json d.handleHealth⟩
  else if path = js "/snapshot" then return ⟨200, .json (← handleSnapshot d query)⟩
  else if path = js "/sessions" then return ⟨200, .json (← handleSessions d query)⟩
  else if path = js "/audit" then return ⟨200, .json (← d.handleAudit query)⟩
  else if path = js "/metrics" then return ⟨200, .text PROMETHEUS_CONTENT_TYPE (← d.renderMetrics)⟩
  else return ⟨404, .json (.obj [(js "error", .str (js "not_found")), (js "path", .str path),
    (js "routes", .arr (routes.map .str))])⟩

def targetOf (req : Request) : JsString := req.url.getD (js "/")

/-- `rawUrl.split("?")[0]`. -/
def pathOf (rawUrl : JsString) : JsString := rawUrl.takeWhile (· != 0x3F)

/-- The `try` of the source begins after the query is parsed. -/
def dispatchHttp (d : Daemon) (req : Request) : Except JsError DispatchResult :=
  if req.method ≠ js "GET" ∧ req.method ≠ js "HEAD" then
    return ⟨405, .json (.obj [(js "error", .str (js "method_not_allowed")),
      (js "allowed", .arr [.str (js "GET")])])⟩
  else if !isLoopbackHost req.host then
    return ⟨403, .json (.obj [(js "error", .str (js "non_loopback_host_rejected")),
      (js "host", match req.host with | some h => .str h | none => .null),
      (js "hint", .str (js
        "agent-conductor binds to 127.0.0.1 only. Set Host: 127.0.0.1 or localhost."))])⟩
  else do
    let query ← parseQuery d (targetOf req)
    match route d (pathOf (targetOf req)) query with
    | .ok result => return result
    | .error err => return ⟨500, .json (.obj [(js "error", .str (js "internal_error")),
        (js "message", .str (d.errorMessage err))])⟩

/-! ## The request handler -/

structure Response where
  status : Nat
  contentType : JsString
  contentLength : Nat
  cacheControl : JsString
  text : JsString

def send (status : Nat) (contentType text : JsString) : Response :=
  ⟨status, contentType, (Utf8.encode text).length, js "no-store", text⟩

def sendJson (status : Nat) (body : Json) : Response :=
  send status (js "application/json; charset=utf-8") (stringify body)

def sendText (status : Nat) (contentType text : JsString) : Response := send status contentType text

/-- What one request leads to: the responses written, and whether the promise of
the handler, which nobody awaits, was rejected. -/
structure Served where
  responses : List Response
  rejected : Bool

def handleRequest (d : Daemon) (req : Request) : Served :=
  match dispatchHttp d req with
  | .error _ => ⟨[], true⟩
  | .ok ⟨status, .json v⟩ => ⟨[sendJson status v], false⟩
  | .ok ⟨status, .text contentType text⟩ => ⟨[sendText status contentType text], false⟩

/-! ## Which requests are served -/

variable {d : Daemon} {req : Request}

/-- The request passes the method gate and the host guard. -/
def Admitted (req : Request) : Prop :=
  (req.method = js "GET" ∨ req.method = js "HEAD") ∧ isLoopbackHost req.host = true

/-- The dispatcher resolves, the handler writes one response and no rejection is left. -/
def IsServed (d : Daemon) (req : Request) : Prop :=
  (∃ result, dispatchHttp d req = .ok result) ∧ (handleRequest d req).responses.length = 1 ∧
    (handleRequest d req).rejected = false

/-- The handler does all it has to when the dispatcher resolves. -/
theorem isServed_iff_ok : IsServed d req ↔ ∃ result, dispatchHttp d req = .ok result := by
  refine ⟨fun h => h.1, fun ⟨result, h⟩ => ⟨⟨result, h⟩, ?_⟩⟩
  obtain ⟨status, body⟩ := result
  unfold handleRequest
  rw [h]
  cases body with
  | json v => exact ⟨rfl, rfl⟩
  | text contentType text => exact ⟨rfl, rfl⟩

/-- A refused request does not reach the query. -/
theorem dispatchHttp_refused (h : ¬ Admitted req) :
    ∃ result, dispatchHttp d req = .ok result := by
  unfold dispatchHttp
  split
  · exact ⟨_, rfl⟩
  · rename_i hmethod
    have hget : req.method = js "GET" ∨ req.method = js "HEAD" := by
      by_contra hno
      exact hmethod (not_or.mp hno)
    have hhost : isLoopbackHost req.host = false := by
      by_contra hyes
      exact h ⟨hget, by simpa using hyes⟩
    rw [hhost]
    exact ⟨_, rfl⟩

/-- For an admitted request only the query decides: whatever a route throws is reported. -/
theorem dispatchHttp_admitted (h : Admitted req) :
    (∃ result, dispatchHttp d req = .ok result) ↔ ∃ query, d.newURL (targetOf req) = .ok query := by
  obtain ⟨hmethod, hhost⟩ := h
  have hgate : ¬ (req.method ≠ js "GET" ∧ req.method ≠ js "HEAD") := fun hno =>
    hmethod.elim hno.1 hno.2
  unfold dispatchHttp
  rw [if_neg hgate, hhost]
  cases hq : d.newURL (targetOf req) with
  | error err => simp [parseQuery, hq, bind, Except.bind]
  | ok query =>
    refine ⟨fun _ => ⟨query, rfl⟩, fun _ => ?_⟩
    simp only [parseQuery, hq, Bool.not_true, Bool.false_eq_true, if_false, bind, Except.bind]
    split
    · exact ⟨_, rfl⟩
    · exact ⟨_, rfl⟩

/-- Exactly the requests that a guard refuses or whose target is a URL are served. -/
theorem request_served_iff (d : Daemon) (req : Request) :
    IsServed d req ↔ (Admitted req → ∃ query, d.newURL (targetOf req) = .ok query) := by
  rw [isServed_iff_ok]
  by_cases h : Admitted req
  · rw [dispatchHttp_admitted h]
    exact ⟨fun hq _ => hq, fun hq => hq h⟩
  · exact ⟨fun _ ha => absurd ha h, fun _ => dispatchHttp_refused h⟩

/-- A daemon whose platform cannot resolve the target `//`. -/
def someDaemon : Daemon where
  newURL target := if target = js "//" then .error (.error (js "Invalid URL")) else .ok []
  errorMessage _ := []
  host := ⟨[], fun _ => none, js "/", fun _ => none, js "/p", fun _ => none, fun _ => none⟩
  sessionJson _ := .null
  buildSnapshot _ := .ok (.arr [])
  handleHealth := .obj []
  handleAudit _ := .ok (.arr [])
  renderMetrics := .ok []

/-- `GET //` from a loopback client: no response, and a rejection that nobody handles. -/
theorem double_slash_rejects :
    (handleRequest someDaemon ⟨js "GET", some (js "127.0.0.1"), some (js "//")⟩).responses = [] ∧
      (handleRequest someDaemon ⟨js "GET", some (js "127.0.0.1"), some (js "//")⟩).rejected = true ∧
      ¬ IsServed someDaemon ⟨js "GET", some (js "127.0.0.1"), some (js "//")⟩ := by
  refine ⟨rfl, rfl, fun h => ?_⟩
  have hrejected := h.2.2
  cases hrejected

end Conductor.Http.Server
