import Conductor.Cli.AuditReaders
import Conductor.Js.JsonRoundTrip
import Conductor.Tmux.AuditRoundTrip

/-! # What an HTTP client gets

Why a request is answered with its status, and what a client makes of the bytes of
the body: the value that the dispatcher returned, as JSON writes it. For the
audit log this goes from the entries that were appended to the ones that a client
of `GET /audit` holds. -/
namespace Conductor.Http.ClientBody
open Conductor.Js Conductor.Js.Text Conductor.Js.Number Conductor.Js.Utf8 Conductor.Js.Utf8Cut
open Conductor.Js.Values Conductor.Js.JsonText Conductor.Js.JsonAccepts Conductor.Js.JsonRoundTrip
open Conductor.Js.Doubles Conductor.Js.ToNumber Conductor.Sessions.Types Conductor.Discovery.Providers
open Conductor.Lib.Runs Conductor.Tmux Conductor.Tmux.Audit
open Conductor.Http.Server Conductor.Cli.AuditReaders Conductor.Mcp.Handlers Conductor.Tmux.AuditRoundTrip

/-! ## The status -/

def jsonRoutes : List JsString := [js "/", js "/health", js "/snapshot", js "/sessions", js "/audit"]

def knownPaths : List JsString := js "/metrics" :: jsonRoutes

/-- Why a request is answered with a status. -/
inductive Explains (d : Daemon) (req : Request) : Nat → Prop
  | method (h : req.method ≠ js "GET" ∧ req.method ≠ js "HEAD") : Explains d req 405
  | host (hmethod : req.method = js "GET" ∨ req.method = js "HEAD")
      (h : isLoopbackHost req.host = false) : Explains d req 403
  | unknown (admitted : Admitted req) (h : pathOf (targetOf req) ∉ knownPaths) : Explains d req 404
  | failed {query : SearchParams} {e : JsError} (admitted : Admitted req)
      (hquery : d.newURL (targetOf req) = .ok query) (h : pathOf (targetOf req) ∈ knownPaths)
      (threw : route d (pathOf (targetOf req)) query = .error e) : Explains d req 500
  | served {query : SearchParams} {result : DispatchResult} (admitted : Admitted req)
      (hquery : d.newURL (targetOf req) = .ok query) (h : pathOf (targetOf req) ∈ knownPaths)
      (returned : route d (pathOf (targetOf req)) query = .ok result) : Explains d req 200

/-- The values of the routes can be written as JSON, and the metrics as text. -/
structure Writable (d : Daemon) : Prop where
  health : Sound d.handleHealth
  session : ∀ s, Sound (d.sessionJson s)
  snapshot : ∀ ss v, d.buildSnapshot ss = .ok v → Sound v
  audit : ∀ query v, d.handleAudit query = .ok v → Sound v
  metrics : ∀ text, d.renderMetrics = .ok text → IsText text

/-- What the dispatcher may return as a body. -/
def GoodBody : Body → Prop
  | .json v => Sound v
  | .text contentType text => contentType = PROMETHEUS_CONTENT_TYPE ∧ IsText text

variable {d : Daemon} {req : Request} {query : SearchParams}

theorem sound_handleSnapshot (hd : Writable d) {v : Json} (h : handleSnapshot d query = .ok v) : Sound v := by
  unfold handleSnapshot at h
  cases hs : discoverSessions d.host (providerNameOf query) with
  | error e => rw [hs] at h; cases h
  | ok sessions =>
    rw [hs] at h
    exact hd.snapshot sessions v h

theorem sound_handleSessions (hd : Writable d) {v : Json} (h : handleSessions d query = .ok v) : Sound v := by
  unfold handleSessions at h
  cases hs : discoverSessions d.host (providerNameOf query) with
  | error e => rw [hs] at h; cases h
  | ok sessions =>
    rw [hs] at h
    cases h
    refine soundAll_iff.mpr fun v hv => ?_
    obtain ⟨s, -, rfl⟩ := List.mem_map.mp hv
    exact hd.session s

/-- What a route returns: its status tells whether the path is known. -/
structure Routed (path : JsString) (r : DispatchResult) : Prop where
  good : GoodBody r.body
  status : r.status = 200 ∧ path ∈ knownPaths ∨ r.status = 404 ∧ path ∉ knownPaths

theorem routed_json {path : JsString} {v : Except JsError Json} {r : DispatchResult} (hpath : path ∈ knownPaths)
    (hv : ∀ w, v = .ok w → Sound w) (h : (do return ⟨200, .json (← v)⟩) = Except.ok r) : Routed path r := by
  cases hw : v with
  | error e => rw [hw] at h; cases h
  | ok w =>
    rw [hw] at h
    cases h
    exact ⟨hv w hw, .inl ⟨rfl, hpath⟩⟩

theorem route_routed (hd : Writable d) {path : JsString} {r : DispatchResult}
    (h : route d path query = .ok r) : Routed path r := by
  unfold route at h
  by_cases hhealth : path = js "/" ∨ path = js "/health"
  · rw [if_pos hhealth] at h
    refine routed_json (v := .ok d.handleHealth) ?_ (fun w hw => Except.ok.inj hw ▸ hd.health) h
    rcases hhealth with rfl | rfl
    · simp [knownPaths, jsonRoutes]
    · simp [knownPaths, jsonRoutes]
  rw [if_neg hhealth] at h
  by_cases hsnapshot : path = js "/snapshot"
  · rw [if_pos hsnapshot] at h
    exact routed_json (by simp [hsnapshot, knownPaths, jsonRoutes]) (fun w hw => sound_handleSnapshot hd hw) h
  rw [if_neg hsnapshot] at h
  by_cases hsessions : path = js "/sessions"
  · rw [if_pos hsessions] at h
    exact routed_json (by simp [hsessions, knownPaths, jsonRoutes]) (fun w hw => sound_handleSessions hd hw) h
  rw [if_neg hsessions] at h
  by_cases haudit : path = js "/audit"
  · rw [if_pos haudit] at h
    exact routed_json (by simp [haudit, knownPaths, jsonRoutes]) (fun w hw => hd.audit query w hw) h
  rw [if_neg haudit] at h
  by_cases hmetrics : path = js "/metrics"
  · rw [if_pos hmetrics] at h
    cases hm : d.renderMetrics with
    | error e => rw [hm] at h; cases h
    | ok text =>
      rw [hm] at h
      cases h
      exact ⟨⟨rfl, hd.metrics text hm⟩, .inl ⟨rfl, by simp [hmetrics, knownPaths]⟩⟩
  rw [if_neg hmetrics] at h
  cases h
  refine ⟨?_, .inr ⟨rfl, ?_⟩⟩
  · have hkeys : [js "error", js "path", js "routes"].Nodup := by decide
    refine ⟨hkeys, trivial, trivial, soundAll_iff.mpr fun v hv => ?_, trivial⟩
    obtain ⟨s, -, rfl⟩ := List.mem_map.mp hv
    trivial
  · simp only [knownPaths, jsonRoutes, List.mem_cons, List.not_mem_nil, or_false, not_or]
    exact ⟨hmetrics, fun h => hhealth (.inl h), fun h => hhealth (.inr h), hsnapshot, hsessions, haudit⟩

/-- An unknown path does not throw. -/
theorem known_of_error {path : JsString} {e : JsError} (h : route d path query = .error e) :
    path ∈ knownPaths := by
  by_contra hno
  simp only [knownPaths, jsonRoutes, List.mem_cons, List.not_mem_nil, or_false, not_or] at hno
  obtain ⟨hmetrics, hroot, hhealth, hsnapshot, hsessions, haudit⟩ := hno
  unfold route at h
  rw [if_neg (not_or.mpr ⟨hroot, hhealth⟩), if_neg hsnapshot, if_neg hsessions, if_neg haudit,
    if_neg hmetrics] at h
  cases h

/-- Whatever the dispatcher returns has its reason, and a body that can be written. -/
theorem dispatchHttp_explains (hd : Writable d) {r : DispatchResult} (h : dispatchHttp d req = .ok r) :
    Explains d req r.status ∧ GoodBody r.body := by
  unfold dispatchHttp at h
  split at h
  · rename_i hmethod
    cases h
    have hkeys : [js "error", js "allowed"].Nodup := by decide
    exact ⟨.method hmethod, hkeys, trivial, ⟨trivial, trivial⟩, trivial⟩
  · rename_i hmethod
    have hget : req.method = js "GET" ∨ req.method = js "HEAD" := by
      by_contra hno
      exact hmethod (not_or.mp hno)
    split at h
    · rename_i hhost
      cases h
      have hkeys : [js "error", js "host", js "hint"].Nodup := by decide
      refine ⟨.host hget (by simpa using hhost), hkeys, trivial, ?_, trivial, trivial⟩
      split
      · trivial
      · trivial
    · rename_i hhost
      have hadmitted : Admitted req := ⟨hget, by simpa using hhost⟩
      cases hquery : d.newURL (targetOf req) with
      | error e =>
        rw [parseQuery, hquery] at h
        cases h
      | ok query =>
        rw [parseQuery, hquery] at h
        cases hroute : route d (pathOf (targetOf req)) query with
        | ok result =>
          simp only [bind, Except.bind, hroute] at h
          cases h
          obtain ⟨hgood, ⟨hstatus, hknown⟩ | ⟨hstatus, hunknown⟩⟩ := route_routed hd hroute
          · rw [hstatus]
            exact ⟨.served hadmitted hquery hknown hroute, hgood⟩
          · rw [hstatus]
            exact ⟨.unknown hadmitted hunknown, hgood⟩
        | error e =>
          simp only [bind, Except.bind, hroute] at h
          cases h
          have hkeys : [js "error", js "message"].Nodup := by decide
          exact ⟨.failed hadmitted hquery (known_of_error hroute) hroute, hkeys, trivial, trivial, trivial⟩

/-! ## The bytes -/

/-- What a client makes of a body that is JSON. -/
def readJson (bytes : Bytes) : Option Json := parse (decode bytes)

theorem readJson_sent {v : Json} (h : Sound v) : readJson (encode (stringify v)) = some (readBack v) :=
  parse_decode_encode (writes_stringify v h.doubles)

/-- What the platform puts on the wire behind the headers: nothing in answer to `HEAD`. -/
def bodyBytes (req : Request) (r : Response) : Bytes := if req.method = js "HEAD" then [] else encode r.text

theorem bodyBytes_eq {r : Response} (h : req.method ≠ js "HEAD") : bodyBytes req r = encode r.text := if_neg h

/-- A response on the wire, against what the dispatcher returned. -/
structure Carries (req : Request) (r : Response) (result : DispatchResult) : Prop where
  status : r.status = result.status
  length : req.method ≠ js "HEAD" → r.contentLength = (bodyBytes req r).length
  body : match result.body with
    | .json v => r.contentType = js "application/json; charset=utf-8" ∧
        (req.method ≠ js "HEAD" → readJson (bodyBytes req r) = some (readBack v))
    | .text contentType text => r.contentType = contentType ∧
        (req.method ≠ js "HEAD" → decode (bodyBytes req r) = text)

/-- `HEAD` is answered as `GET` is. -/
theorem handleRequest_head (d : Daemon) (h : req.method = js "HEAD") :
    handleRequest d req = handleRequest d { req with method := js "GET" } := by
  have hhead : ¬ (req.method ≠ js "GET" ∧ req.method ≠ js "HEAD") := fun hno => hno.2 h
  have hget : ¬ (js "GET" ≠ js "GET" ∧ js "GET" ≠ js "HEAD") := fun hno => hno.1 rfl
  have hdispatch : dispatchHttp d req = dispatchHttp d { req with method := js "GET" } := by
    unfold dispatchHttp
    rw [if_neg hhead, if_neg hget]
    rfl
  rw [handleRequest, handleRequest, hdispatch]

/-- A request that is served gets one response. Its status has a reason, its length is
that of its bytes, and a client reads from these what the dispatcher returned; in
answer to `HEAD` it is the response to `GET`, without the bytes. -/
theorem client_reads_body (hd : Writable d) (h : IsServed d req) :
    ∃ r result, handleRequest d req = ⟨[r], false⟩ ∧ dispatchHttp d req = .ok result ∧
      Explains d req r.status ∧ Carries req r result ∧
      (req.method = js "HEAD" → handleRequest d { req with method := js "GET" } = ⟨[r], false⟩) := by
  obtain ⟨⟨status, body⟩, hresult⟩ := h.1
  obtain ⟨hexplains, hgood⟩ := dispatchHttp_explains hd hresult
  have hhead : req.method = js "HEAD" → handleRequest d { req with method := js "GET" } = handleRequest d req :=
    fun hm => (handleRequest_head d hm).symm
  unfold handleRequest at hhead ⊢
  rw [hresult] at hhead ⊢
  cases body with
  | json v =>
    refine ⟨_, _, rfl, rfl, hexplains, ⟨rfl, fun hm => ?_, rfl, fun hm => ?_⟩, hhead⟩
    · rw [bodyBytes_eq hm]
      rfl
    · rw [bodyBytes_eq hm]
      exact readJson_sent hgood
  | text contentType text =>
    refine ⟨_, _, rfl, rfl, hexplains, ⟨rfl, fun hm => ?_, rfl, fun hm => ?_⟩, hhead⟩
    · rw [bodyBytes_eq hm]
      rfl
    · rw [bodyBytes_eq hm]
      exact hgood.2.decode_encode

/-- The metrics of this daemon cannot be read. -/
def halfDaemon : Daemon :=
  { someDaemon with
    handleHealth := .obj [(js "ok", .bool true)]
    renderMetrics := .error (.error (js "disk I/O error")) }

theorem halfDaemon_writable : Writable halfDaemon where
  health := ⟨List.nodup_singleton _, trivial, trivial⟩
  session _ := trivial
  snapshot _ _ h := Except.ok.inj h ▸ trivial
  audit _ _ h := Except.ok.inj h ▸ trivial
  metrics _ h := by cases h

def getRequest (target : String) : Request := ⟨js "GET", some (js "localhost:32140"), some (js target)⟩

/-- A route that returns, and one that throws. -/
theorem client_reads_half :
    (∃ r, handleRequest halfDaemon (getRequest "/health?x=1") = ⟨[r], false⟩ ∧ r.status = 200 ∧
      readJson (bodyBytes (getRequest "/health?x=1") r) = some (.obj [(js "ok", .bool true)])) ∧
    ∃ r, handleRequest halfDaemon (getRequest "/metrics") = ⟨[r], false⟩ ∧ r.status = 500 := by
  have hserved : ∀ target, js target ≠ js "//" → IsServed halfDaemon (getRequest target) := fun target hne =>
    (request_served_iff halfDaemon _).mpr fun _ => ⟨[], if_neg hne⟩
  have hmethod : js "GET" ≠ js "HEAD" := by decide
  refine ⟨?_, ?_⟩
  · obtain ⟨r, result, hr, hresult, -, hcarries, -⟩ := client_reads_body halfDaemon_writable
      (hserved "/health?x=1" (by decide))
    have hrouted : dispatchHttp halfDaemon (getRequest "/health?x=1") =
        .ok ⟨200, .json (.obj [(js "ok", .bool true)])⟩ := by rfl
    cases hresult.symm.trans hrouted
    exact ⟨r, hr, hcarries.status, hcarries.body.2 hmethod⟩
  · obtain ⟨r, result, hr, hresult, -, hcarries, -⟩ := client_reads_body halfDaemon_writable
      (hserved "/metrics" (by decide))
    have hthrown : ∃ v, dispatchHttp halfDaemon (getRequest "/metrics") = .ok ⟨500, .json v⟩ := ⟨_, rfl⟩
    obtain ⟨v, hv⟩ := hthrown
    cases hresult.symm.trans hv
    exact ⟨r, hr, hcarries.status⟩

/-! ## The audit log -/

/-- The `tail` of a request as a number. -/
def tailOf (query : SearchParams) : JsNumber := toNumber ((queryValue query (js "tail")).getD (js "20"))

/-- How many entries are asked for: without a positive number 20 of them, and all by a
fraction below one, of which rounding leaves no limit. -/
def askedFor (tail : JsNumber) : Option Nat :=
  match tail.toRat? with
  | some q => if q ≤ 0 then some 20 else if q < 1 then none else some q.floor.toNat
  | none => some 20

/-- The end of the log. -/
def lastOf {α : Type} (count : Option Nat) (entries : List α) : List α :=
  match count with
  | none => entries
  | some count => entries.drop (entries.length - count)

theorem mem_of_mem_lastOf {α : Type} {count : Option Nat} {entries : List α} {x : α} (h : x ∈ lastOf count entries) :
    x ∈ entries := by
  cases count with
  | none => exact h
  | some count => exact List.mem_of_mem_drop h

/-- What is sliced off the log is what is asked for. -/
theorem sliceFrom_lastOf (tail : JsNumber) (os : List EntryObject) :
    sliceFrom (-auditLimit tail) (os.map (·.json)) = (lastOf (askedFor tail) os).map (·.json) := by
  have hcount : ∀ limit : Int, 0 < limit →
      sliceFrom (-limit) (os.map (·.json)) = (lastOf (some limit.toNat) os).map (·.json) := by
    intro limit hpos
    rw [sliceFrom_neg hpos, lastEntries, List.length_map, lastOf, List.map_drop]
  unfold auditLimit askedFor
  cases tail.toRat? with
  | none => exact hcount 20 (by decide)
  | some q =>
    simp only
    by_cases hpos : 0 < q
    · rw [if_pos hpos, if_neg (not_le.mpr hpos)]
      by_cases hone : q < 1
      · have hzero : q.floor = 0 := by
          have hlow : 0 ≤ q.floor := Rat.le_floor_iff.mpr (by exact_mod_cast hpos.le)
          have hhigh : q.floor < 1 := Rat.floor_lt_iff.mpr (by exact_mod_cast hone)
          omega
        rw [if_pos hone, hzero]
        rfl
      · rw [if_neg hone]
        exact hcount _ (floor_pos (not_lt.mp hone))
    · rw [if_neg hpos, if_pos (not_lt.mp hpos)]
      exact hcount 20 (by decide)

/-- The body for entries that were appended is read as it was made. -/
theorem readBack_auditBody {path : JsString} {total : Nat} (htotal : total < 2 ^ 53) {os : List EntryObject}
    (h : ∀ o ∈ os, FiniteNumbers o.entry) :
    Sound (auditBody path total (os.map (·.json))) ∧
      readBack (auditBody path total (os.map (·.json))) = auditBody path total (os.map (·.json)) := by
  have hkeys : [js "path", js "total", js "entries"].Nodup := by decide
  have hentries : SoundAll (os.map (·.json)) := soundAll_iff.mpr fun v hv => by
    obtain ⟨o, ho, rfl⟩ := List.mem_map.mp hv
    exact sound_json (h o ho)
  have hback : (os.map (·.json)).map readBack = os.map (·.json) := by
    rw [List.map_map]
    exact List.map_congr_left fun o ho => readBack_json (h o ho)
  have hpath : readBack (.str path) = .str path := rfl
  have hnumber : readBack (.num (Number.ofInt total)) = .num (Number.ofInt total) := rfl
  have harr : readBack (.arr (os.map (·.json))) = .arr (os.map (·.json)) := by
    rw [readBack, readBackAll_eq, hback]
  refine ⟨⟨hkeys, trivial, isDouble_ofInt (by simpa using htotal), hentries, trivial⟩, ?_⟩
  have hmembers : (keys [(js "path", Json.str path), (js "total", .num (Number.ofInt total)),
      (js "entries", .arr (os.map (·.json)))]).Nodup := hkeys
  rw [auditBody, readBack_obj hmembers]
  simp only [readBackMembers, hpath, hnumber, harr]

/-- The answer of an admitted request to a route that returns JSON. -/
theorem handleRequest_json (hadmitted : Admitted req) (hquery : d.newURL (targetOf req) = .ok query)
    {v : Json} (h : route d (pathOf (targetOf req)) query = .ok ⟨200, .json v⟩) :
    handleRequest d req = ⟨[sendJson 200 v], false⟩ := by
  have hgate : ¬ (req.method ≠ js "GET" ∧ req.method ≠ js "HEAD") := fun hno =>
    hadmitted.1.elim hno.1 hno.2
  have hdispatch : dispatchHttp d req = .ok ⟨200, .json v⟩ := by
    unfold dispatchHttp
    rw [if_neg hgate, hadmitted.2]
    simp only [parseQuery, hquery, h, Bool.not_true, Bool.false_eq_true, if_false, bind, Except.bind]
    rfl
  rw [handleRequest, hdispatch]

theorem route_audit {v : Json} (h : d.handleAudit query = .ok v) :
    route d (js "/audit") query = .ok ⟨200, .json v⟩ := by
  unfold route
  rw [if_neg (by decide), if_neg (by decide), if_neg (by decide), if_pos rfl, h]
  rfl

/-- What a client of `GET /audit` holds: how many entries there are, and the last of them. -/
structure HoldsLog (v : Json) (count : Option Nat) (os : List EntryObject) : Prop where
  total : optProp (some v) (js "total") = some (.num (.finite os.length))
  entries : ∃ es, optProp (some v) (js "entries") = some (.arr es) ∧
    es.map readEntry = (lastOf count os).map fun o => some o.entry

/-- From `appendAudit` to a client of `GET /audit`: the bytes of the response are read
as the number of entries that were appended and the last of these, as many as are asked
for, each with all of its fields. -/
theorem audit_over_http {os : List EntryObject} {raw : Bytes} (hlog : Appended os raw)
    (hnum : ∀ o ∈ os, FiniteNumbers o.entry) (hcount : os.length < 2 ^ 53) {path : JsString}
    (hroute : d.handleAudit = handleAudit path (.ok raw)) (hget : req.method = js "GET")
    (hhost : isLoopbackHost req.host = true) (hquery : d.newURL (targetOf req) = .ok query)
    (hpath : pathOf (targetOf req) = js "/audit") :
    ∃ r v, handleRequest d req = ⟨[r], false⟩ ∧ r.status = 200 ∧
      readJson (bodyBytes req r) = some v ∧ HoldsLog v (askedFor (tailOf query)) os := by
  have hmethod : req.method ≠ js "HEAD" := by
    rw [hget]
    decide
  have hentries : auditEntries (decode raw) = os.map (·.json) := by
    rw [appended_file hlog, auditEntries_fileOf hnum]
  have hbody : d.handleAudit query =
      .ok (auditBody path os.length ((lastOf (askedFor (tailOf query)) os).map (·.json))) := by
    rw [hroute, ← sliceFrom_lastOf]
    unfold handleAudit
    simp only [hentries, List.length_map]
    rfl
  have hsub : ∀ o ∈ lastOf (askedFor (tailOf query)) os, FiniteNumbers o.entry := fun o ho =>
    hnum o (mem_of_mem_lastOf ho)
  obtain ⟨hsound, hback⟩ := @readBack_auditBody path os.length hcount _ hsub
  refine ⟨_, _, handleRequest_json ⟨.inl hget, hhost⟩ hquery (hpath ▸ route_audit hbody), rfl,
    (congrArg readJson (bodyBytes_eq hmethod)).trans (readJson_sent hsound), ?_⟩
  rw [hback]
  refine ⟨rfl, _, rfl, ?_⟩
  rw [List.map_map]
  exact List.map_congr_left fun o _ => readEntry_json o

def auditDaemon (raw : Bytes) : Daemon :=
  { someDaemon with
    newURL := fun _ => .ok [(js "tail", js "1")]
    handleAudit := handleAudit (js "/audit.jsonl") (.ok raw) }

def auditRequest : Request := ⟨js "GET", some (js "127.0.0.1"), some (js "/audit?tail=1")⟩

/-- The last of two entries that were appended in one queue. -/
theorem lastEntry_over_http : ∃ s r v, exec AuditOrder.step init twoAppends = some s ∧
    handleRequest (auditDaemon (s.log.current.getD [])) auditRequest = ⟨[r], false⟩ ∧
    readJson (bodyBytes auditRequest r) = some v ∧
    HoldsLog v (askedFor (tailOf [(js "tail", js "1")])) ((AuditOrder.calls twoAppends).map objectOf) := by
  have hts : IsDouble (.finite 1) := by simpa [IsDouble] using nearestDouble_natCast (by norm_num : 1 < 2 ^ 53)
  have hpid : IsDouble (.finite 4242) := by
    simpa [IsDouble] using nearestDouble_natCast (by norm_num : 4242 < 2 ^ 53)
  obtain ⟨s, hrun, hdone⟩ : ∃ s, exec AuditOrder.step init twoAppends = some s ∧ s.queue = [] := ⟨_, rfl, rfl⟩
  have hnum : ∀ o ∈ (AuditOrder.calls twoAppends).map objectOf, FiniteNumbers o.entry := by
    intro o ho
    obtain rfl | rfl : o = objectOf oddText ∨ o = objectOf approval := by
      simpa [AuditOrder.calls, twoAppends] using ho
    · exact ⟨⟨1, rfl, hts⟩, ⟨4242, rfl, hpid⟩⟩
    · exact ⟨⟨1, rfl, hts⟩, ⟨4242, rfl, hpid⟩⟩
  obtain ⟨r, v, hr, -, hread, hholds⟩ := @audit_over_http (auditDaemon (s.log.current.getD [])) auditRequest
    _ _ _ (.queued hrun rfl hdone (by decide)) hnum (by decide) _ rfl rfl (by decide) rfl (by decide)
  exact ⟨s, r, v, hrun, hr, hread, hholds⟩

end Conductor.Http.ClientBody
