import Conductor.Mcp.Stdio

/-! # Responses and the end of input

The promise of `runStdioServer` resolves when its input ends, whatever is still
in flight. A request whose handler has settled by then is answered before the
process exits; one that waits for its handler is not. -/
namespace Conductor.Mcp.EndOfInput
open Conductor.Lib.Queue Conductor.Lib.Runs Conductor.Js.Text Conductor.Js.Number
open Conductor.Js.Values Conductor.Mcp.Protocol Conductor.Mcp.Registry Conductor.Mcp.Server
open Conductor.Mcp.Stdio

variable {p : Platform} {s t : State} {e : Event} {i : Nat} {text : JsString} {id : Json}

/-- The id of the request on a line, if it is one of a method that is answered at all. -/
def requestId (text : JsString) : Option Json :=
  match readInput text with
  | .parsed req => do
    let m ← envelope req
    if m.method ∈ silentMethods then none else m.id
  | _ => none

def Request (text : JsString) (id : Json) : Prop := requestId text = some id

theorem request_iff : Request text id ↔ ∃ req m, readInput text = .parsed req ∧
    envelope req = some m ∧ m.id = some id ∧ m.method ∉ silentMethods := by
  unfold Request requestId
  cases readInput text with
  | blank => simp
  | malformed text => simp
  | parsed req => simp [Option.bind_eq_some_iff, and_comm]

/-- The request of line `i` waits for its handler. -/
def Waiting (s : State) (i : Nat) : Prop := ∃ c ∈ s.calls, c.line = i

/-- Where the request of line `i` is. -/
inductive Tracked (s : State) (i : Nat) (id : Json) : Prop
  | calling (c : Call) (mem : c ∈ s.calls) (line : c.line = i) (id : c.id = id)
  | finishing (j : Job) (mem : j ∈ s.jobs) (finishes : Finishes i id j)
  | delivering (j : Job) (mem : j ∈ s.jobs) (delivers : Delivers i (·.id = id) j)
  | written (written : Written s i (·.id = id))

theorem Tracked.mono (h : Tracked s i id) (hcalls : ∀ c ∈ s.calls, c ∈ t.calls)
    (hjobs : ∀ j ∈ s.jobs, j ∈ t.jobs) (hout : ∀ w ∈ s.out, w ∈ t.out) : Tracked t i id := by
  cases h with
  | calling c hc hline hid => exact .calling c (hcalls c hc) hline hid
  | finishing j hj hfin => exact .finishing j (hjobs j hj) hfin
  | delivering j hj hdel => exact .delivering j (hjobs j hj) hdel
  | written hw => exact .written (hw.mono hout)

/-- A request starts with a call or with the job that delivers its response. -/
theorem receive_request (p : Platform) (s : State) (h : Request text id) :
    Tracked (receive p s text) s.lines.length id := by
  obtain ⟨req, m, hread, henv, hid, hm⟩ := request_iff.mp h
  have horElse : orElse m.id .null = id := by rw [hid, orElse_some_null]
  have hstart := dispatchStart_envelope p.serverVersion henv
  rw [horElse, hid, Option.isNone_some] at hstart
  obtain ⟨r, hr, hrid⟩ := startMethod_answers p.serverVersion (fun _ _ => .ok none) false m.params id
    hm fun hn => (by cases hn)
  unfold receive
  simp only [hread, hstart]
  cases hs : startMethod p.serverVersion m.method m.params id false with
  | answered response =>
    rw [hs] at hr
    have hresponse : response = some r := hr
    rw [hresponse]
    exact .delivering _ List.mem_concat_self ⟨r, rfl, hrid⟩
  | awaiting tool arguments id' =>
    rw [hs] at hr
    have hfinish : finishCall id' (.ok none) = r := Option.some.inj hr
    rw [← hfinish, finishCall_id] at hrid
    exact .calling _ List.mem_concat_self rfl hrid

theorem tracked_step (h : step p s e = some t) (ht : Tracked s i id) : Tracked t i id := by
  obtain ⟨-, htaken⟩ := taken_of_step h
  cases htaken with
  | line text hopen =>
    obtain ⟨calls, jobs, out, heq, -⟩ := receive_spec p s text
    rw [heq]
    exact ht.mono (fun _ hc => List.mem_append_left _ hc) (fun _ hj => List.mem_append_left _ hj)
      fun _ hw => List.mem_append_left _ hw
  | settle k outcome c hc =>
    cases ht with
    | calling d hd hline hid =>
      obtain ⟨hk, rfl⟩ := List.getElem?_eq_some_iff.mp hc
      rcases List.mem_cons.mp ((List.getElem_cons_eraseIdx_perm hk).mem_iff.mpr hd) with rfl | hd
      · refine .finishing _ List.mem_concat_self ⟨outcome, ?_⟩
        rw [hline, hid]
      · exact .calling d hd hline hid
    | finishing j hj hfin => exact .finishing j (List.mem_append_left _ hj) hfin
    | delivering j hj hdel => exact .delivering j (List.mem_append_left _ hj) hdel
    | written hw => exact .written hw
  | job j rest hjobs =>
    have hserve := runJob_serves p { s with jobs := rest } j
    obtain ⟨new, hnew, -⟩ := hserve.jobs
    have hbehind : ∀ k ∈ rest, k ∈ (runJob p { s with jobs := rest } j).jobs := by
      intro k hk
      rw [hnew]
      exact List.mem_append_left new hk
    cases ht with
    | calling c hc hline hid =>
      rw [← (runJob_frame p { s with jobs := rest } j).2.2] at hc
      exact .calling c hc hline hid
    | finishing k hk hfin =>
      rw [hjobs] at hk
      rcases List.mem_cons.mp hk with rfl | hk
      · obtain ⟨outcome, rfl⟩ := hfin
        exact .delivering _ List.mem_concat_self
          ⟨_, rfl, finishCall_id id outcome⟩
      · exact .finishing k (hbehind k hk) hfin
    | delivering k hk hdel =>
      rw [hjobs] at hk
      rcases List.mem_cons.mp hk with rfl | hk
      · obtain ⟨r, rfl, hr⟩ := hdel
        exact .written ⟨r, List.mem_concat_self, hr⟩
      · exact .delivering k (hbehind k hk) hdel
    | written hw => exact .written (hw.mono hserve.out)
  | close hopen =>
    exact ht.mono (fun _ hc => hc) (fun _ hj => List.mem_append_left _ hj) fun _ hw => hw
  | terminate hrej => exact ht.mono (fun _ hc => hc) (fun _ hj => hj) fun _ hw => hw

def AllTracked (s : State) : Prop :=
  ∀ i text id, s.lines[i]? = some text → Request text id → Tracked s i id

/-- No request is ever lost inside the process. -/
theorem allTracked_run {es : List Event} (h : exec (step p) init es = some t) : AllTracked t := by
  have hinit : AllTracked init := fun i text id hi => (by simp [init] at hi)
  refine exec_invariant (fun s e t hstep hall i text id hi hreq => ?_) h hinit
  rcases line_old_or_new hstep hi with hold | ⟨-, rfl, -, rfl⟩
  · exact tracked_step hstep (hall i text id hold hreq)
  · exact receive_request p s hreq

/-! ## After the end of input -/

/-- A request whose handler has settled is due when the input ends. -/
theorem due_of_tracked (hi : Inv s) (hopen : s.closed = false) (hproc : s.process ≠ .exited)
    (ht : Tracked s i id) (hw : ¬ Waiting s i) : Due s i id := by
  have hjobs := (hi.opened hopen).2
  have hlate : ∀ j ∈ s.jobs, ¬ Late j := fun j hj hl => hjobs j hj hl.shutdown
  cases ht with
  | calling c hc hline _ => exact absurd ⟨c, hc, hline⟩ hw
  | finishing j hj hfin => exact .inr ⟨hproc, .inl ⟨hlate, ahead_of_mem hj hfin hjobs⟩⟩
  | delivering j hj hdel => exact .inr ⟨hproc, .inr (ahead_of_mem hj hdel hlate)⟩
  | written hwritten => exact .inl hwritten

/-- If `dispatch` has continued as well, its response is already queued. -/
theorem prompt_of_tracked (hi : Inv s) (hopen : s.closed = false) (hproc : s.process ≠ .exited)
    (ht : Tracked s i id) (hw : ¬ Waiting s i) (hf : ∀ j ∈ s.jobs, ¬ Finishes i id j) :
    Prompt s i (·.id = id) := by
  obtain ⟨hres, hjobs⟩ := hi.opened hopen
  cases ht with
  | calling c hc hline _ => exact absurd ⟨c, hc, hline⟩ hw
  | finishing j hj hfin => exact absurd hfin (hf j hj)
  | delivering j hj hdel => exact .inr ⟨hres, hproc, ahead_of_mem hj hdel hjobs⟩
  | written hwritten => exact .inl hwritten

theorem closing (h : step p s .close = some t) : s.closed = false ∧ s.process ≠ .exited := by
  obtain ⟨hrun, htaken⟩ := taken_of_step h
  cases htaken with
  | close hopen => exact ⟨hopen, by simp [hrun]⟩

/-- Input ends in state `s`, and the run goes on to `t`. A request received by
then that does not wait for its handler has its one response written before
the process exits; if `dispatch` has also continued, before the code that awaits
the server continues. -/
theorem requests_answered {before after : List Event} (hs : exec (step p) init before = some s)
    (ht : exec (step p) s (.close :: after) = some t) (hi : s.lines[i]? = some text)
    (hreq : Request text id) (hw : ¬ Waiting s i) :
    (t.process = .exited → ∃ r, answersTo t i = [r] ∧ r.id = id) ∧
      ((∀ outcome, Job.finish i id outcome ∉ s.jobs) → t.resolved = true →
        ∃ r, answersTo t i = [r] ∧ r.id = id) := by
  have hinv : Inv t := by
    have hrun : exec (step p) init (before ++ .close :: after) = some t := by
      rw [exec_append, hs]
      exact ht
    exact inv_run hrun
  have htracked : Tracked s i id := allTracked_run hs i text id hi hreq
  obtain ⟨u, hclose, -⟩ := Option.bind_eq_some_iff.mp ht
  obtain ⟨hopen, hproc⟩ := closing hclose
  have hone : Written t i (·.id = id) → ∃ r, answersTo t i = [r] ∧ r.id = id :=
    fun ⟨r, hr, hid⟩ => ⟨r, answersTo_of_mem hinv hr, hid⟩
  refine ⟨fun hexit => ?_, fun hf hres => ?_⟩
  · have hdue : Due t i id := exec_invariant (fun _ _ _ hstep => due_step hstep) ht
      (due_of_tracked (inv_run hs) hopen hproc htracked hw)
    rcases hdue with hwritten | ⟨hne, -⟩
    · exact hone hwritten
    · exact absurd hexit hne
  · have hnone : ∀ j ∈ s.jobs, ¬ Finishes i id j := by
      intro j hj h
      obtain ⟨outcome, rfl⟩ := h
      exact hf outcome hj
    have hprompt : Prompt t i (·.id = id) := exec_invariant (fun _ _ _ hstep => prompt_step hstep) ht
      (prompt_of_tracked (inv_run hs) hopen hproc htracked hw hnone)
    rcases hprompt with hwritten | ⟨hno, -⟩
    · exact hone hwritten
    · rw [hres] at hno
      cases hno

/-! ## A call in flight -/

/-- A request for the tool `snapshot`. -/
def snapshotCall : JsString :=
  js "\x7b\"jsonrpc\":\"2.0\",\"id\":\"a\",\"method\":\"tools/call\",\"params\":\x7b\"name\":\"snapshot\"\x7d\x7d"

theorem snapshotCall_request : ∃ id, Request snapshotCall id :=
  Option.isSome_iff_exists.mp (by decide +kernel)

def settledRun : List Event := [.line snapshotCall, .settle 0 (.ok none)]
def shutdownRun : List Event := [.close, .job, .job, .job, .job, .job]

/-- The handler settles before the end of input. -/
theorem settled_call_answered :
    ∃ s t id, exec (step somePlatform) init settledRun = some s ∧
      exec (step somePlatform) s shutdownRun = some t ∧ Request snapshotCall id ∧
      t.process = .exited ∧ ∃ r, answersTo t 0 = [r] ∧ r.id = id := by
  have hruns : ∃ s ∈ exec (step somePlatform) init settledRun,
      s.lines[0]? = some snapshotCall ∧ s.calls.length = 0 ∧
        ∃ t ∈ exec (step somePlatform) s shutdownRun, t.process = .exited := by decide +kernel
  obtain ⟨s, hs, hi, hcalls, t, ht, hexit⟩ := hruns
  obtain ⟨id, hreq⟩ := snapshotCall_request
  have hw : ¬ Waiting s 0 := by
    intro ⟨c, hc, _⟩
    rw [List.length_eq_zero_iff.mp hcalls] at hc
    cases hc
  exact ⟨s, t, id, hs, ht, hreq, hexit, (requests_answered hs ht hi hreq hw).1 hexit⟩

/-- Input ends while the handler runs: the process exits without a response. -/
theorem running_call_lost :
    ∃ t, exec (step somePlatform) init [.line snapshotCall, .close, .job, .job, .job] = some t ∧
      t.lines[0]? = some snapshotCall ∧ (∃ id, Request snapshotCall id) ∧
      t.resolved = true ∧ t.process = .exited ∧ answersTo t 0 = [] := by
  have hrun : ∃ t ∈ exec (step somePlatform) init [.line snapshotCall, .close, .job, .job, .job],
      t.lines[0]? = some snapshotCall ∧ t.resolved = true ∧ t.process = .exited ∧
        (answersTo t 0).length = 0 := by decide +kernel
  obtain ⟨t, ht, hi, hres, hexit, hnone⟩ := hrun
  exact ⟨t, ht, hi, snapshotCall_request, hres, hexit, List.length_eq_zero_iff.mp hnone⟩

end Conductor.Mcp.EndOfInput
