import Mathlib.Algebra.Order.Group.Multiset
import Mathlib.Tactic.Abel
import Conductor.Lib.Oracle
import Conductor.Mcp.Stdio

/-! # The overlapping server and the sequential one

Handlers settle in any order, and a line is read while earlier ones still wait.
Written is then what a server would write that takes one line after the other and
waits for each handler, in another order; nothing is lost but what was still on
its way when the process ended. -/
namespace Conductor.Mcp.Serial
open Conductor.Lib.Oracle Conductor.Lib.Runs Conductor.Js.Text Conductor.Js.Values
open Conductor.Mcp.Protocol Conductor.Mcp.Registry Conductor.Mcp.Server Conductor.Mcp.Stdio

variable {p : Platform} {F : Nat → HandlerOutcome} {s t : State} {e : Event} {es : List Event}

/-! ## The sequential server -/

/-- What the callback writes for a request that `dispatch` failed on. -/
def crashResponse (p : Platform) (req : Json) (err : JsError) : Option JsonRpcResponse :=
  match prop req (js "id") with
  | .error _ => none
  | .ok id => some (jsonRpcError (orElse id .null) .InternalError
      (js "internal error: " ++ p.errorMessage err))

/-- The line callback, with a handler that settles at once. -/
def answerLine (p : Platform) (outcome : HandlerOutcome) (text : JsString) : Option JsonRpcResponse :=
  match readInput text with
  | .blank => none
  | .malformed trimmed =>
    some (jsonRpcError .null .ParseError (js "parse error: " ++ p.syntaxMessage trimmed))
  | .parsed req => match dispatch p.serverVersion (fun _ _ => outcome) req with
    | .error err => crashResponse p req err
    | .ok response => response

/-- The answers to the lines from number `n` on. -/
def answersFrom (p : Platform) (F : Nat → HandlerOutcome) : Nat → List JsString → List (Nat × JsonRpcResponse)
  | _, [] => []
  | n, text :: lines =>
    ((answerLine p (F n) text).map (n, ·)).toList ++ answersFrom p F (n + 1) lines

/-- Everything that the sequential server writes. -/
def serial (p : Platform) (F : Nat → HandlerOutcome) (lines : List JsString) :
    List (Nat × JsonRpcResponse) := answersFrom p F 0 lines

theorem answersFrom_snoc (n : Nat) (lines : List JsString) (text : JsString) :
    answersFrom p F n (lines ++ [text]) = answersFrom p F n lines ++
      ((answerLine p (F (n + lines.length)) text).map (n + lines.length, ·)).toList := by
  induction lines generalizing n with
  | nil => simp [answersFrom]
  | cons line lines ih =>
    have hlen : n + 1 + lines.length = n + (line :: lines).length := by
      rw [List.length_cons]
      omega
    rw [List.cons_append, answersFrom, ih, answersFrom, hlen, List.append_assoc]

theorem serial_snoc (lines : List JsString) (text : JsString) :
    serial p F (lines ++ [text]) = serial p F lines ++
      ((answerLine p (F lines.length) text).map (lines.length, ·)).toList := by
  have h := answersFrom_snoc (p := p) (F := F) 0 lines text
  rwa [Nat.zero_add] at h

theorem mem_answersFrom {n i : Nat} {r : JsonRpcResponse} {lines : List JsString}
    (h : (i, r) ∈ answersFrom p F n lines) :
    ∃ k text, lines[k]? = some text ∧ i = n + k ∧ answerLine p (F i) text = some r := by
  induction lines generalizing n with
  | nil => cases h
  | cons line lines ih =>
    rcases List.mem_append.mp h with hhead | htail
    · obtain ⟨r', hr', heq⟩ := Option.map_eq_some_iff.mp (Option.mem_toList.mp hhead)
      cases heq
      exact ⟨0, line, rfl, rfl, hr'⟩
    · obtain ⟨k, text, hk, rfl, hr⟩ := ih htail
      exact ⟨k + 1, text, hk, Nat.succ_add_eq_add_succ n k, hr⟩

/-- An answer of the sequential server is one to the line with its number. -/
theorem mem_serial {i : Nat} {r : JsonRpcResponse} {lines : List JsString} {text : JsString}
    (h : (i, r) ∈ serial p F lines) (htext : lines[i]? = some text) :
    answerLine p (F i) text = some r := by
  obtain ⟨k, text', hk, rfl, hr⟩ := mem_answersFrom h
  rw [Nat.zero_add] at htext hr ⊢
  cases hk.symm.trans htext
  exact hr

/-! ## What the overlapping server owes -/

/-- The response that a job will lead to. -/
def Job.owes (p : Platform) : Job → Option (Nat × JsonRpcResponse)
  | .finish i id outcome => some (i, finishCall id outcome)
  | .deliver i response => response.map (i, ·)
  | .caught i req err => (crashResponse p req err).map (i, ·)
  | .mcpCmd | .run | .exit => none

/-- The response that a call will lead to, once its handler has settled. -/
def Call.owes (F : Nat → HandlerOutcome) (c : Call) : Nat × JsonRpcResponse :=
  (c.line, finishCall c.id (F c.line))

/-- What is written and what is on its way. -/
def due (p : Platform) (F : Nat → HandlerOutcome) (s : State) : Multiset (Nat × JsonRpcResponse) :=
  ↑s.out + ↑(s.jobs.filterMap (Job.owes p)) + ↑(s.calls.map (Call.owes F))

theorem due_enqueue (s : State) (j : Job) :
    due p F (s.enqueue j) = due p F s + ↑(Job.owes p j).toList := by
  have hj : List.filterMap (Job.owes p) [j] = (Job.owes p j).toList := by
    cases h : Job.owes p j with
    | none => simp [h]
    | some w => simp [h]
  simp only [due, State.enqueue, List.filterMap_append, hj, ← Multiset.coe_add]
  abel

theorem due_writeLine (s : State) (i : Nat) (r : JsonRpcResponse) :
    due p F (s.writeLine i r) = due p F s + ↑[(i, r)] := by
  simp only [due, State.writeLine, ← Multiset.coe_add]
  abel

theorem due_call (s : State) (c : Call) :
    due p F { s with calls := s.calls ++ [c] } = due p F s + ↑[Call.owes F c] := by
  simp only [due, List.map_append, ← Multiset.coe_add, ← add_assoc]
  rfl

/-- Reading a line leads to what the sequential server answers to it. -/
theorem due_receive (p : Platform) (F : Nat → HandlerOutcome) (s : State) (text : JsString) :
    due p F (receive p s text) = due p F s +
      ↑((answerLine p (F s.lines.length) text).map (s.lines.length, ·)).toList := by
  have hlines : due p F { s with lines := s.lines ++ [text] } = due p F s := rfl
  unfold receive answerLine
  cases readInput text with
  | blank =>
    rw [hlines]
    exact (add_zero _).symm
  | malformed trimmed =>
    rw [due_writeLine, hlines]
    rfl
  | parsed req =>
    simp only [dispatch]
    cases dispatchStart p.serverVersion req with
    | error err =>
      rw [due_enqueue, hlines]
      rfl
    | ok started =>
      cases started with
      | answered response =>
        rw [due_enqueue, hlines]
        rfl
      | awaiting tool arguments id =>
        rw [due_call { s with lines := s.lines ++ [text] }, hlines]
        rfl

/-- A job passes on what it owes. -/
theorem due_runJob (p : Platform) (F : Nat → HandlerOutcome) (s : State) (j : Job) :
    due p F (runJob p s j) = due p F s + ↑(Job.owes p j).toList := by
  cases j with
  | finish i id outcome => exact due_enqueue s _
  | deliver i response =>
    cases response with
    | none => exact (add_zero _).symm
    | some r => exact due_writeLine s i r
  | caught i req err =>
    have howes : Job.owes p (.caught i req err) = (crashResponse p req err).map (i, ·) := rfl
    simp only [runJob]
    split
    · rename_i hid
      rw [howes, crashResponse, hid]
      exact (add_zero (due p F s)).symm
    · rename_i id hid
      rw [howes, crashResponse, hid]
      exact due_writeLine s i _
  | mcpCmd => exact due_enqueue { s with resolved := true } .run
  | run => exact due_enqueue s .exit
  | exit => exact (add_zero _).symm

/-! ## The outcomes of a run -/

/-- The line whose handler an event settles, and with what. -/
def settled (s : State) : Event → Option (Nat × HandlerOutcome)
  | .settle k outcome => (s.calls[k]?).map fun c => (c.line, outcome)
  | _ => none

theorem settled_eq_some {i : Nat} {outcome : HandlerOutcome} (h : settled s e = some (i, outcome)) :
    ∃ k c, e = .settle k outcome ∧ s.calls[k]? = some c ∧ c.line = i := by
  cases e with
  | settle k outcome' =>
    obtain ⟨c, hc, heq⟩ := Option.map_eq_some_iff.mp h
    cases heq
    exact ⟨k, c, rfl, hc, rfl⟩
  | _ => cases h

/-- The line has come, and no handler works on it. -/
def NoCall (s : State) (i : Nat) : Prop := i < s.lines.length ∧ ∀ c ∈ s.calls, c.line ≠ i

theorem noCall_step (h : step p s e = some t) {i : Nat} (hs : NoCall s i) : NoCall t i := by
  obtain ⟨hlt, hcalls⟩ := hs
  obtain ⟨-, htaken⟩ := taken_of_step h
  cases htaken with
  | line text hopen =>
    refine ⟨?_, ?_⟩
    · rw [receive_lines, List.length_append]
      exact Nat.lt_add_right _ hlt
    · -- a new call is one for the new line
      unfold receive
      split
      · exact hcalls
      · exact hcalls
      · split
        · exact hcalls
        · exact hcalls
        · refine List.forall_mem_append.mpr ⟨hcalls, List.forall_mem_singleton.mpr ?_⟩
          exact (Nat.ne_of_lt hlt).symm
  | settle k outcome c hc =>
    exact ⟨hlt, fun d hd => hcalls d (List.mem_of_mem_eraseIdx hd)⟩
  | job j rest hjobs =>
    obtain ⟨hlines, -, hkept⟩ := runJob_frame p { s with jobs := rest } j
    refine ⟨?_, ?_⟩
    · rw [hlines]
      exact hlt
    · rw [hkept]
      exact hcalls
  | close hopen => exact ⟨hlt, hcalls⟩
  | terminate hrej => exact ⟨hlt, hcalls⟩

/-- The only call for its line is gone once its handler has settled. -/
theorem noCall_of_settle (hi : Inv s) {k : Nat} {outcome : HandlerOutcome} {c : Call}
    (hc : s.calls[k]? = some c) (h : step p s (.settle k outcome) = some t) : NoCall t c.line := by
  obtain ⟨-, htaken⟩ := taken_of_step h
  cases htaken with
  | settle k outcome c' hc' =>
    cases hc.symm.trans hc'
    obtain ⟨hk, rfl⟩ := List.getElem?_eq_some_iff.mp hc
    have hone := hi.once s.calls[k].line
    have hperm := ((List.getElem_cons_eraseIdx_perm hk).map (·.line)).count_eq s.calls[k].line
    rw [List.map_cons, List.count_cons_self] at hperm
    refine ⟨Nat.lt_of_not_le fun hle => ?_, fun d hd heq => ?_⟩
    · have hzero := hi.fresh _ hle
      unfold places at hzero
      omega
    · have hpos : 0 < ((s.calls.eraseIdx k).map (·.line)).count s.calls[k].line :=
        List.count_pos_iff.mpr (List.mem_map.mpr ⟨d, hd, heq⟩)
      unfold places at hone
      omega

theorem settles_once (p : Platform) : Answered (step p) init settled NoCall where
  done := by
    intro past s e t i outcome hs hst hans
    obtain ⟨k, c, rfl, hc, rfl⟩ := settled_eq_some hans
    exact noCall_of_settle (inv_run hs) hc hst
  stays := fun h hs => noCall_step h hs
  unanswered := by
    intro s e i outcome hans hno
    obtain ⟨k, c, -, hc, hline⟩ := settled_eq_some hans
    exact hno.2 c (List.mem_of_getElem? hc) hline

/-! ## The same answers -/

/-- What is written and on its way is what the sequential server answers to the lines so far. -/
def SameAnswers (p : Platform) (F : Nat → HandlerOutcome) (s : State) : Prop :=
  due p F s = ↑(serial p F s.lines)

theorem sameAnswers_step (h : step p s e = some t) (hF : Follows settled F s e)
    (hs : SameAnswers p F s) : SameAnswers p F t := by
  unfold SameAnswers at hs ⊢
  obtain ⟨-, htaken⟩ := taken_of_step h
  cases htaken with
  | line text hopen => rw [due_receive, receive_lines, serial_snoc, hs, Multiset.coe_add]
  | settle k outcome c hc =>
    obtain ⟨hk, rfl⟩ := List.getElem?_eq_some_iff.mp hc
    have houtcome : outcome = F s.calls[k].line := hF _ _ (by simp [settled, hc])
    have hperm := (List.getElem_cons_eraseIdx_perm hk).map (Call.owes F)
    have hcalls : (↑(s.calls.map (Call.owes F)) : Multiset (Nat × JsonRpcResponse)) =
        ↑[Call.owes F s.calls[k]] + ↑((s.calls.eraseIdx k).map (Call.owes F)) := by
      rw [Multiset.coe_add]
      exact (Multiset.coe_eq_coe.mpr hperm).symm
    have howes : (Job.owes p (.finish s.calls[k].line s.calls[k].id outcome)).toList =
        [Call.owes F s.calls[k]] := by
      rw [houtcome]
      rfl
    -- the call's response is now the job's
    rw [due_enqueue, howes]
    refine Eq.trans ?_ hs
    simp only [due, hcalls]
    abel
  | job j rest hjobs =>
    have hsplit : due p F s = due p F { s with jobs := rest } + ↑(Job.owes p j).toList := by
      have hfirst : (↑((j :: rest).filterMap (Job.owes p)) : Multiset (Nat × JsonRpcResponse)) =
          ↑(Job.owes p j).toList + ↑(rest.filterMap (Job.owes p)) := by
        cases hj : Job.owes p j with
        | none => simp [hj]
        | some w => simp [hj]
      simp only [due, hjobs, hfirst]
      abel
    rw [due_runJob, (runJob_frame p { s with jobs := rest } j).1, ← hsplit, hs]
  | close hopen =>
    rw [due_enqueue]
    exact (add_zero _).trans hs
  | terminate hrej => exact hs

/-- The outcomes of a run, under which the sequential server answers the same. -/
theorem sameAnswers_run (h : exec (step p) init es = some t) :
    ∃ F, Along (step p) (Follows settled F) init es ∧ SameAnswers p F t := by
  have : Nonempty HandlerOutcome := ⟨.ok none⟩
  obtain ⟨F, hF⟩ := exists_oracle (settles_once p) h
  exact ⟨F, hF, exec_invariant_along h hF rfl fun s e u hst hce hi => sameAnswers_step hst hce hi⟩

theorem SameAnswers.out_subperm (h : SameAnswers p F s) : s.out.Subperm (serial p F s.lines) := by
  refine Multiset.coe_le.mp ?_
  rw [← h, due, add_assoc]
  exact Multiset.le_add_right _ _

/-- In every run the handlers settle as if their outcomes, one for each line, had
been fixed before, and the server writes only what the sequential server writes
with these outcomes, each answer as often as that one does; once no handler and no
job is left, it has written all of it. -/
theorem overlapping_is_sequential (p : Platform) {es : List Event} {t : State}
    (h : exec (step p) init es = some t) :
    ∃ F, Along (step p) (Follows settled F) init es ∧ t.out.Subperm (serial p F t.lines) ∧
      (t.calls = [] → t.jobs = [] → t.out.Perm (serial p F t.lines)) := by
  obtain ⟨F, hF, hsame⟩ := sameAnswers_run h
  refine ⟨F, hF, hsame.out_subperm, fun hcalls hjobs => Multiset.coe_eq_coe.mp ?_⟩
  rw [← hsame, due, hcalls, hjobs]
  simp

/-- A request for the tool `sessions`. -/
def sessionsCall : JsString :=
  js "\x7b\"jsonrpc\":\"2.0\",\"id\":1,\"method\":\"tools/call\",\"params\":\x7b\"name\":\"sessions\"\x7d\x7d"

def overtakingRun : List Event :=
  [.line sessionsCall, .line sessionsCall, .settle 1 (.ok none), .settle 0 (.error []),
    .job, .job, .job, .job, .close, .job, .job, .job]

/-- The second call settles first, and is answered first. -/
theorem overtaking_is_sequential :
    ∃ t, exec (step somePlatform) init overtakingRun = some t ∧ t.out.map (·.1) = [1, 0] ∧
      ∃ F, t.out.Perm (serial somePlatform F t.lines) := by
  have hrun : ∃ t ∈ exec (step somePlatform) init overtakingRun,
      t.out.map (·.1) = [1, 0] ∧ t.calls.length = 0 ∧ t.jobs.length = 0 := by decide +kernel
  obtain ⟨t, ht, hout, hcalls, hjobs⟩ := hrun
  obtain ⟨F, -, -, hall⟩ := overlapping_is_sequential somePlatform ht
  exact ⟨t, ht, hout, F, hall (List.length_eq_zero_iff.mp hcalls) (List.length_eq_zero_iff.mp hjobs)⟩

end Conductor.Mcp.Serial
