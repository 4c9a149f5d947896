import Conductor.Mcp.Stdio

/-! # Lines that are not requests

Whatever a client sends, a line that is no envelope gets one error response,
with one exception: the error path cannot report the value `null`. -/
namespace Conductor.Mcp.LineErrors
open Conductor.Lib.Queue Conductor.Lib.Runs Conductor.Js.Text Conductor.Js.Values
open Conductor.Mcp.Protocol Conductor.Mcp.Server Conductor.Mcp.Stdio

variable {p : Platform} {s t : State} {e : Event}

/-- Not blank, and not a well-formed message. -/
def Invalid (text : JsString) : Prop :=
  match readInput text with
  | .blank => False
  | .malformed _ => True
  | .parsed req => envelope req = none

/-- The line that comes, if one does, is not the value `null`. -/
def NoNull (_ : State) : Event → Prop
  | .line text => readInput text ≠ .parsed .null
  | _ => True

def IsCaught : Job → Prop
  | .caught _ _ _ => True
  | _ => False

/-- No microtask is left to run. -/
def Idle (s : State) : Prop := s.jobs = [] ∨ s.process = .exited

structure Sound (s : State) : Prop where
  inv : Inv s
  caught : ∀ j ∈ s.jobs, ¬ IsCaught j
  rejected : s.rejected = false
  process : s.process ≠ .crashed
  answered : ∀ i text, s.lines[i]? = some text → Invalid text → Prompt s i (·.isError = true)

theorem dispatchStart_ok (serverVersion : JsString) {req : Json} (h : isNull req = false) :
    ∃ started, dispatchStart serverVersion req = .ok started := by
  cases he : envelope req with
  | none => exact ⟨_, dispatchStart_refused serverVersion h he⟩
  | some m => exact ⟨_, dispatchStart_envelope serverVersion he⟩

theorem isNull_of_ne {req : Json} (h : Input.parsed req ≠ .parsed .null) : isNull req = false := by
  cases req with
  | null => exact absurd rfl h
  | _ => rfl

/-- What a line other than `null` does to the parts that the error path touches. -/
theorem receive_caught {text : JsString} (hn : readInput text ≠ .parsed .null) :
    ∃ new, (receive p s text).jobs = s.jobs ++ new ∧ (∀ j ∈ new, ¬ IsCaught j) ∧
      (receive p s text).rejected = s.rejected ∧ (receive p s text).process = s.process := by
  unfold receive
  split
  · exact ⟨[], by simp, by simp, rfl, rfl⟩
  · exact ⟨[], by simp [State.writeLine], by simp, rfl, rfl⟩
  · rename_i req hread
    rw [hread] at hn
    obtain ⟨started, hstart⟩ := dispatchStart_ok p.serverVersion (isNull_of_ne hn)
    rw [hstart]
    cases started with
    | answered response => exact ⟨[_], rfl, by simp [IsCaught], rfl, rfl⟩
    | awaiting tool arguments id => exact ⟨[], by simp, by simp, rfl, rfl⟩

/-- An invalid line is answered at once, or its error is the next job for it. -/
theorem receive_invalid {text : JsString} (hinvalid : Invalid text)
    (hn : readInput text ≠ .parsed .null) (hres : s.resolved = false) (hproc : s.process ≠ .exited)
    (hjobs : ∀ j ∈ s.jobs, ¬ Shutdown j) :
    Prompt (receive p s text) s.lines.length (·.isError = true) := by
  unfold Invalid at hinvalid
  unfold receive
  split
  · rename_i hread
    rw [hread] at hinvalid
    cases hinvalid
  · exact .inl ⟨_, List.mem_concat_self, rfl⟩
  · rename_i req hread
    rw [hread] at hinvalid hn
    rw [dispatchStart_refused p.serverVersion (isNull_of_ne hn) hinvalid]
    refine .inr ⟨hres, hproc, ?_⟩
    exact ahead_of_mem List.mem_concat_self ⟨_, rfl, rfl⟩
      (List.forall_mem_append.mpr ⟨hjobs, List.forall_mem_singleton.mpr id⟩)

/-- No step but the line `null` queues a job for something thrown. -/
theorem caught_step (h : step p s e = some t) (hn : NoNull s e)
    (hs : ∀ j ∈ s.jobs, ¬ IsCaught j) (hrej : s.rejected = false) (hproc : s.process ≠ .crashed) :
    (∀ j ∈ t.jobs, ¬ IsCaught j) ∧ t.rejected = false ∧ t.process ≠ .crashed := by
  have hsnoc : ∀ {jobs : List Job} {j : Job}, (∀ k ∈ jobs, ¬ IsCaught k) → ¬ IsCaught j →
      ∀ k ∈ jobs ++ [j], ¬ IsCaught k :=
    fun hjobs hj => List.forall_mem_append.mpr ⟨hjobs, List.forall_mem_singleton.mpr hj⟩
  obtain ⟨-, htaken⟩ := taken_of_step h
  cases htaken with
  | line text hopen =>
    obtain ⟨new, hnew, hcaught, hrej', hproc'⟩ := receive_caught (p := p) (s := s) hn
    rw [hnew, hrej', hproc']
    exact ⟨List.forall_mem_append.mpr ⟨hs, hcaught⟩, hrej, hproc⟩
  | settle k outcome c hc => exact ⟨hsnoc hs not_false, hrej, hproc⟩
  | job j rest hjobs =>
    rw [hjobs] at hs
    have hrest : ∀ k ∈ rest, ¬ IsCaught k := fun k hk => hs k (List.mem_cons_of_mem j hk)
    cases j with
    | deliver i response => cases response <;> exact ⟨hrest, hrej, hproc⟩
    | caught i req err => exact absurd trivial (hs (.caught i req err) (by simp))
    | exit => exact ⟨hrest, hrej, by simp [runJob]⟩
    | finish i id outcome => exact ⟨hsnoc hrest not_false, hrej, hproc⟩
    | mcpCmd => exact ⟨hsnoc hrest not_false, hrej, hproc⟩
    | run => exact ⟨hsnoc hrest not_false, hrej, hproc⟩
  | close hopen => exact ⟨hsnoc hs not_false, hrej, hproc⟩
  | terminate hrejected =>
    rw [hrej] at hrejected
    cases hrejected

theorem sound_step (h : step p s e = some t) (hn : NoNull s e) (hs : Sound s) : Sound t := by
  obtain ⟨hcaught, hrej, hproc⟩ := caught_step h hn hs.caught hs.rejected hs.process
  refine ⟨inv_step h hs.inv, hcaught, hrej, hproc, fun i text hi hinvalid => ?_⟩
  rcases line_old_or_new h hi with hold | ⟨rfl, rfl, hopen, rfl⟩
  · exact prompt_step h (hs.answered i text hold hinvalid)
  · obtain ⟨hres, hjobs⟩ := hs.inv.opened hopen
    exact receive_invalid hinvalid hn hres (by simp [(taken_of_step h).1]) hjobs

theorem sound_run {es : List Event} (h : exec (step p) init es = some t)
    (hc : Along (step p) NoNull init es) : Sound t :=
  have hinit : Sound init :=
    ⟨inv_init, by simp [init], rfl, by simp [init], fun i text hi => (by simp [init] at hi)⟩
  exec_invariant_along h hc hinit fun _ _ _ => sound_step

/-! ## The queue empties -/

/-- How many jobs a job causes, with itself. -/
def weight : Job → Nat
  | .mcpCmd => 3
  | .finish _ _ _ | .run => 2
  | _ => 1

def load (s : State) : Nat := (s.jobs.map weight).sum

theorem load_runJob (p : Platform) (s : State) (j : Job) : load (runJob p s j) < load s + weight j := by
  cases j with
  | deliver i response => cases response <;> simp [runJob, load, weight, State.writeLine]
  | caught i req err =>
    simp only [runJob]
    split <;> simp [load, weight, State.writeLine]
  | _ => simp [runJob, load, weight, State.enqueue]

/-- Running the waiting jobs comes to an end. -/
theorem exists_idle (hs : Sound t) :
    ∃ n u, exec (step p) t (List.replicate n .job) = some u ∧ Idle u := by
  induction hn : load t using Nat.strong_induction_on generalizing t with
  | _ n ih =>
    by_cases hidle : Idle t
    · exact ⟨0, t, rfl, hidle⟩
    · obtain ⟨hjobs, hexit⟩ := not_or.mp hidle
      have hrun : t.process = .running := by
        cases hp : t.process with
        | running => rfl
        | exited => exact absurd hp hexit
        | crashed => exact absurd hp hs.process
      obtain ⟨j, rest, hj⟩ := List.exists_cons_of_ne_nil hjobs
      have hstep : step p t .job = some (runJob p { t with jobs := rest } j) := by
        simp [step, hrun, hj]
      have hless : load (runJob p { t with jobs := rest } j) < n := by
        have hlt := load_runJob p { t with jobs := rest } j
        have hload : load t = load { t with jobs := rest } + weight j := by
          simp only [load, hj, List.map_cons, List.sum_cons]
          omega
        omega
      obtain ⟨m, u, hu, hidle⟩ := ih _ hless (sound_step hstep trivial hs) rfl
      refine ⟨m + 1, u, ?_, hidle⟩
      rw [List.replicate_succ, exec_cons, hstep]
      exact hu

/-- In every run without the line `null`: no rejection is left unhandled, input
is accepted until it ends, and once the waiting jobs have run, which they do,
every invalid line has exactly one response, an error. -/
theorem invalid_lines_answered {es : List Event} (h : exec (step p) init es = some t)
    (hc : Along (step p) NoNull init es) :
    t.rejected = false ∧ t.process ≠ .crashed ∧
      (t.process = .running → t.closed = false → ∀ text, (step p t (.line text)).isSome = true) ∧
      (∀ i text, t.lines[i]? = some text → Invalid text → Idle t →
        ∃ r, answersTo t i = [r] ∧ r.isError = true) ∧
      ∃ n u, exec (step p) t (List.replicate n .job) = some u ∧ Idle u := by
  have hs := sound_run h hc
  refine ⟨hs.rejected, hs.process, fun hrun hopen text => by simp [step, hrun, hopen], ?_,
    exists_idle hs⟩
  intro i text hi hinvalid hidle
  rcases hs.answered i text hi hinvalid with ⟨r, hr, herr⟩ | ⟨-, hproc, ha⟩
  · exact ⟨r, answersTo_of_mem hs.inv hr, herr⟩
  · rcases hidle with hjobs | hexit
    · obtain ⟨j, hj, -⟩ := ha.exists_mem
      rw [hjobs] at hj
      cases hj
    · exact absurd hexit hproc

/-- The line `[]` is answered. -/
theorem empty_array_answered :
    ∃ t, exec (step somePlatform) init [.line (js "[]"), .job] = some t ∧ t.rejected = false ∧
      t.process ≠ .crashed ∧
      (t.process = .running → t.closed = false →
        ∀ text, (step somePlatform t (.line text)).isSome = true) ∧
      (∀ i text, t.lines[i]? = some text → Invalid text → Idle t →
        ∃ r, answersTo t i = [r] ∧ r.isError = true) ∧
      ∃ n u, exec (step somePlatform) t (List.replicate n .job) = some u ∧ Idle u := by
  have hread : readInput (js "[]") = .parsed (.arr []) := by rfl
  have hne : readInput (js "[]") ≠ .parsed .null := by
    rw [hread]
    intro h
    cases h
  have hc : Along (step somePlatform) NoNull init [.line (js "[]"), .job] :=
    ⟨hne, fun _ _ => ⟨trivial, fun _ _ => trivial⟩⟩
  have hrun : ∃ t, exec (step somePlatform) init [.line (js "[]"), .job] = some t := ⟨_, rfl⟩
  obtain ⟨t, ht⟩ := hrun
  exact ⟨t, ht, invalid_lines_answered ht hc⟩

/-- The line `null` gets no response, leaves a rejection that nobody handles,
and no further line is read. -/
theorem null_line_crashes :
    ∃ t, exec (step somePlatform) init [.line (js "null"), .job, .terminate] = some t ∧
      Invalid (js "null") ∧ t.lines = [js "null"] ∧ t.jobs = [] ∧ answersTo t 0 = [] ∧
      t.rejected = true ∧ t.process = .crashed ∧ ∀ text, step somePlatform t (.line text) = none := by
  refine ⟨_, rfl, by rfl, rfl, rfl, rfl, rfl, rfl, fun _ => rfl⟩

end Conductor.Mcp.LineErrors
