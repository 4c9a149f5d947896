import Conductor.Lib.Framing
import Conductor.Lib.Queue
import Conductor.Lib.Runs
import Conductor.Mcp.Server

/-! # The stdio server as a system

Lines and the end of input arrive, handlers settle at any later time, and the
promise jobs that these cause run one after the other in the order in which
they were queued. Every continuation after an `await` is a job of its own. -/
namespace Conductor.Mcp.Stdio
open Conductor.Lib.Framing Conductor.Lib.Queue Conductor.Lib.Runs
open Conductor.Js.Text Conductor.Js.Values Conductor.Js.JsonText
open Conductor.Mcp.Protocol Conductor.Mcp.Registry Conductor.Mcp.Server

/-- Texts that the JavaScript engine chooses, and the version set at build time. -/
structure Platform where
  syntaxMessage : JsString → JsString
  errorMessage : JsError → JsString
  serverVersion : JsString

/-- A platform for the runs on fixed lines. -/
def somePlatform : Platform := ⟨fun _ => [], fun _ => [], js "dev"⟩

inductive Input
  | blank
  | malformed (text : JsString)
  | parsed (req : Json)

/-- The head of the line callback. -/
def readInput (line : JsString) : Input :=
  let trimmed := trim line
  if trimmed.isEmpty then .blank
  else match parse trimmed with
    | none => .malformed trimmed
    | some req => .parsed req

inductive Job
  /-- `dispatch` continues after its handler has settled. -/
  | finish (line : Nat) (id : Json) (outcome : HandlerOutcome)
  /-- The line callback continues with the value of `dispatch`. -/
  | deliver (line : Nat) (response : Option JsonRpcResponse)
  /-- The line callback continues with what `dispatch` threw. -/
  | caught (line : Nat) (req : Json) (err : JsError)
  /-- `mcpCmd` continues after the promise of `runStdioServer` has resolved. -/
  | mcpCmd
  /-- `run` continues with the exit code. -/
  | run
  /-- The binary calls `process.exit`. -/
  | exit

/-- A handler that has not settled. -/
structure Call where
  line : Nat
  tool : McpTool
  arguments : Json
  id : Json

inductive Process
  | running
  | exited
  | crashed
  deriving DecidableEq

structure State where
  /-- The lines received so far. -/
  lines : List JsString
  calls : List Call
  jobs : List Job
  /-- What was written, with the index of the line it answers. -/
  out : List (Nat × JsonRpcResponse)
  closed : Bool
  /-- The code that awaits the promise of `runStdioServer` has continued. -/
  resolved : Bool
  /-- A promise was rejected that nobody handles. -/
  rejected : Bool
  process : Process

def init : State := ⟨[], [], [], [], false, false, false, .running⟩

inductive Event
  | line (text : JsString)
  /-- The `k`-th handler in flight settles. -/
  | settle (k : Nat) (outcome : HandlerOutcome)
  | job
  | close
  /-- The runtime ends the process for an unhandled rejection, once no job is left. -/
  | terminate

def State.enqueue (s : State) (j : Job) : State := { s with jobs := s.jobs ++ [j] }

def State.writeLine (s : State) (line : Nat) (r : JsonRpcResponse) : State :=
  { s with out := s.out ++ [(line, r)] }

/-- The line callback up to its first `await`. -/
def receive (p : Platform) (s : State) (text : JsString) : State :=
  let i := s.lines.length
  let s := { s with lines := s.lines ++ [text] }
  match readInput text with
  | .blank => s
  | .malformed trimmed =>
    s.writeLine i (jsonRpcError .null .ParseError (js "parse error: " ++ p.syntaxMessage trimmed))
  | .parsed req => match dispatchStart p.serverVersion req with
    | .error err => s.enqueue (.caught i req err)
    | .ok (.answered response) => s.enqueue (.deliver i response)
    | .ok (.awaiting tool arguments id) => { s with calls := s.calls ++ [⟨i, tool, arguments, id⟩] }

def runJob (p : Platform) (s : State) : Job → State
  | .finish i id outcome => s.enqueue (.deliver i (some (finishCall id outcome)))
  | .deliver i (some r) => s.writeLine i r
  | .deliver _ none => s
  | .caught i req err =>
    -- the error path reads a property of the value that made `dispatch` fail
    match prop req (js "id") with
    | .error _ => { s with rejected := true }
    | .ok id => s.writeLine i (jsonRpcError (orElse id .null) .InternalError
        (js "internal error: " ++ p.errorMessage err))
  | .mcpCmd => { s with resolved := true }.enqueue .run
  | .run => s.enqueue .exit
  | .exit => { s with process := .exited }

def settleCall (s : State) (k : Nat) (outcome : HandlerOutcome) : Option State :=
  (s.calls[k]?).map fun c =>
    { s with calls := s.calls.eraseIdx k }.enqueue (.finish c.line c.id outcome)

def step (p : Platform) (s : State) (e : Event) : Option State :=
  if s.process ≠ .running then none
  else match e with
    | .line text => if s.closed then none else some (receive p s text)
    | .settle k outcome => settleCall s k outcome
    | .job => match s.jobs with
      | [] => none
      | j :: rest => some (runJob p { s with jobs := rest } j)
    | .close => if s.closed then none else some ({ s with closed := true }.enqueue .mcpCmd)
    | .terminate => if s.rejected ∧ s.jobs.isEmpty then some { s with process := .crashed } else none

/-! ## What the client reads -/

def stdoutText (s : State) : JsString := frame 10 (s.out.map fun w => stringify w.2.toJson)

/-- Splitting the output at its newlines gives the responses back, one a line. -/
theorem records_stdoutText (s : State) :
    records 10 (stdoutText s) = s.out.map fun w => stringify w.2.toJson := by
  refine records_frame fun r hr hmem => ?_
  obtain ⟨w, -, rfl⟩ := List.mem_map.mp hr
  exact absurd (printable_stringify w.2.toJson 10 hmem) (by decide)

/-- The responses to line `i`. -/
def answersTo (s : State) (i : Nat) : List JsonRpcResponse :=
  (s.out.filter fun w => w.1 == i).map (·.2)

/-! ## Steps -/

variable {p : Platform} {s t : State} {e : Event}

/-- The jobs of the shutdown, from the resolved promise to `process.exit`. -/
def Shutdown : Job → Prop
  | .mcpCmd | .run | .exit => True
  | _ => False

/-- The jobs of the shutdown after its first. -/
def Late : Job → Prop
  | .run | .exit => True
  | _ => False

theorem Late.shutdown {j : Job} (h : Late j) : Shutdown j := by
  cases j with
  | run | exit => trivial
  | _ => exact h.elim

/-- What a step can be. -/
inductive Taken (p : Platform) (s : State) : Event → State → Prop
  | line (text : JsString) (isOpen : s.closed = false) : Taken p s (.line text) (receive p s text)
  | settle (k : Nat) (outcome : HandlerOutcome) (c : Call) (found : s.calls[k]? = some c) :
    Taken p s (.settle k outcome)
      ({ s with calls := s.calls.eraseIdx k }.enqueue (.finish c.line c.id outcome))
  | job (j : Job) (rest : List Job) (jobs : s.jobs = j :: rest) :
    Taken p s .job (runJob p { s with jobs := rest } j)
  | close (isOpen : s.closed = false) : Taken p s .close ({ s with closed := true }.enqueue .mcpCmd)
  | terminate (rejected : s.rejected = true) : Taken p s .terminate { s with process := .crashed }

theorem taken_of_step (h : step p s e = some t) : s.process = .running ∧ Taken p s e t := by
  unfold step at h
  split at h
  · cases h
  · rename_i hrun
    refine ⟨by simpa using hrun, ?_⟩
    cases e with
    | line text =>
      simp only at h
      split at h
      · cases h
      · rename_i hopen
        cases h
        exact .line text (by simpa using hopen)
    | settle k outcome =>
      obtain ⟨c, hc, rfl⟩ := Option.map_eq_some_iff.mp h
      exact .settle k outcome c hc
    | job =>
      simp only at h
      split at h
      · cases h
      · rename_i j rest hjobs
        cases h
        exact .job j rest hjobs
    | close =>
      simp only at h
      split at h
      · cases h
      · rename_i hopen
        cases h
        exact .close (by simpa using hopen)
    | terminate =>
      simp only at h
      split at h
      · rename_i hrej
        cases h
        exact .terminate hrej.1
      · cases h

/-- A line only adds to the state, and no job of the shutdown. -/
theorem receive_spec (p : Platform) (s : State) (text : JsString) :
    ∃ calls jobs out, receive p s text =
        { s with lines := s.lines ++ [text], calls := s.calls ++ calls, jobs := s.jobs ++ jobs
                 out := s.out ++ out } ∧ ∀ j ∈ jobs, ¬ Shutdown j := by
  unfold receive
  split
  · exact ⟨[], [], [], by simp, by simp⟩
  · exact ⟨[], [], [_], by simp [State.writeLine]; rfl, by simp⟩
  · split
    · exact ⟨[], [_], [], by simp [State.enqueue]; rfl, by simp [Shutdown]⟩
    · exact ⟨[], [_], [], by simp [State.enqueue]; rfl, by simp [Shutdown]⟩
    · exact ⟨[_], [], [], by simp; rfl, by simp⟩

/-- `t` adds to the jobs and the output of `s`; only the shutdown resolves the
promise, and only its end ends the process. -/
structure Serves (s : State) (j : Job) (t : State) : Prop where
  jobs : ∃ new, t.jobs = s.jobs ++ new ∧ (¬ Shutdown j → ∀ k ∈ new, ¬ Shutdown k)
  out : ∀ w ∈ s.out, w ∈ t.out
  resolved : ¬ Shutdown j → t.resolved = s.resolved
  process : ¬ Late j → t.process = s.process

theorem serves_enqueue {s : State} {j k : Job} (h : ¬ Shutdown j → ¬ Shutdown k) :
    Serves s j (s.enqueue k) :=
  ⟨⟨[k], rfl, fun hj _ hk => List.mem_singleton.mp hk ▸ h hj⟩, fun _ hw => hw, fun _ => rfl,
    fun _ => rfl⟩

theorem serves_writeLine {s : State} {j : Job} {i : Nat} {r : JsonRpcResponse} :
    Serves s j (s.writeLine i r) :=
  ⟨⟨[], by simp [State.writeLine], by simp⟩, fun _ hw => List.mem_append_left _ hw, fun _ => rfl,
    fun _ => rfl⟩

theorem runJob_serves (p : Platform) (s : State) (j : Job) : Serves s j (runJob p s j) := by
  cases j with
  | finish i id outcome => exact serves_enqueue fun _ h => h
  | deliver i response =>
    cases response with
    | none => exact ⟨⟨[], by simp [runJob], by simp⟩, fun _ hw => hw, fun _ => rfl, fun _ => rfl⟩
    | some r => exact serves_writeLine
  | caught i req err =>
    simp only [runJob]
    split
    · exact ⟨⟨[], by simp, by simp⟩, fun _ hw => hw, fun _ => rfl, fun _ => rfl⟩
    · exact serves_writeLine
  | mcpCmd =>
    exact ⟨⟨[.run], rfl, fun hj => (hj trivial).elim⟩, fun _ hw => hw, fun hj => (hj trivial).elim,
      fun _ => rfl⟩
  | run => exact serves_enqueue fun hj => (hj trivial).elim
  | exit =>
    exact ⟨⟨[], by simp [runJob], by simp⟩, fun _ hw => hw, fun _ => rfl, fun hj => (hj trivial).elim⟩

/-- `t` adds to the jobs and the output of `s` without serving a job. -/
structure Waits (s t : State) : Prop where
  jobs : ∃ new, t.jobs = s.jobs ++ new ∧ ∀ j ∈ new, ¬ Late j
  out : ∀ w ∈ s.out, w ∈ t.out
  resolved : t.resolved = s.resolved
  process : t.process ≠ .exited

/-- Every step either only adds behind the waiting jobs, or serves the first of them. -/
theorem waits_or_serves (h : step p s e = some t) :
    Waits s t ∨ ∃ j rest, s.jobs = j :: rest ∧ t = runJob p { s with jobs := rest } j := by
  obtain ⟨hrun, htaken⟩ := taken_of_step h
  have hne : s.process ≠ .exited := by
    rw [hrun]
    decide
  cases htaken with
  | line text hopen =>
    obtain ⟨calls, jobs, out, heq, hjobs⟩ := receive_spec p s text
    rw [heq]
    exact .inl ⟨⟨jobs, rfl, fun j hj hl => hjobs j hj hl.shutdown⟩,
      fun w hw => List.mem_append_left out hw, rfl, hne⟩
  | settle k outcome c hc => exact .inl ⟨⟨[_], rfl, by simp [Late]⟩, fun _ hw => hw, rfl, hne⟩
  | job j rest hjobs => exact .inr ⟨j, rest, hjobs, rfl⟩
  | close hopen => exact .inl ⟨⟨[_], rfl, by simp [Late]⟩, fun _ hw => hw, rfl, hne⟩
  | terminate hrej =>
    exact .inl ⟨⟨[], by simp, by simp⟩, fun _ hw => hw, rfl, by simp⟩

/-! ## Responses on their way -/

/-- The job that writes a response to line `i`. -/
def Delivers (i : Nat) (P : JsonRpcResponse → Prop) (j : Job) : Prop :=
  ∃ r, j = .deliver i (some r) ∧ P r

def Finishes (i : Nat) (id : Json) (j : Job) : Prop := ∃ outcome, j = .finish i id outcome

def Written (s : State) (i : Nat) (P : JsonRpcResponse → Prop) : Prop := ∃ r, (i, r) ∈ s.out ∧ P r

theorem Written.mono {i : Nat} {P : JsonRpcResponse → Prop} (h : Written s i P)
    (hout : ∀ w ∈ s.out, w ∈ t.out) : Written t i P := by
  obtain ⟨r, hr, hP⟩ := h
  exact ⟨r, hout _ hr, hP⟩

/-- Written, or queued before the shutdown. -/
def Prompt (s : State) (i : Nat) (P : JsonRpcResponse → Prop) : Prop :=
  Written s i P ∨
    s.resolved = false ∧ s.process ≠ .exited ∧ Ahead (Delivers i P) Shutdown s.jobs

theorem prompt_step {i : Nat} {P : JsonRpcResponse → Prop} (h : step p s e = some t)
    (hp : Prompt s i P) : Prompt t i P := by
  rcases waits_or_serves h with hwait | ⟨j, rest, hjobs, rfl⟩
  · rcases hp with hw | ⟨hr, -, ha⟩
    · exact .inl (hw.mono hwait.out)
    · obtain ⟨new, hnew, -⟩ := hwait.jobs
      refine .inr ⟨hwait.resolved.trans hr, hwait.process, ?_⟩
      rw [hnew]
      exact ha.append new
  · have hserve := runJob_serves p { s with jobs := rest } j
    rcases hp with hw | ⟨hr, hproc, ha⟩
    · exact .inl (hw.mono hserve.out)
    · rw [hjobs] at ha
      rcases ha.serve with ⟨r, rfl, hP⟩ | ⟨hj, hrest⟩
      · exact .inl ⟨r, by simp [runJob, State.writeLine], hP⟩
      · obtain ⟨new, hnew, -⟩ := hserve.jobs
        refine .inr ⟨(hserve.resolved hj).trans hr, ?_, ?_⟩
        · rw [hserve.process fun hl => hj hl.shutdown]
          exact hproc
        · rw [hnew]
          exact hrest.append new

/-- Written, or still to be finished before the shutdown, or queued before its end. -/
def Due (s : State) (i : Nat) (id : Json) : Prop :=
  Written s i (·.id = id) ∨
    s.process ≠ .exited ∧
      ((∀ j ∈ s.jobs, ¬ Late j) ∧ Ahead (Finishes i id) Shutdown s.jobs ∨
        Ahead (Delivers i (·.id = id)) Late s.jobs)

theorem due_step {i : Nat} {id : Json} (h : step p s e = some t) (hd : Due s i id) : Due t i id := by
  rcases waits_or_serves h with hwait | ⟨j, rest, hjobs, rfl⟩
  · rcases hd with hw | ⟨-, hq⟩
    · exact .inl (hw.mono hwait.out)
    · obtain ⟨new, hnew, hlate⟩ := hwait.jobs
      refine .inr ⟨hwait.process, ?_⟩
      rw [hnew]
      rcases hq with ⟨hno, ha⟩ | ha
      · exact .inl ⟨List.forall_mem_append.mpr ⟨hno, hlate⟩, ha.append new⟩
      · exact .inr (ha.append new)
  · have hserve := runJob_serves p { s with jobs := rest } j
    rcases hd with hw | ⟨hproc, hq⟩
    · exact .inl (hw.mono hserve.out)
    · rw [hjobs] at hq
      obtain ⟨new, hnew, hshut⟩ := hserve.jobs
      have hstill : ¬ Late j → (runJob p { s with jobs := rest } j).process ≠ .exited := by
        intro hl
        rw [hserve.process hl]
        exact hproc
      rcases hq with ⟨hno, ha⟩ | ha
      · have hrest : ∀ k ∈ rest, ¬ Late k := fun k hk => hno k (by simp [hk])
        rcases ha.serve with ⟨outcome, rfl⟩ | ⟨hj, ha⟩
        · -- the response is queued behind jobs none of which is late
          have hmem : Job.deliver i (some (finishCall id outcome)) ∈
              rest ++ [Job.deliver i (some (finishCall id outcome))] := by simp
          have hno' : ∀ k ∈ rest ++ [Job.deliver i (some (finishCall id outcome))], ¬ Late k :=
            List.forall_mem_append.mpr ⟨hrest, List.forall_mem_singleton.mpr not_false⟩
          exact .inr ⟨hstill (by simp [Late]), .inr (ahead_of_mem hmem
            ⟨_, rfl, finishCall_id id outcome⟩ hno')⟩
        · refine .inr ⟨hstill fun hl => hj hl.shutdown, .inl ⟨?_, ?_⟩⟩
          · rw [hnew]
            exact List.forall_mem_append.mpr ⟨hrest, fun k hk hl => hshut hj k hk hl.shutdown⟩
          · rw [hnew]
            exact ha.append new
      · rcases ha.serve with ⟨r, rfl, hid⟩ | ⟨hj, ha⟩
        · exact .inl ⟨r, by simp [runJob, State.writeLine], hid⟩
        · refine .inr ⟨hstill hj, .inr ?_⟩
          rw [hnew]
          exact ha.append new

/-! ## One place for each line -/

/-- The line that a job will answer. -/
def Job.line : Job → Option Nat
  | .finish i _ _ | .deliver i (some _) | .caught i _ _ => some i
  | _ => none

/-- How many calls, jobs and responses there are for line `i`. -/
def places (s : State) (i : Nat) : Nat :=
  (s.calls.map (·.line)).count i + (s.jobs.filterMap Job.line).count i + (s.out.map (·.1)).count i

/-- What one more element for a line adds. -/
def one (line : Option Nat) (i : Nat) : Nat := if line = some i then 1 else 0

theorem places_enqueue (s : State) (j : Job) (i : Nat) :
    places (s.enqueue j) i = places s i + one j.line i := by
  have hj : (List.filterMap Job.line [j]).count i = one j.line i := by
    cases h : j.line with
    | none => simp [one, h]
    | some k => simp [one, h, List.count_singleton]
  simp only [places, State.enqueue, List.filterMap_append, List.count_append, hj]
  omega

theorem places_writeLine (s : State) (k : Nat) (r : JsonRpcResponse) (i : Nat) :
    places (s.writeLine k r) i = places s i + one (some k) i := by
  simp only [places, State.writeLine, List.map_append, List.count_append, List.map_cons,
    List.map_nil, List.count_singleton, one, Option.some.injEq, beq_iff_eq]
  omega

theorem places_receive (p : Platform) (s : State) (text : JsString) (i : Nat) :
    places (receive p s text) i ≤ places s i + one (some s.lines.length) i := by
  have hlines : places { s with lines := s.lines ++ [text] } i = places s i := rfl
  unfold receive
  split
  · rw [hlines]
    omega
  · rw [places_writeLine, hlines]
  · split
    · rw [places_enqueue, hlines]
      rfl
    · rename_i response _
      rw [places_enqueue, hlines]
      cases response with
      | none => exact Nat.add_le_add_left (Nat.zero_le _) _
      | some r => rfl
    · simp only [places, List.map_append, List.count_append, List.map_cons, List.map_nil,
        List.count_singleton, one, Option.some.injEq, beq_iff_eq]
      omega

theorem places_runJob (p : Platform) (s : State) (j : Job) (i : Nat) :
    places (runJob p s j) i ≤ places s i + one j.line i := by
  cases j with
  | finish k id outcome => exact (places_enqueue s _ i).le
  | deliver k response =>
    cases response with
    | none => exact Nat.le_refl _
    | some r => exact (places_writeLine s k r i).le
  | caught k req err =>
    simp only [runJob]
    split
    · exact Nat.le_add_right _ _
    · exact (places_writeLine s k _ i).le
  | mcpCmd => exact (places_enqueue { s with resolved := true } .run i).le
  | run => exact (places_enqueue s .exit i).le
  | exit => exact Nat.le_refl _

/-- No step gives a line a second place, but for a line that has just come. -/
theorem places_step (h : step p s e = some t) (i : Nat) :
    places t i ≤ places s i + match e with
      | .line _ => one (some s.lines.length) i
      | _ => 0 := by
  obtain ⟨-, htaken⟩ := taken_of_step h
  cases htaken with
  | line text hopen => exact places_receive p s text i
  | settle k outcome c hc =>
    obtain ⟨hk, rfl⟩ := List.getElem?_eq_some_iff.mp hc
    have hperm := ((List.getElem_cons_eraseIdx_perm hk).map (·.line)).count_eq i
    rw [places_enqueue]
    simp only [places, List.map_cons, List.count_cons, beq_iff_eq] at hperm ⊢
    simp only [Job.line, one, Option.some.injEq]
    omega
  | job j rest hjobs =>
    have hrun := places_runJob p { s with jobs := rest } j i
    have hserved : places s i = places { s with jobs := rest } i + one j.line i := by
      simp only [places, hjobs]
      cases hl : j.line with
      | none => simp [hl, one]
      | some k =>
        simp only [List.filterMap_cons, hl, List.count_cons, one, Option.some.injEq, beq_iff_eq]
        omega
    simp only
    omega
  | close hopen => exact (places_enqueue { s with closed := true } .mcpCmd i).le
  | terminate hrej => exact Nat.le_refl _

/-- What holds in every state that a run reaches. -/
structure Inv (s : State) : Prop where
  once : ∀ i, places s i ≤ 1
  /-- Nothing answers a line that has not come. -/
  fresh : ∀ i, s.lines.length ≤ i → places s i = 0
  opened : s.closed = false → s.resolved = false ∧ ∀ j ∈ s.jobs, ¬ Shutdown j

theorem receive_lines (p : Platform) (s : State) (text : JsString) :
    (receive p s text).lines = s.lines ++ [text] := by
  obtain ⟨_, _, _, heq, -⟩ := receive_spec p s text
  rw [heq]

theorem runJob_frame (p : Platform) (s : State) (j : Job) :
    (runJob p s j).lines = s.lines ∧ (runJob p s j).closed = s.closed ∧
      (runJob p s j).calls = s.calls := by
  cases j with
  | deliver i response => cases response <;> exact ⟨rfl, rfl, rfl⟩
  | caught i req err =>
    simp only [runJob]
    split
    · exact ⟨rfl, rfl, rfl⟩
    · exact ⟨rfl, rfl, rfl⟩
  | _ => exact ⟨rfl, rfl, rfl⟩

/-- A line of the new state was there before, or has just come. -/
theorem line_old_or_new (h : step p s e = some t) {i : Nat} {text : JsString}
    (hi : t.lines[i]? = some text) :
    s.lines[i]? = some text ∨
      e = .line text ∧ i = s.lines.length ∧ s.closed = false ∧ t = receive p s text := by
  obtain ⟨-, htaken⟩ := taken_of_step h
  cases htaken with
  | line text' hopen =>
    rw [receive_lines] at hi
    rcases Nat.lt_trichotomy i s.lines.length with hlt | rfl | hgt
    · rw [List.getElem?_append_left hlt] at hi
      exact .inl hi
    · have htext : text' = text := by simpa using hi
      rw [htext]
      exact .inr ⟨rfl, rfl, hopen, rfl⟩
    · rw [List.getElem?_eq_none (by simp; omega)] at hi
      cases hi
  | settle k outcome c hc => exact .inl hi
  | job j rest hjobs =>
    rw [(runJob_frame p { s with jobs := rest } j).1] at hi
    exact .inl hi
  | close hopen => exact .inl hi
  | terminate hrej => exact .inl hi

theorem inv_init : Inv init :=
  ⟨fun _ => Nat.zero_le _, fun _ _ => rfl, fun _ => ⟨rfl, by simp [init]⟩⟩

theorem inv_step (h : step p s e = some t) (hi : Inv s) : Inv t := by
  have hplaces := places_step h
  obtain ⟨-, htaken⟩ := taken_of_step h
  cases htaken with
  | line text hopen =>
    obtain ⟨hres, hjobs⟩ := hi.opened hopen
    refine ⟨fun i => ?_, fun i hlen => ?_, fun _ => ?_⟩
    · have hle := hplaces i
      by_cases hi' : s.lines.length ≤ i
      · have hzero := hi.fresh i hi'
        simp only [one] at hle
        split at hle <;> omega
      · have hone := hi.once i
        have hne : s.lines.length ≠ i := by omega
        simpa [one, hne] using hle.trans (Nat.add_le_add_right hone _)
    · rw [receive_lines, List.length_append, List.length_singleton] at hlen
      have hle := hplaces i
      have hzero := hi.fresh i (by omega)
      have hne : s.lines.length ≠ i := by omega
      simp only [one, Option.some.injEq, hne, if_false] at hle
      omega
    · obtain ⟨calls, jobs, out, heq, hnew⟩ := receive_spec p s text
      rw [heq]
      exact ⟨hres, List.forall_mem_append.mpr ⟨hjobs, hnew⟩⟩
  | settle k outcome c hc =>
    refine ⟨fun i => (hplaces i).trans (hi.once i), fun i hlen => ?_, fun hopen => ?_⟩
    · exact Nat.le_zero.mp ((hplaces i).trans (hi.fresh i hlen).le)
    · obtain ⟨hres, hjobs⟩ := hi.opened hopen
      exact ⟨hres, List.forall_mem_append.mpr ⟨hjobs, List.forall_mem_singleton.mpr id⟩⟩
  | job j rest hjobs =>
    obtain ⟨hlines, hclosed, -⟩ := runJob_frame p { s with jobs := rest } j
    refine ⟨fun i => (hplaces i).trans (hi.once i), fun i hlen => ?_, fun hopen => ?_⟩
    · rw [hlines] at hlen
      exact Nat.le_zero.mp ((hplaces i).trans (hi.fresh i hlen).le)
    · rw [hclosed] at hopen
      obtain ⟨hres, hall⟩ := hi.opened hopen
      rw [hjobs] at hall
      have hj : ¬ Shutdown j := hall j (by simp)
      have hserve := runJob_serves p { s with jobs := rest } j
      obtain ⟨new, hnew, hshut⟩ := hserve.jobs
      rw [hnew]
      exact ⟨(hserve.resolved hj).trans hres, List.forall_mem_append.mpr
        ⟨fun k hk => hall k (List.mem_cons_of_mem j hk), hshut hj⟩⟩
  | close hopen =>
    exact ⟨fun i => (hplaces i).trans (hi.once i),
      fun i hlen => Nat.le_zero.mp ((hplaces i).trans (hi.fresh i hlen).le), fun h => (by cases h)⟩
  | terminate hrej => exact ⟨hi.once, hi.fresh, hi.opened⟩

theorem inv_run {es : List Event} (h : exec (step p) init es = some t) : Inv t :=
  exec_invariant (fun _ _ _ hstep => inv_step hstep) h inv_init

/-- A line that has a response has no other. -/
theorem answersTo_of_mem (hi : Inv s) {i : Nat} {r : JsonRpcResponse} (hr : (i, r) ∈ s.out) :
    answersTo s i = [r] := by
  have hmem : (i, r) ∈ s.out.filter fun w => w.1 == i := List.mem_filter.mpr ⟨hr, by simp⟩
  have hcount : (s.out.map (·.1)).count i = (s.out.filter fun w => w.1 == i).length := by
    rw [List.count, List.countP_map, List.countP_eq_length_filter]
    rfl
  have hlen : (s.out.filter fun w => w.1 == i).length ≤ 1 := by
    have honce := hi.once i
    unfold places at honce
    omega
  have hone : s.out.filter (fun w => w.1 == i) = [(i, r)] := by
    cases hf : s.out.filter fun w => w.1 == i with
    | nil => rw [hf] at hmem; cases hmem
    | cons w ws =>
      rw [hf] at hlen hmem
      have hws : ws = [] := List.length_eq_zero_iff.mp (by simpa using hlen)
      rw [hws] at hmem ⊢
      rw [List.mem_singleton.mp hmem]
  rw [answersTo, hone]
  rfl

end Conductor.Mcp.Stdio
