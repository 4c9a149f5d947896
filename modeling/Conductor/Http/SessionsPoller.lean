import Conductor.Sessions.Provenance
import Conductor.Timeseries.Store

/-! # The sessions diff poller

Pollers are started and stopped; the ticks of a poller are suspended in their
discovery and in `refinedStatusFor`, which they share, with its cache, with every
other caller in the process. A tick that completes compares its map with the one
of the tick that completed before it, and writes a sample for each entry. -/
namespace Conductor.Http.SessionsPoller
open Conductor.Lib.Runs Conductor.Js.Text Conductor.Js.Values Conductor.Sessions
open Conductor.Sessions.Types Conductor.Sessions.RefinedStatus Conductor.Sessions.Schedule
open Conductor.Sessions.Provenance Conductor.Timeseries.Store

/-! ## One tick -/

/-- `byProvider`: what each registered provider discovered, by its name. -/
abbrev Found := List (JsString × List LocalSession)

def sessionsOf (found : Found) : List LocalSession := found.flatMap fun b => b.2

def providerByPid (found : Found) : PidMap JsString :=
  found.flatMap fun b => b.2.map fun s => (s.pid, b.1)

/-- The payload of a `sessions:update`. -/
structure Update where
  pid : Int
  refinedStatus : RefinedStatus
  previous : Option RefinedStatus
  deriving DecidableEq

/-- The updates that a tick emits, in the order of its map. -/
def updates (prev next : PidMap RefinedStatus) : List Update :=
  next.entries.filterMap fun e =>
    if prev.get? e.1 ≠ some e.2 then some ⟨e.1, e.2, prev.get? e.1⟩ else none

def samplesOf (now : Int) (found : Found) (next : PidMap RefinedStatus) : List Sample :=
  next.entries.map fun e =>
    { ts := now, provider := ((providerByPid found).get? e.1).getD (js "unknown"), pid := e.1,
      refinedStatus := e.2, turnCount := none, toolCount := none, lastWriteAge := none }

/-- How the database fares in one tick. A transaction that fails leaves nothing;
a prune can fail after some rounds. -/
inductive StoreOutcome
  | works
  | writeFails
  | pruneFails (rounds : Nat)

/-- The store after a tick, and the samples it took. -/
def record (store : Option TimeseriesStore) (samples : List Sample) (outcome : StoreOutcome) :
    Option TimeseriesStore × List Sample :=
  match store with
  | none => (none, [])
  | some store =>
    if samples = [] then (some store, [])
    else match outcome, writeMany store samples with
      | .writeFails, _ | _, .error _ => (some store, [])
      | .works, .ok written => (some (prune written).2, samples)
      | .pruneFails rounds, .ok written => (some (pruneRounds rounds written).2, samples)

/-! ## The system -/

inductive TickPhase
  | discovering
  /-- The tick asked for the statuses of what it found, as call `call`. -/
  | asked (found : Found) (call : Nat)
  | completed
  | failed

/-- A completed tick. -/
structure Report where
  found : Found
  /-- When it asked for the statuses. -/
  askedAt : Int
  next : PidMap RefinedStatus
  updates : List Update
  wrote : List Sample

structure Poller where
  stopped : Bool
  prev : PidMap RefinedStatus
  ticks : List TickPhase
  /-- The completed ticks, in the order of their completion. -/
  reports : List Report

structure Emission where
  poller : Nat
  update : Update
  deriving DecidableEq

structure State where
  sched : Schedule.State
  pollers : List Poller
  store : Option TimeseriesStore
  samplesWritten : Nat
  emitted : List Emission

inductive Event
  /-- The clock, the transcripts, and the calls of everybody, pollers included. -/
  | sched (e : Schedule.Event)
  | start
  | stop (g : Nat)
  /-- The interval of poller `g` fires. -/
  | timer (g : Nat)
  /-- The discovery of tick `k` of poller `g` ends. -/
  | ask (g k : Nat) (found : Found)
  /-- The tick continues with the map that its call returned. -/
  | complete (g k : Nat) (outcome : StoreOutcome)
  /-- The tick throws before it has had an effect. -/
  | fail (g k : Nat)
  | closeStore

def init (now : Int) (disk : Disk) (store : Option TimeseriesStore) : State :=
  ⟨Schedule.init now disk, [], store, 0, []⟩

def updatePoller (s : State) (g : Nat) (f : Poller → Option Poller) : Option State := do
  let p ← s.pollers[g]?
  let p' ← f p
  return { s with pollers := s.pollers.set g p' }

/-- The first tick of a poller runs at once. -/
def startSessionsDiffPoller (s : State) : State :=
  { s with pollers := s.pollers ++ [⟨false, [], [.discovering], []⟩] }

def askTick (s : State) (g k : Nat) (found : Found) : Option State := do
  let p ← s.pollers[g]?
  match p.ticks[k]? with
  | some .discovering => do
    let sched ← Schedule.step s.sched (.call (sessionsOf found))
    return { s with
      sched
      pollers := s.pollers.set g { p with ticks := p.ticks.set k (.asked found s.sched.calls.length) } }
  | _ => none

/-- The map that the tick's call returned, and when the call was made. -/
def answerTo (s : State) (p : Poller) (k : Nat) : Option (Found × Int × PidMap RefinedStatus) :=
  match p.ticks[k]? with
  | some (.asked found call) => do
    let c ← s.sched.calls[call]?
    let r ← c.returned
    return (found, c.startedAt, r.statuses)
  | _ => none

/-- What a tick that found `found` does with the map `next`. -/
def reportOf (s : State) (p : Poller) (found : Found) (askedAt : Int) (next : PidMap RefinedStatus)
    (outcome : StoreOutcome) : Report :=
  ⟨found, askedAt, next, SessionsPoller.updates p.prev next,
    (record s.store (samplesOf s.sched.now found next) outcome).2⟩

def completeTick (s : State) (g k : Nat) (outcome : StoreOutcome) : Option State := do
  let p ← s.pollers[g]?
  let (found, askedAt, next) ← answerTo s p k
  let report := reportOf s p found askedAt next outcome
  return { s with
    pollers := s.pollers.set g
      { p with prev := next, ticks := p.ticks.set k .completed, reports := p.reports ++ [report] }
    store := (record s.store (samplesOf s.sched.now found next) outcome).1
    samplesWritten := s.samplesWritten + report.wrote.length
    emitted := s.emitted ++ report.updates.map fun u => ⟨g, u⟩ }

def failTick (p : Poller) (k : Nat) : Option Poller :=
  match p.ticks[k]? with
  | some .discovering | some (.asked _ _) => some { p with ticks := p.ticks.set k .failed }
  | _ => none

def step (s : State) : Event → Option State
  | .sched e => (Schedule.step s.sched e).map fun sched => { s with sched }
  | .start => some (startSessionsDiffPoller s)
  | .stop g => updatePoller s g fun p => some { p with stopped := true }
  | .timer g => updatePoller s g fun p =>
      if p.stopped then none else some { p with ticks := p.ticks ++ [.discovering] }
  | .ask g k found => askTick s g k found
  | .complete g k outcome => completeTick s g k outcome
  | .fail g k => updatePoller s g fun p => failTick p k
  | .closeStore => some { s with store := s.store.map fun store => { store with closed := true } }

/-! ## What one step can do -/

theorem updatePoller_cases {s t : State} {g : Nat} {f : Poller → Option Poller}
    (h : updatePoller s g f = some t) :
    ∃ p p', s.pollers[g]? = some p ∧ f p = some p' ∧ t = { s with pollers := s.pollers.set g p' } := by
  obtain ⟨p, hp, h⟩ := Option.bind_eq_some_iff.mp h
  obtain ⟨p', hp', h⟩ := Option.bind_eq_some_iff.mp h
  cases h
  exact ⟨p, p', hp, hp', rfl⟩

theorem askTick_cases {s t : State} {g k : Nat} {found : Found} (h : askTick s g k found = some t) :
    ∃ p sched, s.pollers[g]? = some p ∧ p.ticks[k]? = some .discovering ∧
      Schedule.step s.sched (.call (sessionsOf found)) = some sched ∧
      t = { s with sched, pollers := s.pollers.set g { p with
        ticks := p.ticks.set k (.asked found s.sched.calls.length) } } := by
  obtain ⟨p, hp, h⟩ := Option.bind_eq_some_iff.mp h
  cases hk : p.ticks[k]? with
  | none => rw [hk] at h; cases h
  | some phase =>
    rw [hk] at h
    cases phase with
    | discovering =>
      obtain ⟨sched, hsched, h⟩ := Option.bind_eq_some_iff.mp h
      cases h
      exact ⟨p, sched, hp, hk, hsched, rfl⟩
    | asked found call => cases h
    | completed => cases h
    | failed => cases h

theorem answerTo_cases {s : State} {p : Poller} {k : Nat} {found : Found} {askedAt : Int}
    {next : PidMap RefinedStatus} (h : answerTo s p k = some (found, askedAt, next)) :
    ∃ call c r, p.ticks[k]? = some (.asked found call) ∧ s.sched.calls[call]? = some c ∧
      c.returned = some r ∧ c.startedAt = askedAt ∧ r.statuses = next := by
  unfold answerTo at h
  split at h
  · rename_i found' call hk
    obtain ⟨c, hc, h⟩ := Option.bind_eq_some_iff.mp h
    obtain ⟨r, hr, h⟩ := Option.bind_eq_some_iff.mp h
    cases h
    exact ⟨call, c, r, hk, hc, hr, rfl, rfl⟩
  · cases h

theorem completeTick_cases {s t : State} {g k : Nat} {outcome : StoreOutcome}
    (h : completeTick s g k outcome = some t) :
    ∃ p found askedAt next, s.pollers[g]? = some p ∧
      answerTo s p k = some (found, askedAt, next) ∧
      t.pollers = s.pollers.set g { p with
        prev := next, ticks := p.ticks.set k .completed
        reports := p.reports ++ [reportOf s p found askedAt next outcome] } ∧
      t.sched = s.sched ∧
      t.store = (record s.store (samplesOf s.sched.now found next) outcome).1 ∧
      t.emitted = s.emitted ++ (SessionsPoller.updates p.prev next).map fun u => ⟨g, u⟩ := by
  obtain ⟨p, hp, h⟩ := Option.bind_eq_some_iff.mp h
  obtain ⟨⟨found, askedAt, next⟩, hans, h⟩ := Option.bind_eq_some_iff.mp h
  cases h
  exact ⟨p, found, askedAt, next, hp, hans, rfl, rfl, rfl, rfl⟩

theorem failTick_cases {p p' : Poller} {k : Nat} (h : failTick p k = some p') :
    p' = { p with ticks := p.ticks.set k .failed } := by
  unfold failTick at h
  split at h
  · exact (Option.some.inj h).symm
  · exact (Option.some.inj h).symm
  · cases h

/-- Only a tick that completes emits updates. -/
theorem step_emitted {s t : State} {e : Event} (h : step s e = some t) :
    (∃ g k outcome p, ∃ changed : List Update, e = .complete g k outcome ∧
      s.pollers[g]? = some p ∧ t.emitted = s.emitted ++ changed.map fun u => ⟨g, u⟩) ∨
    t.emitted = s.emitted := by
  cases e with
  | sched e =>
    obtain ⟨sched, _, rfl⟩ := Option.map_eq_some_iff.mp h
    exact .inr rfl
  | start => cases h; exact .inr rfl
  | stop g =>
    obtain ⟨p, p', _, _, rfl⟩ := updatePoller_cases h
    exact .inr rfl
  | timer g =>
    obtain ⟨p, p', _, _, rfl⟩ := updatePoller_cases h
    exact .inr rfl
  | ask g k found =>
    obtain ⟨p, sched, _, _, _, rfl⟩ := askTick_cases h
    exact .inr rfl
  | complete g k outcome =>
    obtain ⟨p, found, askedAt, next, hp, _, _, _, _, hemitted⟩ := completeTick_cases h
    exact .inl ⟨g, k, outcome, p, _, rfl, hp, hemitted⟩
  | fail g k =>
    obtain ⟨p, p', _, _, rfl⟩ := updatePoller_cases h
    exact .inr rfl
  | closeStore => cases h; exact .inr rfl

end Conductor.Http.SessionsPoller
