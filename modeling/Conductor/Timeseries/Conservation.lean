import Conductor.Http.SessionsPoller

/-! # The sample counter against the table

A tick inserts its samples in one transaction, tells the daemon's counter once for
each, and prunes. Its store statements are recorded beside the system: the rows
that a transaction added, and how many a prune says it deleted. The table is what
was there at the start, and what was inserted since, without what was pruned. -/
namespace Conductor.Timeseries.Conservation
open Conductor.Lib.Runs Conductor.Timeseries.Store Conductor.Http.SessionsPoller
open Conductor.Sessions.RefinedStatus (Disk)

/-! ## What a tick does to the table -/

/-- The rows that the transaction of a tick adds. -/
def insertedBy (store : TimeseriesStore) (samples : List Sample) (outcome : StoreOutcome) :
    List Sample :=
  if samples = [] then []
  else match outcome, writeMany store samples with
    | .writeFails, _ | _, .error _ => []
    | _, .ok written => written.rows.drop (rowCount store)

/-- How many rows its prune has deleted. -/
def prunedBy (store : TimeseriesStore) (samples : List Sample) (outcome : StoreOutcome) : Nat :=
  if samples = [] then 0
  else match outcome, writeMany store samples with
    | .writeFails, _ | _, .error _ => 0
    | .works, .ok written => (prune written).1
    | .pruneFails rounds, .ok written => (pruneRounds rounds written).1

theorem pruneRounds_rows (fuel : Nat) (store : TimeseriesStore) :
    (pruneRounds fuel store).2 = { store with rows := store.rows.drop (pruneRounds fuel store).1 } ∧
      (pruneRounds fuel store).1 ≤ rowCount store := by
  induction fuel generalizing store with
  | zero => exact ⟨rfl, Nat.zero_le _⟩
  | succ fuel ih =>
    unfold pruneRounds
    simp only
    split
    · exact ⟨rfl, Nat.zero_le _⟩
    · generalize hbatch : min PRUNE_BATCH (rowCount store - store.maxRows) = batch
      have hleft := rowCount_pruneStmt store batch
      have hrest := ih (pruneStmt store batch)
      have hle : rowCount (pruneStmt store batch) ≤ rowCount store := by omega
      have hdrop : (pruneStmt store batch).rows =
          store.rows.drop (rowCount store - rowCount (pruneStmt store batch)) := by
        show store.rows.drop batch.toNat = _
        rw [hleft]
        by_cases hsmall : batch.toNat ≤ rowCount store
        · congr 1
          omega
        · have hall : store.rows.length ≤ batch.toNat := by
            unfold rowCount at hsmall
            omega
          rw [List.drop_eq_nil_of_le hall, List.drop_eq_nil_of_le]
          unfold rowCount at hsmall ⊢
          omega
      split
      · rename_i hnone
        refine ⟨?_, Nat.zero_le _⟩
        rw [hnone] at hdrop
        exact congrArg (fun rows => { store with rows := rows }) hdrop
      · refine ⟨?_, ?_⟩
        · show (pruneRounds fuel (pruneStmt store batch)).2 = _
          rw [hrest.1, ← List.drop_drop, ← hdrop]
          rfl
        · show rowCount store - rowCount (pruneStmt store batch) +
            (pruneRounds fuel (pruneStmt store batch)).1 ≤ rowCount store
          omega

theorem prune_rows (store : TimeseriesStore) :
    (prune store).2 = { store with rows := store.rows.drop (prune store).1 } ∧
      (prune store).1 ≤ rowCount store := by
  unfold prune
  split
  · exact ⟨rfl, Nat.zero_le _⟩
  · exact pruneRounds_rows _ _

/-- A tick counts the rows that it inserted, and the table gains these at its end
and loses what was pruned at its front. -/
structure Recorded (store : TimeseriesStore) (inserted : List Sample) (pruned : Nat)
    (after : Option TimeseriesStore × List Sample) : Prop where
  counted : after.2 = inserted
  table : after.1 = some { store with rows := (store.rows ++ inserted).drop pruned }
  deleted : pruned ≤ (store.rows ++ inserted).length

theorem record_spec (store : TimeseriesStore) (samples : List Sample) (outcome : StoreOutcome) :
    Recorded store (insertedBy store samples outcome) (prunedBy store samples outcome)
      (record (some store) samples outcome) := by
  have unchanged : Recorded store [] 0 (some store, []) :=
    ⟨rfl, by rw [List.append_nil]; rfl, Nat.zero_le _⟩
  unfold insertedBy prunedBy record
  by_cases hnone : samples = []
  · simpa only [if_pos hnone] using unchanged
  simp only [if_neg hnone]
  cases hclosed : store.closed with
  | true =>
    have herror : writeMany store samples = .error (.error (Js.Text.js "TimeseriesStore is closed")) := by
      simp [writeMany, hclosed, throw, throwThe, MonadExceptOf.throw]
    rw [herror]
    cases outcome <;> exact unchanged
  | false =>
    have hwritten := writeMany_open hclosed samples
    have hadded : (store.rows ++ samples).drop (rowCount store) = samples := List.drop_left
    rw [hwritten]
    cases outcome with
    | writeFails => exact unchanged
    | works =>
      simp only [hadded]
      obtain ⟨hrows, hle⟩ := prune_rows { store with rows := store.rows ++ samples }
      exact ⟨rfl, congrArg some hrows, hle⟩
    | pruneFails rounds =>
      simp only [hadded]
      obtain ⟨hrows, hle⟩ := pruneRounds_rows rounds { store with rows := store.rows ++ samples }
      exact ⟨rfl, congrArg some hrows, hle⟩

/-! ## The statements of a run -/

/-- The system, and what its store statements have done so far. -/
structure Ledger where
  system : State
  inserted : List Sample
  pruned : Nat

/-- The samples that tick `k` of poller `g` writes when it completes. -/
def tickSamples (s : State) (g k : Nat) : List Sample :=
  match s.pollers[g]?.bind fun p => answerTo s p k with
  | some (found, _, next) => samplesOf s.sched.now found next
  | none => []

def ledgerStep (l : Ledger) (e : Event) : Option Ledger :=
  (step l.system e).map fun t => match e, l.system.store with
    | .complete g k outcome, some store =>
      ⟨t, l.inserted ++ insertedBy store (tickSamples l.system g k) outcome,
        l.pruned + prunedBy store (tickSamples l.system g k) outcome⟩
    | _, _ => ⟨t, l.inserted, l.pruned⟩

theorem completeTick_record {s t : State} {g k : Nat} {outcome : StoreOutcome}
    (h : completeTick s g k outcome = some t) :
    t.store = (record s.store (tickSamples s g k) outcome).1 ∧
      t.samplesWritten = s.samplesWritten + (record s.store (tickSamples s g k) outcome).2.length := by
  obtain ⟨p, hp, h⟩ := Option.bind_eq_some_iff.mp h
  obtain ⟨⟨found, askedAt, next⟩, hans, h⟩ := Option.bind_eq_some_iff.mp h
  have hsamples : tickSamples s g k = samplesOf s.sched.now found next := by
    simp [tickSamples, hp, hans]
  cases h
  rw [hsamples]
  exact ⟨rfl, rfl⟩

/-- No other step touches the rows or the counter. -/
theorem step_table {s t : State} {e : Event} (h : step s e = some t)
    (he : ∀ g k outcome, e ≠ .complete g k outcome) :
    t.samplesWritten = s.samplesWritten ∧
      (t.store = s.store ∨ t.store = s.store.map fun store => { store with closed := true }) := by
  cases e with
  | sched e =>
    obtain ⟨sched, _, rfl⟩ := Option.map_eq_some_iff.mp h
    exact ⟨rfl, .inl rfl⟩
  | start => cases h; exact ⟨rfl, .inl rfl⟩
  | stop g =>
    obtain ⟨p, p', _, _, rfl⟩ := updatePoller_cases h
    exact ⟨rfl, .inl rfl⟩
  | timer g =>
    obtain ⟨p, p', _, _, rfl⟩ := updatePoller_cases h
    exact ⟨rfl, .inl rfl⟩
  | ask g k found =>
    obtain ⟨p, sched, _, _, _, rfl⟩ := askTick_cases h
    exact ⟨rfl, .inl rfl⟩
  | complete g k outcome => exact absurd rfl (he g k outcome)
  | fail g k =>
    obtain ⟨p, p', _, _, rfl⟩ := updatePoller_cases h
    exact ⟨rfl, .inl rfl⟩
  | closeStore => cases h; exact ⟨rfl, .inr rfl⟩

/-- The rows of the table: those of the start and those inserted since, without the
oldest ones, that were pruned. -/
structure Conserved (start : TimeseriesStore) (l : Ledger) : Prop where
  counted : l.system.samplesWritten = l.inserted.length
  table : ∃ closed, l.system.store =
    some ⟨start.maxRows, (start.rows ++ l.inserted).drop l.pruned, closed⟩
  deleted : l.pruned ≤ (start.rows ++ l.inserted).length

theorem Conserved.complete {start : TimeseriesStore} {l : Ledger} {t : State} {g k : Nat}
    {outcome : StoreOutcome} (h : Conserved start l)
    (ht : completeTick l.system g k outcome = some t) {closed : Bool}
    (hstore : l.system.store =
      some ⟨start.maxRows, (start.rows ++ l.inserted).drop l.pruned, closed⟩) :
    let store : TimeseriesStore := ⟨start.maxRows, (start.rows ++ l.inserted).drop l.pruned, closed⟩
    Conserved start ⟨t, l.inserted ++ insertedBy store (tickSamples l.system g k) outcome,
      l.pruned + prunedBy store (tickSamples l.system g k) outcome⟩ := by
  intro store
  obtain ⟨ht, hwritten⟩ := completeTick_record ht
  rw [hstore] at ht hwritten
  have hrecord := record_spec store (tickSamples l.system g k) outcome
  generalize insertedBy store (tickSamples l.system g k) outcome = inserted at hrecord ⊢
  generalize prunedBy store (tickSamples l.system g k) outcome = pruned at hrecord ⊢
  have hrows : (start.rows ++ (l.inserted ++ inserted)).drop (l.pruned + pruned) =
      ((start.rows ++ l.inserted).drop l.pruned ++ inserted).drop pruned := by
    rw [← List.append_assoc, ← List.drop_drop, List.drop_append_of_le_length h.deleted]
  refine ⟨?_, ⟨closed, ?_⟩, ?_⟩
  · rw [hwritten, h.counted, hrecord.counted, List.length_append]
  · rw [ht, hrecord.table, hrows]
  · have hdeleted := hrecord.deleted
    have hkept : store.rows.length = (start.rows ++ l.inserted).length - l.pruned := List.length_drop
    have hbefore := h.deleted
    rw [List.length_append, hkept] at hdeleted
    show l.pruned + pruned ≤ (start.rows ++ (l.inserted ++ inserted)).length
    rw [← List.append_assoc, List.length_append]
    omega

theorem Conserved.step {start : TimeseriesStore} {l l' : Ledger} {e : Event} (h : Conserved start l)
    (hl : ledgerStep l e = some l') : Conserved start l' := by
  obtain ⟨t, ht, rfl⟩ := Option.map_eq_some_iff.mp hl
  obtain ⟨closed, hstore⟩ := h.table
  by_cases he : ∃ g k outcome, e = .complete g k outcome
  · obtain ⟨g, k, outcome, rfl⟩ := he
    rw [hstore]
    exact h.complete ht hstore
  · have hother : ∀ g k outcome, e ≠ .complete g k outcome :=
      fun g k outcome heq => he ⟨g, k, outcome, heq⟩
    obtain ⟨hwritten, hsame⟩ := step_table ht hother
    have hkept : Conserved start ⟨t, l.inserted, l.pruned⟩ := by
      refine ⟨hwritten.trans h.counted, ?_, h.deleted⟩
      rcases hsame with hsame | hsame
      · exact ⟨closed, hsame.trans hstore⟩
      · exact ⟨true, by rw [hsame, hstore]; rfl⟩
    split
    · exact absurd rfl (hother _ _ _)
    · exact hkept

theorem samplesWritten_le_step {s t : State} {e : Event} (h : Http.SessionsPoller.step s e = some t) :
    s.samplesWritten ≤ t.samplesWritten := by
  by_cases he : ∃ g k outcome, e = .complete g k outcome
  · obtain ⟨g, k, outcome, rfl⟩ := he
    rw [(completeTick_record h).2]
    exact Nat.le_add_right _ _
  · exact (step_table h fun g k outcome heq => he ⟨g, k, outcome, heq⟩).1.ge

theorem samplesWritten_le_run {s t : State} {es : List Event}
    (h : exec Http.SessionsPoller.step s es = some t) : s.samplesWritten ≤ t.samplesWritten :=
  exec_invariant (I := fun u => s.samplesWritten ≤ u.samplesWritten)
    (fun _ _ _ hst hle => hle.trans (samplesWritten_le_step hst)) h (le_refl _)

/-- After a tick whose statements succeed the table is within its cap. -/
theorem capped_complete {s t : State} {g k : Nat} {store : TimeseriesStore}
    (h : completeTick s g k .works = some t) (hstore : s.store = some store)
    (hopen : store.closed = false) (hsamples : tickSamples s g k ≠ []) (hcap : 0 ≤ store.maxRows) :
    ∃ store', t.store = some store' ∧ (rowCount store' : Int) ≤ store.maxRows := by
  have ht := (completeTick_record h).1
  have hrecord : (record (some store) (tickSamples s g k) .works).1 =
      some (prune { store with rows := store.rows ++ tickSamples s g k }).2 := by
    unfold record
    simp only [if_neg hsamples, writeMany_open hopen]
  rw [hstore, hrecord] at ht
  refine ⟨_, ht, ?_⟩
  have hopen' : ({ store with rows := store.rows ++ tickSamples s g k } : TimeseriesStore).closed = false :=
    hopen
  rw [prune_open hopen']
  unfold rowCount overCap
  rw [List.length_drop]
  unfold rowCount
  simp only
  omega

theorem ledgerStep_system (l : Ledger) (e : Event) :
    (ledgerStep l e).map Ledger.system = Http.SessionsPoller.step l.system e := by
  unfold ledgerStep
  rw [Option.map_map]
  cases Http.SessionsPoller.step l.system e with
  | none => rfl
  | some t =>
    simp only [Option.map_some, Function.comp]
    split <;> rfl

/-- In every run, whatever fails and whenever the store is closed: the counter is the
number of rows inserted, it never goes back, and the table has the rows it had at
the start and those inserted, less those pruned. The next tick that succeeds with
something to write leaves the table within its cap. -/
theorem samples_conserved {now : Int} {disk : Disk} {start : TimeseriesStore} {es : List Event}
    {s : State} (h : exec step (init now disk (some start)) es = some s) :
    ∃ inserted pruned store,
      exec ledgerStep ⟨init now disk (some start), [], 0⟩ es = some ⟨s, inserted, pruned⟩ ∧
      s.store = some store ∧ s.samplesWritten = inserted.length ∧
      rowCount store + pruned = rowCount start + s.samplesWritten ∧
      (∀ t, Visited step (init now disk (some start)) es t → t.samplesWritten ≤ s.samplesWritten) ∧
      (0 ≤ start.maxRows → store.closed = false → ∀ g k t, step s (.complete g k .works) = some t →
        tickSamples s g k ≠ [] → ∃ store', t.store = some store' ∧ (rowCount store' : Int) ≤ start.maxRows) := by
  obtain ⟨⟨s, inserted, pruned⟩, hledger, rfl⟩ := exec_beside (r := ⟨_, [], 0⟩) ledgerStep_system h
  have hinit : Conserved start ⟨init now disk (some start), [], 0⟩ :=
    ⟨rfl, ⟨start.closed, by rw [List.append_nil]; rfl⟩, Nat.zero_le _⟩
  obtain ⟨hcounted, ⟨closed, hstore⟩, hdeleted⟩ :=
    exec_invariant (fun _ _ _ hst hi => hi.step hst) hledger hinit
  refine ⟨inserted, pruned, _, hledger, hstore, hcounted, ?_, ?_, ?_⟩
  · have hcounted : s.samplesWritten = inserted.length := hcounted
    have hdeleted : pruned ≤ start.rows.length + inserted.length := by simpa using hdeleted
    show ((start.rows ++ inserted).drop pruned).length + pruned = start.rows.length + s.samplesWritten
    rw [List.length_drop, List.length_append, hcounted]
    omega
  · intro t ht
    obtain ⟨past, ⟨rest, rfl⟩, hpast⟩ := ht
    rw [exec_append, hpast] at h
    exact samplesWritten_le_run h
  · intro hcap hopen g k t ht hsamples
    have hcapped := capped_complete ht hstore hopen hsamples hcap
    exact hcapped

/-- A store that keeps one row, two ticks, and the daemon closes in between. -/
def closedBetween : List Event :=
  let found := [(Js.Text.js "claude-code", [⟨100, Js.Text.js "/a", Js.Text.js "a", none, none⟩])]
  [.start, .ask 0 0 found, .sched (.read 0 0), .sched (.settle 0), .complete 0 0 .works, .timer 0,
    .ask 0 1 found, .closeStore, .complete 0 1 .works]

theorem samples_conserved_closedBetween :
    ∃ s inserted pruned store,
      exec step (init 0 (fun _ => none) (some ⟨1, [], false⟩)) closedBetween = some s ∧
      exec ledgerStep ⟨init 0 (fun _ => none) (some ⟨1, [], false⟩), [], 0⟩ closedBetween =
        some ⟨s, inserted, pruned⟩ ∧
      s.store = some store ∧ rowCount store + pruned = 0 + s.samplesWritten ∧ s.samplesWritten = 1 := by
  obtain ⟨inserted, pruned, store, hledger, hstore, -, hcount, -⟩ :=
    @samples_conserved 0 (fun _ => none) ⟨1, [], false⟩ closedBetween _ rfl
  exact ⟨_, inserted, pruned, store, rfl, hledger, hstore, hcount, by decide⟩

end Conductor.Timeseries.Conservation
