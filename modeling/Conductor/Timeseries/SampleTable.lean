import Conductor.Js.Doubles
import Conductor.Lib.Runs
import Conductor.Timeseries.PruneLoop

/-! # The database of samples over its whole life

The table with the ids that SQLite gives, in any order, and the calls of the store on it:
writes that can fail, transactions that are then undone, prunes that can stop on the way,
`close`, and new stores on the same file. To the callers it is one log that is only
appended to, of which the table holds the end; and the store that keeps the samples
alone, which the poller and the exporter read, goes through the same states. -/
namespace Conductor.Timeseries.SampleTable
open Conductor.Lib.Oldest Conductor.Lib.Runs Conductor.Js.Text Conductor.Js.Number Conductor.Js.Values
open Conductor.Timeseries.Store (Sample TimeseriesStore DEFAULT_MAX_ROWS PRUNE_BATCH)
open Conductor.Timeseries.PruneLoop (Row limit)

/-! ## The table -/

/-- `id INTEGER PRIMARY KEY AUTOINCREMENT`; `sequence` is the greatest id ever given. -/
structure Table where
  rows : List Row
  sequence : Nat
  primaryKey : (rows.map Row.id).Nodup
  given : ∀ r ∈ rows, r.id ≤ sequence

/-- `SELECT … FROM samples ORDER BY id ASC`. -/
def Table.ordered (table : Table) : List Row := byKey Row.id table.rows

def MAX_ROWID : Nat := 2 ^ 63 - 1

theorem nodup_insert (table : Table) (sample : Sample) :
    ((table.rows ++ [(⟨table.sequence + 1, sample⟩ : Row)]).map Row.id).Nodup := by
  rw [List.map_append]
  refine List.nodup_append.mpr ⟨table.primaryKey, List.nodup_singleton _, fun i hi j hj => ?_⟩
  obtain ⟨r, hr, rfl⟩ := List.mem_map.mp hi
  have hle := table.given r hr
  rw [List.mem_singleton.mp hj]
  show r.id ≠ (table.sequence : Int) + 1
  omega

/-- An `INSERT`; `none` when every id has been given. -/
def Table.insert (table : Table) (sample : Sample) : Option Table :=
  if table.sequence < MAX_ROWID then
    some {
      rows := table.rows ++ [⟨table.sequence + 1, sample⟩]
      sequence := table.sequence + 1
      primaryKey := nodup_insert table sample
      given := by
        intro r hr
        rcases List.mem_append.mp hr with hr | hr
        · have hle := table.given r hr
          push_cast
          omega
        · rw [List.mem_singleton.mp hr]
          push_cast
          exact le_refl _ }
  else none

/-- `for (const r of rows) this.insertStmt.run(r)`. -/
def Table.insertAll (table : Table) : List Sample → Option Table
  | [] => some table
  | sample :: samples => (table.insert sample).bind fun t => t.insertAll samples

def Table.pruneStmt (table : Table) (batch : Int) : Table where
  rows := PruneLoop.pruneStmt table.rows batch
  sequence := table.sequence
  primaryKey := dropLeast_nodup table.primaryKey
  given r hr := table.given r (List.mem_filter.mp hr).1

/-! ## The store -/

structure SampleStore where
  table : Table
  maxRows : Int
  closed : Bool

def CLOSED : JsError := .error (js "TimeseriesStore is closed")
def FULL : JsError := .error (js "database or disk is full")

/-- `write`; the statement can throw, and then nothing was inserted. -/
def write (store : SampleStore) (sample : Sample) (fault : Option JsError) : Except JsError JsNumber × SampleStore :=
  if store.closed then (.error CLOSED, store)
  else match fault, store.table.insert sample with
    | some e, _ => (.error e, store)
    | none, none => (.error FULL, store)
    | none, some table => (.ok (nearestDouble (table.sequence : Rat)), { store with table })

/-- `writeMany`; whatever throws inside the transaction, it is rolled back. -/
def writeMany (store : SampleStore) (samples : List Sample) (fault : Option JsError) : Except JsError Unit × SampleStore :=
  if store.closed then (.error CLOSED, store)
  else if samples = [] then (.ok (), store)
  else match fault, store.table.insertAll samples with
    | some e, _ => (.error e, store)
    | none, none => (.error FULL, store)
    | none, some table => (.ok (), { store with table })

/-- So many rounds of the loop of `prune`: whether it has ended, how many rows it has
deleted, and the table. -/
def pruneRounds (maxRows : Int) : Nat → Table → Bool × Nat × Table
  | 0, table => (false, 0, table)
  | rounds + 1, table =>
    let count := table.rows.length
    if (count : Int) ≤ maxRows then (true, 0, table)
    else
      let overCount := (count : Int) - maxRows
      let left := table.pruneStmt (min PRUNE_BATCH overCount)
      let changes := count - left.rows.length
      if changes = 0 then (true, 0, left)
      else
        let rest := pruneRounds maxRows rounds left
        (rest.1, changes + rest.2.1, rest.2.2)

/-- `prune`; a statement of the round after so many can throw, and what was deleted
until then stays deleted. -/
def prune (store : SampleStore) (fault : Option (Nat × JsError)) : Except JsError Nat × SampleStore :=
  if store.closed then (.ok 0, store)
  else match fault with
    | none =>
      let done := pruneRounds store.maxRows (store.table.rows.length + 1) store.table
      (.ok done.2.1, { store with table := done.2.2 })
    | some (rounds, e) =>
      let done := pruneRounds store.maxRows rounds store.table
      (if done.1 then .ok done.2.1 else .error e, { store with table := done.2.2 })

/-! ## Runs -/

inductive Call
  | write (sample : Sample) (fault : Option JsError)
  | writeMany (samples : List Sample) (fault : Option JsError)
  | prune (fault : Option (Nat × JsError))
  | close
  /-- `new TimeseriesStore({ path, maxRows })` on the same file. -/
  | construct (maxRows : Option Int)

inductive Outcome
  | rowid (n : JsNumber)
  | done
  | deleted (n : Nat)
  | thrown (e : JsError)

/-- The outcome of a method that returns or throws. -/
def outcomeOf {α : Type} (ret : α → Outcome) : Except JsError α → Outcome
  | .ok a => ret a
  | .error e => .thrown e

def perform (store : SampleStore) : Call → Outcome × SampleStore
  | .write sample fault => (write store sample fault).map (outcomeOf .rowid) id
  | .writeMany samples fault => (writeMany store samples fault).map (outcomeOf fun _ => .done) id
  | .prune fault => (prune store fault).map (outcomeOf .deleted) id
  | .close => (.done, { store with closed := true })
  | .construct maxRows => (.done, ⟨store.table, maxRows.getD DEFAULT_MAX_ROWS, false⟩)

/-- The calls in order, each with its outcome, and the store after them. -/
def run (store : SampleStore) : List Call → List (Call × Outcome) × SampleStore
  | [] => ([], store)
  | call :: calls =>
    let first := perform store call
    let rest := run first.2 calls
    ((call, first.1) :: rest.1, rest.2)

/-! ## What the callers know -/

/-- The samples that a call has inserted, by what its caller sees. -/
def committedBy : Call × Outcome → List Sample
  | (.write sample _, .rowid _) => [sample]
  | (.writeMany samples _, .done) => samples
  | _ => []

def committed (trace : List (Call × Outcome)) : List Sample := trace.flatMap committedBy

/-- The ids that `write` has returned, with the samples that were written. -/
def returnedBy : Call × Outcome → List (JsNumber × Sample)
  | (.write sample _, .rowid n) => [(n, sample)]
  | _ => []

def returned (trace : List (Call × Outcome)) : List (JsNumber × Sample) := trace.flatMap returnedBy

/-- The rows of samples that are given the ids after `last`. -/
def numbered (last : Nat) : List Sample → List Row
  | [] => []
  | sample :: samples => ⟨last + 1, sample⟩ :: numbered (last + 1) samples

/-- The store that keeps the samples alone. -/
def SampleStore.samples (store : SampleStore) : TimeseriesStore :=
  ⟨store.maxRows, store.table.ordered.map Row.sample, store.closed⟩

/-- What a call is to that store, by what its caller sees; `none` when that cannot be. -/
def listStep (list : TimeseriesStore) : Call × Outcome → Option TimeseriesStore
  | (.write sample _, .rowid _) => (Store.writeMany list [sample]).toOption
  | (.writeMany samples _, .done) => (Store.writeMany list samples).toOption
  | (.write _ _, .thrown _) | (.writeMany _ _, .thrown _) => some list
  | (.prune _, .deleted n) => if (Store.prune list).1 = n then some (Store.prune list).2 else none
  | (.prune (some (rounds, _)), .thrown _) => some (Store.pruneRounds rounds list).2
  | (.close, .done) => some { list with closed := true }
  | (.construct maxRows, .done) => some ⟨maxRows.getD DEFAULT_MAX_ROWS, list.rows, false⟩
  | _ => none

/-- A run against what its callers know. -/
structure Logged (store : SampleStore) (trace : List (Call × Outcome)) (after : SampleStore) : Prop where
  /-- The table is the end of the log: what was there, and what was inserted since. -/
  log : after.table.ordered <:+ store.table.ordered ++ numbered store.table.sequence (committed trace)
  sequence : after.table.sequence = store.table.sequence + (committed trace).length
  /-- The ids that were returned are those of the log. -/
  ids : ∃ rows : List Row, rows.Sublist (numbered store.table.sequence (committed trace)) ∧
    returned trace = rows.map fun r => (nearestDouble (r.id : Rat), r.sample)
  samples : exec listStep store.samples trace = some after.samples

theorem numbered_append (last : Nat) (samples more : List Sample) :
    numbered last (samples ++ more) = numbered last samples ++ numbered (last + samples.length) more := by
  induction samples generalizing last with
  | nil => rfl
  | cons sample samples ih =>
    rw [List.cons_append, numbered, ih, numbered, List.cons_append, List.length_cons, Nat.add_assoc, Nat.add_comm 1]

theorem map_sample_numbered (last : Nat) (samples : List Sample) :
    (numbered last samples).map Row.sample = samples := by
  induction samples generalizing last with
  | nil => rfl
  | cons sample samples ih => rw [numbered, List.map_cons, ih]

/-! ## The statements, in the order of the ids -/

variable {table t : Table} {store : SampleStore}

theorem length_ordered (table : Table) : table.ordered.length = table.rows.length := (byKey_perm table.rows).length_eq

/-- A row gets an id greater than all others, and so the last place. -/
theorem Table.insert_spec {sample : Sample} (h : table.insert sample = some t) :
    t.ordered = table.ordered ++ [⟨table.sequence + 1, sample⟩] ∧ t.sequence = table.sequence + 1 := by
  unfold Table.insert at h
  split at h
  · cases h
    refine ⟨byKey_append_greatest (fun r hr => ?_) (nodup_insert table sample), rfl⟩
    have hle := table.given r hr
    show r.id < (table.sequence : Int) + 1
    omega
  · cases h

theorem Table.insertAll_spec {samples : List Sample} (h : table.insertAll samples = some t) :
    t.ordered = table.ordered ++ numbered table.sequence samples ∧ t.sequence = table.sequence + samples.length := by
  induction samples generalizing table with
  | nil =>
    cases h
    exact ⟨(List.append_nil _).symm, rfl⟩
  | cons sample samples ih =>
    obtain ⟨u, hu, ht⟩ := Option.bind_eq_some_iff.mp h
    obtain ⟨hrows, hsequence⟩ := Table.insert_spec hu
    obtain ⟨hrows', hsequence'⟩ := ih ht
    refine ⟨?_, by rw [hsequence', hsequence, List.length_cons]; omega⟩
    rw [hrows', hrows, hsequence, List.append_assoc]
    rfl

/-- A batch of rows goes at the front. -/
theorem Table.ordered_pruneStmt {batch : Int} (h : 0 < batch) :
    (table.pruneStmt batch).ordered = table.ordered.drop batch.toNat := by
  show byKey Row.id (PruneLoop.pruneStmt table.rows batch) = _
  rw [PruneLoop.pruneStmt_of_pos h]
  exact byKey_dropLeast table.primaryKey

/-- The list goes through the same rounds as the table. -/
theorem pruneRounds_listed (maxRows : Int) (rounds : Nat) (table : Table) (closed : Bool) :
    Store.pruneRounds rounds ⟨maxRows, table.ordered.map Row.sample, closed⟩ =
      ((pruneRounds maxRows rounds table).2.1,
        ⟨maxRows, (pruneRounds maxRows rounds table).2.2.ordered.map Row.sample, closed⟩) := by
  induction rounds generalizing table with
  | zero => rfl
  | succ rounds ih =>
    have hcount : Store.rowCount ⟨maxRows, table.ordered.map Row.sample, closed⟩ = table.rows.length := by
      rw [Store.rowCount, List.length_map, length_ordered]
    unfold Store.pruneRounds pruneRounds
    simp only [hcount]
    by_cases hcap : (table.rows.length : Int) ≤ maxRows
    · rw [if_pos hcap, if_pos hcap]
    rw [if_neg hcap, if_neg hcap]
    have hpos : 0 < min PRUNE_BATCH ((table.rows.length : Int) - maxRows) := by
      have hbatch : 0 < PRUNE_BATCH := by decide
      omega
    have hleft : Store.pruneStmt ⟨maxRows, table.ordered.map Row.sample, closed⟩
        (min PRUNE_BATCH (table.rows.length - maxRows)) =
          ⟨maxRows, (table.pruneStmt (min PRUNE_BATCH (table.rows.length - maxRows))).ordered.map Row.sample, closed⟩ := by
      rw [Store.pruneStmt, Table.ordered_pruneStmt hpos, List.map_drop]
    have hrest : Store.rowCount ⟨maxRows,
        (table.pruneStmt (min PRUNE_BATCH (table.rows.length - maxRows))).ordered.map Row.sample, closed⟩ =
          (table.pruneStmt (min PRUNE_BATCH (table.rows.length - maxRows))).rows.length := by
      rw [Store.rowCount, List.length_map, length_ordered]
    rw [hleft, hrest]
    split
    · rfl
    · rw [ih]

/-- Rounds only take rows away, at the front, and give no ids. -/
theorem pruneRounds_suffix (maxRows : Int) (rounds : Nat) (table : Table) :
    (pruneRounds maxRows rounds table).2.2.ordered <:+ table.ordered ∧
      (pruneRounds maxRows rounds table).2.2.sequence = table.sequence := by
  induction rounds generalizing table with
  | zero => exact ⟨List.suffix_refl _, rfl⟩
  | succ rounds ih =>
    unfold pruneRounds
    simp only
    split
    · exact ⟨List.suffix_refl _, rfl⟩
    rename_i hcap
    have hpos : 0 < min PRUNE_BATCH ((table.rows.length : Int) - maxRows) := by
      have hbatch : 0 < PRUNE_BATCH := by decide
      omega
    have hdrop : (table.pruneStmt (min PRUNE_BATCH (table.rows.length - maxRows))).ordered <:+ table.ordered := by
      rw [Table.ordered_pruneStmt hpos]
      exact List.drop_suffix _ _
    split
    · exact ⟨hdrop, rfl⟩
    · obtain ⟨hsuffix, hsequence⟩ := ih (table.pruneStmt (min PRUNE_BATCH (table.rows.length - maxRows)))
      exact ⟨hsuffix.trans hdrop, hsequence⟩

/-- A loop that has ended is not changed by more rounds. -/
theorem pruneRounds_more {maxRows : Int} {rounds : Nat} (more : Nat) (h : (pruneRounds maxRows rounds table).1 = true) :
    pruneRounds maxRows (rounds + more) table = pruneRounds maxRows rounds table := by
  induction rounds generalizing table with
  | zero => cases h
  | succ rounds ih =>
    rw [Nat.add_right_comm]
    unfold pruneRounds at h ⊢
    simp only at h ⊢
    split at h
    · rename_i hcap
      rw [if_pos hcap, if_pos hcap]
    rename_i hcap
    rw [if_neg hcap, if_neg hcap]
    split at h
    · rename_i hnone
      rw [if_pos hnone, if_pos hnone]
    · rename_i hsome
      rw [if_neg hsome, if_neg hsome, ih h]

/-- Every round but the last deletes a row. -/
theorem pruneRounds_ends {maxRows : Int} {rounds : Nat} (h : table.rows.length < rounds) :
    (pruneRounds maxRows rounds table).1 = true := by
  induction rounds generalizing table with
  | zero => omega
  | succ rounds ih =>
    unfold pruneRounds
    simp only
    split
    · rfl
    rename_i hcap
    split
    · rfl
    · rename_i hsome
      exact ih (by omega)

theorem pruneRounds_ended {maxRows : Int} {rounds : Nat} (h : (pruneRounds maxRows rounds table).1 = true) :
    pruneRounds maxRows rounds table = pruneRounds maxRows (table.rows.length + 1) table := by
  have hends := @pruneRounds_ends table maxRows _ (Nat.lt_succ_self _)
  calc pruneRounds maxRows rounds table
      = pruneRounds maxRows (rounds + (table.rows.length + 1)) table := (pruneRounds_more _ h).symm
    _ = pruneRounds maxRows (table.rows.length + 1 + rounds) table := by rw [Nat.add_comm]
    _ = pruneRounds maxRows (table.rows.length + 1) table := pruneRounds_more _ hends

/-! ## One call -/

/-- What one call does to the log, to the ids and to the list. -/
structure Stepped (store : SampleStore) (e : Call × Outcome) (after : SampleStore) : Prop where
  log : after.table.ordered <:+ store.table.ordered ++ numbered store.table.sequence (committedBy e)
  sequence : after.table.sequence = store.table.sequence + (committedBy e).length
  ids : ∃ rows : List Row, rows.Sublist (numbered store.table.sequence (committedBy e)) ∧
    returnedBy e = rows.map fun r => (nearestDouble (r.id : Rat), r.sample)
  samples : listStep store.samples e = some after.samples

/-- A call that inserts nothing and leaves the table as it is. -/
theorem Stepped.still {e : Call × Outcome} {after : SampleStore} (hnone : committedBy e = [])
    (hids : returnedBy e = []) (htable : after.table = store.table)
    (hsamples : listStep store.samples e = some after.samples) : Stepped store e after := by
  refine ⟨?_, by rw [htable, hnone]; rfl, ⟨[], List.nil_sublist _, by rw [hids]; rfl⟩, hsamples⟩
  rw [htable, hnone]
  show store.table.ordered <:+ store.table.ordered ++ []
  rw [List.append_nil]

/-- A prune, of which the list knows the result. -/
theorem Stepped.pruned {rounds : Nat} {e : Call × Outcome} (hnone : committedBy e = []) (hids : returnedBy e = [])
    (hsamples : listStep store.samples e = some (Store.pruneRounds rounds store.samples).2) :
    Stepped store e { store with table := (pruneRounds store.maxRows rounds store.table).2.2 } := by
  obtain ⟨hsuffix, hsequence⟩ := pruneRounds_suffix store.maxRows rounds store.table
  refine ⟨?_, by rw [hnone]; exact hsequence, ⟨[], List.nil_sublist _, by rw [hids]; rfl⟩, ?_⟩
  · rw [hnone]
    show _ <:+ store.table.ordered ++ []
    rw [List.append_nil]
    exact hsuffix
  · rw [hsamples, SampleStore.samples, pruneRounds_listed]
    rfl

theorem prune_samples (h : store.closed = false) : Store.prune store.samples =
    Store.pruneRounds (store.table.rows.length + 1) store.samples := by
  have hopen : store.samples.closed = false := h
  have hcount : Store.rowCount store.samples = store.table.rows.length := by
    show (store.table.ordered.map Row.sample).length = _
    rw [List.length_map, length_ordered]
  rw [Store.prune, hopen, hcount]
  rfl

/-- Samples that were inserted, one or a transaction of them. -/
theorem Stepped.inserted {samples : List Sample} {e : Call × Outcome} (hopen : store.closed = false)
    (hinsert : store.table.insertAll samples = some t) (hsome : committedBy e = samples)
    (hids : ∃ rows : List Row, rows.Sublist (numbered store.table.sequence samples) ∧
      returnedBy e = rows.map fun r => (nearestDouble (r.id : Rat), r.sample))
    (hstep : ∀ list, listStep list e = (Store.writeMany list samples).toOption) :
    Stepped store e { store with table := t } := by
  subst hsome
  obtain ⟨hrows, hsequence⟩ := Table.insertAll_spec hinsert
  refine ⟨?_, hsequence, hids, ?_⟩
  · show t.ordered <:+ _
    rw [hrows]
  · have hopen' : store.samples.closed = false := hopen
    rw [hstep, Store.writeMany_open hopen']
    show some (⟨store.maxRows, store.table.ordered.map Row.sample ++ _, store.closed⟩ : TimeseriesStore) =
      some ⟨store.maxRows, t.ordered.map Row.sample, store.closed⟩
    rw [hrows, List.map_append, map_sample_numbered]

theorem write_stepped (sample : Sample) (fault : Option JsError) :
    Stepped store (.write sample fault, (perform store (.write sample fault)).1)
      (perform store (.write sample fault)).2 := by
  have hthrown : ∀ fault e, Stepped store (.write sample fault, .thrown e) store := fun _ _ => .still rfl rfl rfl rfl
  simp only [perform, write]
  by_cases hclosed : store.closed = true
  · rw [if_pos hclosed]
    exact hthrown _ _
  rw [if_neg hclosed]
  cases fault with
  | some e => exact hthrown _ e
  | none =>
    cases hinsert : store.table.insert sample with
    | none => exact hthrown _ _
    | some table =>
      have hall : store.table.insertAll [sample] = some table := by
        rw [Table.insertAll, hinsert]
        rfl
      refine .inserted (by simpa using hclosed) hall rfl ⟨_, List.Sublist.refl _, ?_⟩ fun _ => rfl
      show [(nearestDouble (table.sequence : Rat), sample)] =
        [(nearestDouble ((store.table.sequence + 1 : Int) : Rat), sample)]
      rw [(Table.insert_spec hinsert).2]
      push_cast
      rfl

theorem writeMany_stepped (samples : List Sample) (fault : Option JsError) :
    Stepped store (.writeMany samples fault, (perform store (.writeMany samples fault)).1)
      (perform store (.writeMany samples fault)).2 := by
  have hthrown : ∀ fault e, Stepped store (.writeMany samples fault, .thrown e) store := fun _ _ => .still rfl rfl rfl rfl
  simp only [perform, writeMany]
  by_cases hclosed : store.closed = true
  · rw [if_pos hclosed]
    exact hthrown _ _
  have hopen : store.closed = false := by simpa using hclosed
  rw [if_neg hclosed]
  by_cases hnone : samples = []
  · subst hnone
    exact .inserted hopen rfl rfl ⟨[], List.nil_sublist _, rfl⟩ fun _ => rfl
  rw [if_neg hnone]
  cases fault with
  | some e => exact hthrown _ e
  | none =>
    cases hinsert : store.table.insertAll samples with
    | none => exact hthrown _ _
    | some table => exact .inserted hopen hinsert rfl ⟨[], List.nil_sublist _, rfl⟩ fun _ => rfl

/-- A prune that came to its end has deleted what the list says. -/
theorem Stepped.prunedAll {fault : Option (Nat × JsError)} {rounds : Nat} (hopen : store.closed = false)
    (hend : (pruneRounds store.maxRows rounds store.table).1 = true) :
    Stepped store (.prune fault, .deleted (pruneRounds store.maxRows rounds store.table).2.1)
      { store with table := (pruneRounds store.maxRows rounds store.table).2.2 } := by
  rw [pruneRounds_ended hend]
  refine .pruned rfl rfl ?_
  have hdeleted : (Store.pruneRounds (store.table.rows.length + 1) store.samples).1 =
      (pruneRounds store.maxRows (store.table.rows.length + 1) store.table).2.1 := by
    rw [SampleStore.samples, pruneRounds_listed]
  show (if (Store.prune store.samples).1 = _ then _ else _) = _
  rw [prune_samples hopen, if_pos hdeleted]

theorem prune_stepped (fault : Option (Nat × JsError)) :
    Stepped store (.prune fault, (perform store (.prune fault)).1) (perform store (.prune fault)).2 := by
  simp only [perform, prune]
  by_cases hclosed : store.closed = true
  · rw [if_pos hclosed]
    have hzero : Store.prune store.samples = (0, store.samples) := if_pos hclosed
    refine .still rfl rfl rfl ?_
    show (if (Store.prune store.samples).1 = 0 then _ else _) = _
    rw [hzero]
    rfl
  have hopen : store.closed = false := by simpa using hclosed
  rw [if_neg hclosed]
  cases fault with
  | none => exact .prunedAll hopen (pruneRounds_ends (Nat.lt_succ_self _))
  | some fault =>
    obtain ⟨rounds, e⟩ := fault
    simp only
    by_cases hend : (pruneRounds store.maxRows rounds store.table).1 = true
    · rw [if_pos hend]
      exact .prunedAll hopen hend
    · rw [if_neg hend]
      exact .pruned rfl rfl rfl

theorem perform_stepped (store : SampleStore) (call : Call) :
    Stepped store (call, (perform store call).1) (perform store call).2 := by
  cases call with
  | write sample fault => exact write_stepped sample fault
  | writeMany samples fault => exact writeMany_stepped samples fault
  | prune fault => exact prune_stepped fault
  | close => exact .still rfl rfl rfl rfl
  | construct maxRows => exact .still rfl rfl rfl rfl

/-! ## Whole lives -/

/-- Over any calls, whatever fails in them and however often the file is opened again:
the table is the end of a log that is only appended to, with the samples whose write
did not throw, in order and under consecutive ids; the ids that were returned
are those of the log; and the store of samples alone runs along. -/
theorem logged_run (store : SampleStore) (calls : List Call) :
    Logged store (run store calls).1 (run store calls).2 := by
  induction calls generalizing store with
  | nil =>
    refine ⟨?_, rfl, ⟨[], List.nil_sublist _, rfl⟩, rfl⟩
    show store.table.ordered <:+ store.table.ordered ++ []
    rw [List.append_nil]
  | cons call calls ih =>
    have hfirst := perform_stepped store call
    have hrest := ih (perform store call).2
    show Logged store ((call, (perform store call).1) :: (run (perform store call).2 calls).1)
      (run (perform store call).2 calls).2
    generalize (perform store call).1 = outcome at hfirst
    generalize (perform store call).2 = mid at hfirst hrest
    have hcommitted : committed ((call, outcome) :: (run mid calls).1) =
        committedBy (call, outcome) ++ committed (run mid calls).1 := List.flatMap_cons
    have hnumbered : numbered store.table.sequence (committed ((call, outcome) :: (run mid calls).1)) =
        numbered store.table.sequence (committedBy (call, outcome)) ++
          numbered mid.table.sequence (committed (run mid calls).1) := by
      rw [hcommitted, numbered_append, hfirst.sequence]
    refine ⟨?_, ?_, ?_, ?_⟩
    · rw [hnumbered, ← List.append_assoc]
      obtain ⟨gone, hgone⟩ := hfirst.log
      exact hrest.log.trans ⟨gone, by rw [← hgone, List.append_assoc]⟩
    · rw [hrest.sequence, hfirst.sequence, hcommitted, List.length_append, Nat.add_assoc]
    · obtain ⟨rows, hrows, heq⟩ := hfirst.ids
      obtain ⟨more, hmore, heq'⟩ := hrest.ids
      refine ⟨rows ++ more, by rw [hnumbered]; exact hrows.append hmore, ?_⟩
      rw [List.map_append, ← heq, ← heq']
      rfl
    · rw [exec_cons, hfirst.samples]
      exact hrest.samples

end Conductor.Timeseries.SampleTable
