import Conductor.Lib.Oldest
import Conductor.Timeseries.Store

/-! # The loop of `prune`, row by row

The table of samples with the ids of its rows, in any order. `prune` counts the
rows, deletes a batch of the oldest and counts again, until the cap is met or
nothing was deleted; it always comes to an end, and the batches add up to one
deletion of everything over the cap. -/
namespace Conductor.Timeseries.PruneLoop
open Conductor.Lib.Oldest Conductor.Timeseries.Store

structure Row where
  id : Int
  sample : Sample
  deriving DecidableEq

/-- The ids are the primary key. -/
structure SamplesTable where
  rows : List Row
  primaryKey : (rows.map Row.id).Nodup

/-- `LIMIT n`; a negative one is no limit. -/
def limit (n : Int) (rows : List Row) : Nat := if n < 0 then rows.length else n.toNat

/-- `DELETE FROM samples WHERE id IN (SELECT id FROM samples ORDER BY id ASC LIMIT @batch)`. -/
def pruneStmt (rows : List Row) (batch : Int) : List Row := dropLeast Row.id (limit batch rows) rows

/-- `while (true)`, as far as `fuel` rounds take it. -/
def pruneLoop (maxRows : Int) : Nat → List Row → Nat → Option (Nat × List Row)
  | 0, _, _ => none
  | fuel + 1, rows, total =>
    let count := rows.length
    if (count : Int) ≤ maxRows then some (total, rows)
    else
      let overCount := (count : Int) - maxRows
      let batch := min PRUNE_BATCH overCount
      let left := pruneStmt rows batch
      let changes := count - left.length
      if changes = 0 then some (total + changes, left) else pruneLoop maxRows fuel left (total + changes)

/-- The same without batches: everything over the cap in one statement. -/
def pruneAtOnce (maxRows : Int) (rows : List Row) : Nat × List Row :=
  let overCount := (rows.length : Int) - maxRows
  if overCount ≤ 0 then (0, rows)
  else
    let left := pruneStmt rows overCount
    (rows.length - left.length, left)

/-- What is deleted and what is left. -/
structure Pruned (maxRows : Int) (rows : List Row) (deleted : Nat) (left : List Row) : Prop where
  total : (deleted : Int) = max 0 ((rows.length : Int) - max 0 maxRows)
  length : (left.length : Int) = min (rows.length : Int) (max 0 maxRows)
  unchanged : left.Sublist rows
  newest : ∀ r ∈ left, ∀ d ∈ rows, d ∉ left → d.id < r.id
  atOnce : (deleted, left) = pruneAtOnce maxRows rows

variable {maxRows : Int} {rows : List Row} {fuel total : Nat}

def overCap (maxRows : Int) (rows : List Row) : Nat := ((rows.length : Int) - maxRows).toNat

theorem pruneStmt_of_pos {batch : Int} (h : 0 < batch) :
    pruneStmt rows batch = dropLeast Row.id batch.toNat rows := by
  rw [pruneStmt, limit, if_neg (not_lt.mpr h.le)]

section PrimaryKey

variable (h : (rows.map Row.id).Nodup)
include h

theorem pruneAtOnce_eq : pruneAtOnce maxRows rows =
    (min (overCap maxRows rows) rows.length, dropLeast Row.id (overCap maxRows rows) rows) := by
  unfold pruneAtOnce
  simp only
  split
  · rename_i hcap
    have hzero : overCap maxRows rows = 0 := Int.toNat_of_nonpos hcap
    rw [hzero, dropLeast_zero, Nat.zero_min]
  · rename_i hcap
    rw [pruneStmt_of_pos (not_le.mp hcap), length_dropLeast h]
    congr 1
    unfold overCap
    omega

/-- The rounds that are still to come delete what is over the cap. -/
theorem pruneLoop_eq (hfuel : rows.length < fuel) : pruneLoop maxRows fuel rows total =
    some (total + (pruneAtOnce maxRows rows).1, (pruneAtOnce maxRows rows).2) := by
  induction fuel generalizing rows total with
  | zero => omega
  | succ fuel ih =>
    rw [pruneAtOnce_eq h]
    unfold pruneLoop
    simp only
    split
    · rename_i hcap
      have hzero : overCap maxRows rows = 0 := Int.toNat_of_nonpos (by omega)
      rw [hzero, dropLeast_zero, Nat.zero_min, Nat.add_zero]
    · rename_i hcap
      have hpos : 0 < min PRUNE_BATCH ((rows.length : Int) - maxRows) := by
        have hbatch : 0 < PRUNE_BATCH := by decide
        omega
      rw [pruneStmt_of_pos hpos, length_dropLeast h]
      generalize hb : (min PRUNE_BATCH ((rows.length : Int) - maxRows)).toNat = b
      have hover : b ≤ overCap maxRows rows := by
        unfold overCap
        omega
      split
      · rename_i hnone
        -- a round that deletes nothing found an empty table
        have hempty : rows = [] := List.length_eq_zero_iff.mp (by omega)
        rw [hempty, dropLeast_of_length_le (Nat.zero_le _), dropLeast_of_length_le (Nat.zero_le _)]
        simp
      · rename_i hsome
        rw [ih (dropLeast_nodup h) (by rw [length_dropLeast h]; omega), pruneAtOnce_eq (dropLeast_nodup h),
          length_dropLeast h]
        by_cases hall : b ≤ rows.length
        · have hleft : overCap maxRows (dropLeast Row.id b rows) = overCap maxRows rows - b := by
            unfold overCap
            rw [length_dropLeast h]
            omega
          rw [hleft, dropLeast_dropLeast h, Nat.add_sub_cancel' hover]
          congr 2
          omega
        · -- the batch is more than the whole table
          have hgone : dropLeast Row.id b rows = [] := dropLeast_of_length_le (by omega)
          have hgone' : dropLeast Row.id (overCap maxRows rows) rows = [] := dropLeast_of_length_le (by omega)
          rw [hgone, hgone', dropLeast_of_length_le (Nat.zero_le _)]
          congr 2
          omega

theorem pruned_atOnce : Pruned maxRows rows (pruneAtOnce maxRows rows).1 (pruneAtOnce maxRows rows).2 := by
  refine ⟨?_, ?_, ?_, ?_, rfl⟩
  · rw [pruneAtOnce_eq h]
    simp only [overCap]
    omega
  · rw [pruneAtOnce_eq h]
    simp only
    rw [length_dropLeast h]
    unfold overCap
    omega
  · rw [pruneAtOnce_eq h]
    exact List.filter_sublist
  · rw [pruneAtOnce_eq h]
    exact fun r hr d hd hnot => key_lt_of_dropped h hr hd hnot

end PrimaryKey

/-! ## The samples in the order of the ids -/

/-- The store that keeps the samples alone, oldest first, goes through the same rounds. -/
theorem pruneLoop_sorted {left : List Row} {deleted : Nat} {closed : Bool} (h : (rows.map Row.id).Nodup)
    (hsorted : rows.Pairwise fun a b => a.id ≤ b.id)
    (hrun : pruneLoop maxRows fuel rows total = some (deleted, left)) :
    deleted = total + (pruneRounds fuel ⟨maxRows, rows.map Row.sample, closed⟩).1 ∧
      ⟨maxRows, left.map Row.sample, closed⟩ = (pruneRounds fuel ⟨maxRows, rows.map Row.sample, closed⟩).2 := by
  induction fuel generalizing rows total with
  | zero => cases hrun
  | succ fuel ih =>
    have hcount : rowCount ⟨maxRows, rows.map Row.sample, closed⟩ = rows.length := List.length_map _
    unfold pruneLoop at hrun
    unfold pruneRounds
    simp only [hcount] at hrun ⊢
    split at hrun
    · rename_i hcap
      cases hrun
      rw [if_pos hcap]
      exact ⟨rfl, rfl⟩
    · rename_i hcap
      have hpos : 0 < min PRUNE_BATCH ((rows.length : Int) - maxRows) := by
        have hbatch : 0 < PRUNE_BATCH := by decide
        omega
      rw [if_neg hcap]
      rw [pruneStmt_of_pos hpos, dropLeast_of_pairwise h hsorted] at hrun
      simp only [Store.pruneStmt, rowCount, List.length_drop, List.length_map, ← List.map_drop] at hrun ⊢
      split at hrun
      · rename_i hnone
        cases hrun
        rw [if_pos hnone]
        exact ⟨by omega, rfl⟩
      · rename_i hsome
        rw [if_neg hsome]
        have hdrop := List.drop_sublist (min PRUNE_BATCH ((rows.length : Int) - maxRows)).toNat rows
        obtain ⟨hdeleted, hleft⟩ := ih ((hdrop.map Row.id).nodup h) (hsorted.sublist hdrop) hrun
        exact ⟨by omega, hleft⟩

/-- Pruning the store deletes the same samples. -/
theorem prune_sorted (table : SamplesTable) (hsorted : table.rows.Pairwise fun a b => a.id ≤ b.id) :
    ∃ left, Pruned maxRows table.rows (prune ⟨maxRows, table.rows.map Row.sample, false⟩).1 left ∧
      (prune ⟨maxRows, table.rows.map Row.sample, false⟩).2 = ⟨maxRows, left.map Row.sample, false⟩ := by
  have hloop := @pruneLoop_eq maxRows table.rows _ 0 table.primaryKey (Nat.lt_succ_self _)
  have hprune : prune ⟨maxRows, table.rows.map Row.sample, false⟩ =
      pruneRounds (table.rows.length + 1) ⟨maxRows, table.rows.map Row.sample, false⟩ := by
    unfold prune rowCount
    rw [List.length_map]
    rfl
  obtain ⟨hdeleted, hleft⟩ := pruneLoop_sorted table.primaryKey hsorted hloop
  rw [Nat.zero_add, Nat.zero_add] at hdeleted
  rw [hprune, ← hdeleted]
  exact ⟨_, pruned_atOnce table.primaryKey, hleft.symm⟩

/-! ## Any table -/

/-- With as many rounds as rows and one more, the loop has ended; it deletes what is over the
cap, and never more than there is. -/
theorem prune_ends (table : SamplesTable) (maxRows : Int) : ∃ deleted left,
    (∀ fuel, table.rows.length < fuel → pruneLoop maxRows fuel table.rows 0 = some (deleted, left)) ∧
      Pruned maxRows table.rows deleted left := by
  refine ⟨_, _, fun fuel hfuel => ?_, pruned_atOnce table.primaryKey⟩
  rw [pruneLoop_eq table.primaryKey hfuel, Nat.zero_add]

end Conductor.Timeseries.PruneLoop
