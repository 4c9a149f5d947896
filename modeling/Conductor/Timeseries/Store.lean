import Conductor.Lib.Latest
import Conductor.Sessions.Types

/-! # The sample store

The table of samples in the order of its ids. A write appends, a prune deletes
from the front until the cap is met, and `latestPerPid` joins the table with the
newest time of each pid. -/
namespace Conductor.Timeseries.Store
open Conductor.Lib.Latest Conductor.Js.Text Conductor.Js.Values Conductor.Sessions.Types

structure Sample where
  ts : Int
  provider : JsString
  pid : Int
  refinedStatus : RefinedStatus
  turnCount : Option Int
  toolCount : Option Int
  lastWriteAge : Option Int
  deriving DecidableEq

def DEFAULT_MAX_ROWS : Int := 100000
def PRUNE_BATCH : Int := 1000

structure TimeseriesStore where
  maxRows : Int
  rows : List Sample
  closed : Bool
  deriving DecidableEq

def rowCount (store : TimeseriesStore) : Nat := store.rows.length

/-- Nothing is written to a closed store. -/
def writeMany (store : TimeseriesStore) (samples : List Sample) : Except JsError TimeseriesStore :=
  if store.closed then throw (.error (js "TimeseriesStore is closed"))
  else return { store with rows := store.rows ++ samples }

/-- `DELETE` of the oldest rows, at most `batch` of them. -/
def pruneStmt (store : TimeseriesStore) (batch : Int) : TimeseriesStore :=
  { store with rows := store.rows.drop batch.toNat }

/-- At most so many rounds of the loop of `prune`, and how many rows they deleted. -/
def pruneRounds : Nat → TimeseriesStore → Nat × TimeseriesStore
  | 0, store => (0, store)
  | fuel + 1, store =>
    let count := rowCount store
    if (count : Int) ≤ store.maxRows then (0, store)
    else
      let left := pruneStmt store (min PRUNE_BATCH (count - store.maxRows))
      let changes := count - rowCount left
      if changes = 0 then (0, left)
      else
        let rest := pruneRounds fuel left
        (changes + rest.1, rest.2)

/-- Every round but the last deletes a row, so there are no more rounds than rows and one. -/
def prune (store : TimeseriesStore) : Nat × TimeseriesStore :=
  if store.closed then (0, store) else pruneRounds (rowCount store + 1) store

def latestPerPid (store : TimeseriesStore) : List Sample :=
  latest Sample.pid Sample.ts store.rows

/-- How many rows are over the cap. -/
def overCap (store : TimeseriesStore) : Nat := ((rowCount store : Int) - store.maxRows).toNat

theorem writeMany_open {store : TimeseriesStore} (h : store.closed = false) (samples : List Sample) :
    writeMany store samples = .ok { store with rows := store.rows ++ samples } := by
  unfold writeMany
  rw [h]
  rfl

theorem rowCount_pruneStmt (store : TimeseriesStore) (batch : Int) :
    rowCount (pruneStmt store batch) = rowCount store - batch.toNat := List.length_drop

/-- One round deletes up to a batch of the rows over the cap. -/
theorem overCap_pruneStmt {store : TimeseriesStore} {batch : Int}
    (h : batch.toNat ≤ rowCount store) :
    overCap (pruneStmt store batch) = overCap store - batch.toNat := by
  unfold overCap
  rw [rowCount_pruneStmt]
  show ((rowCount store - batch.toNat : Nat) - store.maxRows).toNat = _
  omega

theorem pruneRounds_eq {fuel : Nat} {store : TimeseriesStore} (h : rowCount store < fuel) :
    (pruneRounds fuel store).2 = { store with rows := store.rows.drop (overCap store) } := by
  induction fuel generalizing store with
  | zero => omega
  | succ fuel ih =>
    have hbatch : 0 < PRUNE_BATCH := by decide
    unfold pruneRounds
    simp only
    split
    · rename_i hcap
      have hzero : overCap store = 0 := by
        unfold overCap
        omega
      rw [hzero, List.drop_zero]
    · rename_i hcap
      -- a round that deletes nothing found an empty table
      split
      · rename_i hnone
        rw [rowCount_pruneStmt] at hnone
        have hempty : store.rows = [] := List.length_eq_zero_iff.mp (by unfold rowCount at *; omega)
        unfold pruneStmt
        rw [hempty, List.drop_nil, List.drop_nil]
      · rename_i hsome
        rw [rowCount_pruneStmt] at hsome
        show (pruneRounds fuel _).2 = _
        rw [ih (by rw [rowCount_pruneStmt]; omega)]
        unfold pruneStmt
        simp only [List.drop_drop]
        by_cases hall : (min PRUNE_BATCH (rowCount store - store.maxRows)).toNat ≤ rowCount store
        · have hleft := overCap_pruneStmt hall
          unfold pruneStmt at hleft
          rw [hleft]
          congr 2
          unfold overCap
          omega
        · -- the batch is more than the whole table
          have hover : store.rows.length ≤ overCap store := by
            unfold overCap
            unfold rowCount at *
            omega
          have hbatch' : store.rows.length ≤ (min PRUNE_BATCH (rowCount store - store.maxRows)).toNat := by
            unfold rowCount at *
            omega
          rw [List.drop_eq_nil_of_le hover, List.drop_eq_nil_of_le (hbatch'.trans (Nat.le_add_right _ _))]

/-- The loop ends with exactly the newest rows up to the cap. -/
theorem prune_open {store : TimeseriesStore} (h : store.closed = false) :
    (prune store).2 = { store with rows := store.rows.drop (overCap store) } := by
  unfold prune
  rw [if_neg (by rw [h]; exact Bool.false_ne_true)]
  exact pruneRounds_eq (Nat.lt_succ_self _)

/-- The rows of the store that the cap leaves when `n` more are written. -/
def keptBeside (store : TimeseriesStore) (n : Nat) : List Sample :=
  store.rows.drop ((rowCount store + n : Int) - store.maxRows).toNat

/-- After a batch that fits the cap the store holds the batch behind the newest old rows. -/
theorem prune_write_rows {store : TimeseriesStore} {samples : List Sample}
    (hopen : store.closed = false) (hfit : (samples.length : Int) ≤ store.maxRows) :
    (prune { store with rows := store.rows ++ samples }).2.rows =
      keptBeside store samples.length ++ samples := by
  have hover : overCap { store with rows := store.rows ++ samples } =
      ((rowCount store + samples.length : Int) - store.maxRows).toNat := by
    unfold overCap rowCount
    rw [List.length_append]
    rfl
  have hlen : ((rowCount store + samples.length : Int) - store.maxRows).toNat ≤ store.rows.length := by
    unfold rowCount
    omega
  have hopen' : ({ store with rows := store.rows ++ samples } : TimeseriesStore).closed = false := hopen
  rw [prune_open hopen', hover]
  exact List.drop_append_of_le_length hlen

end Conductor.Timeseries.Store
