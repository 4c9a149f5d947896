import Mathlib.Data.Finset.Card
import Conductor.Timeseries.Prometheus

/-! # One sample for each pid

`latestPerPid` joins the table with the newest time of each pid, so rows of one pid
that share this time all stay, and the metrics count each of them. -/
namespace Conductor.Timeseries.LatestTies
open Conductor.Lib.Latest Conductor.Js.Text Conductor.Js.Values Conductor.Sessions.Types
open Conductor.Timeseries.Store Conductor.Timeseries.Prometheus

/-! ## The total of the counts -/

section Weight

variable {κ β : Type*} [DecidableEq κ]

/-- The sum of a weight over the values of a map. -/
def weight (f : β → Nat) (m : AList fun _ : κ => β) : Nat := (m.entries.map fun e => f e.2).sum

theorem sum_kerase (f : β → Nat) (k : κ) (es : List (Sigma fun _ : κ => β)) :
    ((es.kerase k).map fun e => f e.2).sum + ((es.dlookup k).map f).getD 0 = (es.map fun e => f e.2).sum := by
  induction es with
  | nil => rfl
  | cons e es ih =>
    obtain ⟨k', v⟩ := e
    by_cases hk : k = k'
    · subst hk
      simp [Nat.add_comm]
    · rw [List.kerase_cons_ne hk, List.dlookup_cons_ne _ _ hk, List.map_cons, List.map_cons, List.sum_cons,
        List.sum_cons, Nat.add_assoc, ih]

/-- A new value takes the place of the old one. -/
theorem weight_insert (f : β → Nat) (m : AList fun _ : κ => β) (k : κ) (v : β) :
    weight f (m.insert k v) + ((m.lookup k).map f).getD 0 = weight f m + f v := by
  unfold weight
  rw [AList.entries_insert, List.map_cons, List.sum_cons, Nat.add_assoc]
  show f v + (_ + ((m.entries.dlookup k).map f).getD 0) = _
  rw [sum_kerase, Nat.add_comm]

end Weight

/-- The total of all counts. -/
def totalOf (matrix : Matrix) : Nat := weight (weight id) matrix

theorem weight_addCount (counts : StatusCounts) (status : RefinedStatus) :
    weight id (counts.insert status ((counts.lookup status).getD 0 + 1)) = weight id counts + 1 := by
  have h := weight_insert id counts status ((counts.lookup status).getD 0 + 1)
  rw [Option.map_id, id, id] at h
  omega

theorem totalOf_addSample (out : Matrix) (s : Sample) : totalOf (addSample out s) = totalOf out + 1 := by
  have h := weight_insert (weight id) out s.provider
    (((out.lookup s.provider).getD ∅).insert s.refinedStatus
      ((((out.lookup s.provider).getD ∅).lookup s.refinedStatus).getD 0 + 1))
  rw [weight_addCount] at h
  have hold : ((out.lookup s.provider).map (weight id)).getD 0 = weight id ((out.lookup s.provider).getD ∅) := by
    cases out.lookup s.provider with
    | none => rfl
    | some counts => rfl
  rw [hold] at h
  unfold totalOf addSample
  simp only
  omega

/-- Every sample is counted once. -/
theorem totalOf_aggregate (samples : List Sample) : totalOf (aggregateSessions samples) = samples.length := by
  unfold aggregateSessions
  induction samples using List.reverseRecOn with
  | nil => rfl
  | append_singleton samples s ih =>
    rw [List.foldl_concat, totalOf_addSample, ih, List.length_append, List.length_singleton]

/-! ## The calls -/

/-- Insert one sample. Nothing here reads the id that it returns. -/
def write (store : TimeseriesStore) (sample : Sample) : Except JsError TimeseriesStore :=
  if store.closed then throw (.error (js "TimeseriesStore is closed"))
  else return { store with rows := store.rows ++ [sample] }

inductive Call
  | write (sample : Sample)
  | writeMany (samples : List Sample)

def Call.run (store : TimeseriesStore) : Call → Except JsError TimeseriesStore
  | .write sample => LatestTies.write store sample
  | .writeMany samples => Store.writeMany store samples

def Call.samples : Call → List Sample
  | .write sample => [sample]
  | .writeMany samples => samples

theorem Call.run_open {store : TimeseriesStore} (h : store.closed = false) (call : Call) :
    call.run store = .ok { store with rows := store.rows ++ call.samples } := by
  cases call with
  | write sample =>
    show LatestTies.write store sample = _
    unfold LatestTies.write
    rw [h]
    rfl
  | writeMany samples => exact writeMany_open h samples

theorem run_rows {store : TimeseriesStore} (h : store.closed = false) (calls : List Call) :
    calls.foldlM Call.run store = .ok { store with rows := store.rows ++ calls.flatMap Call.samples } := by
  induction calls generalizing store with
  | nil => rw [List.flatMap_nil, List.append_nil]; rfl
  | cons call calls ih =>
    rw [List.foldlM_cons, call.run_open h, List.flatMap_cons, ← List.append_assoc]
    exact ih h

/-! ## Ties -/

/-- One sample for each pid of the table, and the newest. -/
structure OnePerPid (store : TimeseriesStore) : Prop where
  once : ∀ pid, (latestPerPid store).countP (fun s => s.pid = pid) = if pid ∈ store.rows.map Sample.pid then 1 else 0
  newest : ∀ s ∈ latestPerPid store, s ∈ store.rows ∧ ∀ q ∈ store.rows, q.pid = s.pid → q.ts ≤ s.ts
  total : totalOf (aggregateSessions (latestPerPid store)) = (store.rows.map Sample.pid).toFinset.card

/-- No pid has two rows with its largest time. -/
def NoTie (rows : List Sample) : Prop :=
  ∀ pid ts, (∀ q ∈ rows, q.pid = pid → q.ts ≤ ts) → rows.countP (fun s => s.pid = pid ∧ s.ts = ts) ≤ 1

theorem newest_of_mem {store : TimeseriesStore} {s : Sample} (h : s ∈ latestPerPid store) :
    s ∈ store.rows ∧ ∀ q ∈ store.rows, q.pid = s.pid → q.ts ≤ s.ts := by
  obtain ⟨hmem, hlatest⟩ := List.mem_filter.mp h
  exact ⟨hmem, isLatest_iff.mp hlatest⟩

theorem length_of_once {store : TimeseriesStore}
    (h : ∀ pid, (latestPerPid store).countP (fun s => s.pid = pid) =
      if pid ∈ store.rows.map Sample.pid then 1 else 0) :
    (latestPerPid store).length = (store.rows.map Sample.pid).toFinset.card := by
  have hcount : ∀ pid, ((latestPerPid store).map Sample.pid).count pid =
      if pid ∈ store.rows.map Sample.pid then 1 else 0 := by
    intro pid
    rw [← h pid, List.count, List.countP_map]
    refine List.countP_congr fun s _ => ?_
    simp
  have hnodup : ((latestPerPid store).map Sample.pid).Nodup := by
    rw [List.nodup_iff_count_le_one]
    intro pid
    rw [hcount]
    split
    · exact le_refl _
    · exact Nat.zero_le _
  have hsame : (store.rows.map Sample.pid).toFinset = ((latestPerPid store).map Sample.pid).toFinset := by
    ext pid
    rw [List.mem_toFinset, List.mem_toFinset, ← List.count_pos_iff (l := (latestPerPid store).map Sample.pid), hcount]
    split
    · simp [*]
    · simp [*]
  rw [hsame, List.toFinset_card_of_nodup hnodup, List.length_map]

theorem onePerPid_iff (store : TimeseriesStore) : OnePerPid store ↔ NoTie store.rows := by
  unfold NoTie
  rw [← one_latest_iff]
  constructor
  · intro h
    exact h.once
  · intro h
    refine ⟨h, fun s hs => newest_of_mem hs, ?_⟩
    rw [totalOf_aggregate, length_of_once h]

/-- Whatever is written to an open store, there is one sample for each pid when no pid has
two rows with its largest time. -/
theorem written_onePerPid_iff {store : TimeseriesStore} (h : store.closed = false) (calls : List Call) :
    ∃ after, calls.foldlM Call.run store = .ok after ∧
      after.rows = store.rows ++ calls.flatMap Call.samples ∧
      (OnePerPid after ↔ NoTie (store.rows ++ calls.flatMap Call.samples)) :=
  ⟨_, run_rows h calls, rfl, onePerPid_iff _⟩

def emptyStore : TimeseriesStore := ⟨DEFAULT_MAX_ROWS, [], false⟩

def sampleAt (pid ts : Int) : Sample := ⟨ts, js "aider", pid, .idle, none, none, none⟩

theorem written_onePerPid_newer : ∃ after,
    [Call.write (sampleAt 7 1000), .write (sampleAt 7 2000)].foldlM Call.run emptyStore = .ok after ∧
      OnePerPid after := by
  obtain ⟨after, hrun, -, hiff⟩ :=
    @written_onePerPid_iff emptyStore rfl [.write (sampleAt 7 1000), .write (sampleAt 7 2000)]
  refine ⟨after, hrun, hiff.mpr fun pid ts _ => ?_⟩
  by_cases hts : ts = 1000
  · subst hts
    simp [emptyStore, Call.samples, sampleAt, List.countP_cons]
    split <;> simp
  · simp [emptyStore, Call.samples, sampleAt, List.countP_cons, Ne.symm hts]
    split <;> simp

/-- Two samples of one pid and one moment are both the latest, and count twice. -/
theorem same_moment_twice : ∃ after,
    [Call.writeMany [sampleAt 7 1000, sampleAt 7 1000]].foldlM Call.run emptyStore = .ok after ∧
      (latestPerPid after).length = 2 ∧ totalOf (aggregateSessions (latestPerPid after)) = 2 ∧
      (after.rows.map Sample.pid).toFinset.card = 1 ∧ ¬ OnePerPid after := by
  have hrun : [Call.writeMany [sampleAt 7 1000, sampleAt 7 1000]].foldlM Call.run emptyStore =
    .ok { emptyStore with rows := [sampleAt 7 1000, sampleAt 7 1000] } := rfl
  refine ⟨_, hrun, by decide, by decide, by decide, fun h => ?_⟩
  have hcount := h.once 7
  revert hcount
  decide

end Conductor.Timeseries.LatestTies
