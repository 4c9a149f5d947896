import Mathlib.Order.Lattice
import Mathlib.Data.List.Basic

/-! # The newest rows of a history

Rows with a key and a time. `latest` keeps, for every key, the rows that no row
of the key is newer than: several rows of one key stay when their times are
equal. When rows of one moment are added to a history that is not newer, the
question whether they alone are the newest has an exact answer. -/
namespace Conductor.Lib.Latest

variable {α κ τ γ : Type*} [DecidableEq κ] [LinearOrder τ] [DecidableEq γ]
variable (key : α → κ) (time : α → τ)

/-- No row of the same key is newer than `r`. -/
def isLatest (rows : List α) (r : α) : Bool :=
  rows.all fun q => !decide (key q = key r) || decide (time q ≤ time r)

/-- The rows without a newer one of their key, in the order of the history. -/
def latest (rows : List α) : List α := rows.filter (isLatest key time rows)

variable {key time}

theorem isLatest_iff {rows : List α} {r : α} :
    isLatest key time rows r = true ↔ ∀ q ∈ rows, key q = key r → time q ≤ time r := by
  simp [isLatest, imp_iff_not_or]

/-- A history that has a row with a property has a newest one. -/
theorem exists_newest (time : α → τ) {rows : List α} {p : α → Prop} (h : ∃ r ∈ rows, p r) :
    ∃ r ∈ rows, p r ∧ ∀ q ∈ rows, p q → time q ≤ time r := by
  induction rows with
  | nil =>
    obtain ⟨r, hr, -⟩ := h
    cases hr
  | cons a rows ih =>
    by_cases hrest : ∃ r ∈ rows, p r
    · obtain ⟨b, hb, hpb, hmax⟩ := ih hrest
      by_cases hab : p a ∧ time b < time a
      · refine ⟨a, by simp, hab.1, fun q hq hpq => ?_⟩
        rcases List.mem_cons.mp hq with rfl | hq
        · exact le_refl _
        · exact (hmax q hq hpq).trans hab.2.le
      · refine ⟨b, by simp [hb], hpb, fun q hq hpq => ?_⟩
        rcases List.mem_cons.mp hq with rfl | hq
        · exact not_lt.mp fun hlt => hab ⟨hpq, hlt⟩
        · exact hmax q hq hpq
    · obtain ⟨r, hr, hpr⟩ := h
      rcases List.mem_cons.mp hr with rfl | hr
      · refine ⟨r, by simp, hpr, fun q hq hpq => ?_⟩
        rcases List.mem_cons.mp hq with rfl | hq
        · exact le_refl _
        · exact absurd ⟨q, hq, hpq⟩ hrest
      · exact absurd ⟨r, hr, hpr⟩ hrest

/-- No history but the empty one is without a newest row. -/
theorem latest_eq_nil {rows : List α} : latest key time rows = [] ↔ rows = [] := by
  refine ⟨fun h => ?_, fun h => by rw [h]; rfl⟩
  by_contra hne
  obtain ⟨x, hx⟩ := List.exists_mem_of_ne_nil rows hne
  obtain ⟨r, hr, hkey, hmax⟩ := exists_newest time (p := fun r => key r = key x) ⟨x, hx, rfl⟩
  have hmem : r ∈ latest key time rows :=
    List.mem_filter.mpr ⟨hr, isLatest_iff.mpr fun q hq hsame => hmax q hq (hsame.trans hkey)⟩
  rw [h] at hmem
  cases hmem

section Write

variable {old new : List α} {now : τ}

/-- The rows of the present moment are all among the newest. -/
theorem latest_append (hold : ∀ r ∈ old, time r ≤ now) (hnew : ∀ r ∈ new, time r = now) :
    latest key time (old ++ new) = old.filter (isLatest key time (old ++ new)) ++ new := by
  rw [latest, List.filter_append]
  congr 1
  rw [List.filter_eq_self]
  intro r hr
  rw [isLatest_iff]
  intro q hq _
  rw [hnew r hr]
  rcases List.mem_append.mp hq with hq | hq
  · exact hold q hq
  · exact (hnew q hq).le

/-- An older row is superseded exactly when its key has a newer one. -/
theorem not_latest_iff {rows : List α} {r : α} :
    isLatest key time rows r = false ↔ ∃ q ∈ rows, key q = key r ∧ time r < time q := by
  rw [← Bool.not_eq_true, isLatest_iff]
  push Not
  rfl

theorem superseded_iff (hnew : ∀ r ∈ new, time r = now) :
    (∀ r ∈ old, isLatest key time (old ++ new) r = false) ↔
      ∀ r ∈ old, time r < now ∧ ∃ q ∈ new, key q = key r := by
  constructor
  · intro h r hr
    -- the newest old row of the key is superseded as well, so by a new one
    obtain ⟨top, htop, hkey, hmax⟩ := exists_newest time
      (p := fun q => key q = key r) ⟨r, hr, rfl⟩
    obtain ⟨q, hq, hqk, hlt⟩ := not_latest_iff.mp (h top htop)
    have hqr : key q = key r := hqk.trans hkey
    rcases List.mem_append.mp hq with hq | hq
    · exact absurd (hmax q hq hqr) (not_le.mpr hlt)
    · rw [hnew q hq] at hlt
      exact ⟨(hmax r hr rfl).trans_lt hlt, q, hq, hqr⟩
  · intro h r hr
    obtain ⟨hlt, q, hq, hqk⟩ := h r hr
    refine not_latest_iff.mpr ⟨q, by simp [hq], hqk, ?_⟩
    rw [hnew q hq]
    exact hlt

/-- In every class the newest rows are counted like the new ones, exactly when
each old row is superseded by a new one. -/
theorem count_latest_iff (cls : α → γ) (hold : ∀ r ∈ old, time r ≤ now)
    (hnew : ∀ r ∈ new, time r = now) :
    (∀ c, (latest key time (old ++ new)).countP (fun r => cls r = c) =
        new.countP (fun r => cls r = c)) ↔
      ∀ r ∈ old, time r < now ∧ ∃ q ∈ new, key q = key r := by
  rw [← superseded_iff hnew, latest_append hold hnew]
  simp only [List.countP_append, Nat.add_eq_right, List.countP_eq_zero, List.mem_filter,
    decide_eq_true_eq, and_imp]
  constructor
  · intro h r hr
    by_contra hl
    exact h (cls r) r hr (by simpa using hl) rfl
  · intro h c r hr hl
    rw [h r hr] at hl
    cases hl

end Write

section Ties

variable {rows : List α} {k : κ} {t : τ}

/-- The newest rows of a key are its rows of one time. -/
theorem count_latest (hmax : ∀ q ∈ rows, key q = k → time q ≤ t) (hmem : ∃ r ∈ rows, key r = k ∧ time r = t) :
    (latest key time rows).countP (fun r => key r = k) = rows.countP fun r => key r = k ∧ time r = t := by
  obtain ⟨top, htop, hkey, rfl⟩ := hmem
  rw [latest, List.countP_filter]
  refine List.countP_congr fun r hr => ?_
  simp only [Bool.and_eq_true, decide_eq_true_eq, isLatest_iff]
  refine and_congr_right fun hrk => ⟨fun hl => ?_, fun heq q hq hqr => ?_⟩
  · exact le_antisymm (hmax r hr hrk) (hl top htop (hkey.trans hrk.symm))
  · rw [heq]
    exact hmax q hq (hqr.trans hrk)

/-- Every key has one newest row, exactly when no key has two rows at its newest time. -/
theorem one_latest_iff :
    (∀ k, (latest key time rows).countP (fun r => key r = k) = if k ∈ rows.map key then 1 else 0) ↔
      ∀ k t, (∀ q ∈ rows, key q = k → time q ≤ t) → rows.countP (fun r => key r = k ∧ time r = t) ≤ 1 := by
  constructor
  · intro h k t hmax
    by_cases hmem : ∃ r ∈ rows, key r = k ∧ time r = t
    · rw [← count_latest hmax hmem, h k]
      split
      · exact le_refl _
      · exact Nat.zero_le _
    · refine (List.countP_eq_zero.mpr fun r hr hp => hmem ⟨r, hr, of_decide_eq_true hp⟩).trans_le (Nat.zero_le _)
  · intro h k
    split
    · rename_i hk
      obtain ⟨r, hr, hrk⟩ := List.mem_map.mp hk
      obtain ⟨top, htop, hkey, hmax⟩ := exists_newest time (p := fun q => key q = k) ⟨r, hr, hrk⟩
      rw [count_latest hmax ⟨top, htop, hkey, rfl⟩]
      refine le_antisymm (h k _ hmax) ?_
      exact List.countP_pos_iff.mpr ⟨top, htop, decide_eq_true ⟨hkey, rfl⟩⟩
    · rename_i hk
      refine List.countP_eq_zero.mpr fun r hr hp => hk ?_
      rw [← of_decide_eq_true hp]
      exact List.mem_map_of_mem (List.mem_of_mem_filter hr)

end Ties

end Conductor.Lib.Latest
