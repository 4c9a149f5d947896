import Mathlib.Data.List.Nodup
import Mathlib.Data.List.Perm.Basic

/-! # Rows kept by several filters

Each filter keeps some of the rows, and what they keep is put together, filter
after filter. A key is repeated in the result when a row passes two filters, or
when two rows of that key pass one each. -/
namespace Conductor.Lib.Merge

variable {α κ : Type*} (key : α → κ) (filters : List (α → Bool))

/-- The keys of what each filter keeps. -/
def merged (rows : List α) : List κ := filters.flatMap fun f => (rows.filter f).map key

/-- How many filters keep the row. -/
def keptBy (r : α) : Nat := filters.countP fun f => f r

/-- No row passes two filters, and of two rows with one key at most one passes any. -/
structure KeptOnce (rows : List α) : Prop where
  row : ∀ r ∈ rows, keptBy filters r ≤ 1
  key : rows.Pairwise fun r q => key r = key q → keptBy filters r = 0 ∨ keptBy filters q = 0

variable {key filters}

theorem keptBy_pos {r : α} : 0 < keptBy filters r ↔ ∃ f ∈ filters, f r = true := by
  unfold keptBy
  rw [List.countP_pos_iff]

theorem mem_merged {rows : List α} {k : κ} :
    k ∈ merged key filters rows ↔ ∃ r ∈ rows, key r = k ∧ 0 < keptBy filters r := by
  unfold merged
  simp only [List.mem_flatMap, List.mem_map, List.mem_filter, keptBy_pos]
  constructor
  · intro h
    obtain ⟨f, hf, r, ⟨hr, hkeep⟩, hk⟩ := h
    exact ⟨r, hr, hk, f, hf, hkeep⟩
  · intro h
    obtain ⟨r, hr, hk, f, hf, hkeep⟩ := h
    exact ⟨f, hf, r, ⟨hr, hkeep⟩, hk⟩

/-- A row contributes its key once for every filter that keeps it. -/
theorem merged_cons_perm (r : α) (rows : List α) :
    (merged key filters (r :: rows)).Perm
      (List.replicate (keptBy filters r) (key r) ++ merged key filters rows) := by
  induction filters with
  | nil => exact List.Perm.refl _
  | cons f fs ih =>
    have hrest : merged key (f :: fs) rows = (rows.filter f).map key ++ merged key fs rows := rfl
    have hhead : merged key (f :: fs) (r :: rows) =
        ((r :: rows).filter f).map key ++ merged key fs (r :: rows) := rfl
    rw [hhead, hrest, List.filter_cons]
    cases hf : f r with
    | true =>
      have hcount : keptBy (f :: fs) r = keptBy fs r + 1 := List.countP_cons_of_pos hf
      rw [if_pos rfl, hcount, List.replicate_succ, List.map_cons, List.cons_append, List.cons_append]
      refine List.Perm.cons _ ((ih.append_left _).trans ?_)
      rw [← List.append_assoc, ← List.append_assoc]
      exact List.perm_append_comm.append_right _
    | false =>
      have hcount : keptBy (f :: fs) r = keptBy fs r := List.countP_cons_of_neg (by simp [hf])
      rw [if_neg Bool.false_ne_true, hcount]
      refine (ih.append_left _).trans ?_
      rw [← List.append_assoc, ← List.append_assoc]
      exact List.perm_append_comm.append_right _

/-- No key is repeated exactly when every one is kept once. -/
theorem merged_nodup_iff {rows : List α} :
    (merged key filters rows).Nodup ↔ KeptOnce key filters rows := by
  induction rows with
  | nil =>
    have hnil : merged key filters ([] : List α) = [] := by simp [merged]
    rw [hnil]
    exact ⟨fun _ => ⟨fun r hr => (by cases hr), List.Pairwise.nil⟩, fun _ => List.nodup_nil⟩
  | cons r rows ih =>
    rw [(merged_cons_perm r rows).nodup_iff, List.nodup_append, List.nodup_replicate, ih]
    constructor
    · intro h
      obtain ⟨hone, hrest, hapart⟩ := h
      refine ⟨fun q hq => ?_, List.pairwise_cons.mpr ⟨fun q hq hkey => ?_, hrest.key⟩⟩
      · rcases List.mem_cons.mp hq with rfl | hq
        · exact hone
        · exact hrest.row q hq
      · by_contra hboth
        rw [not_or] at hboth
        refine hapart (key r) (List.mem_replicate.mpr ⟨hboth.1, rfl⟩) (key r) ?_ rfl
        exact mem_merged.mpr ⟨q, hq, hkey.symm, Nat.pos_of_ne_zero hboth.2⟩
    · intro h
      obtain ⟨hapart, hrest⟩ := List.pairwise_cons.mp h.key
      refine ⟨h.row r List.mem_cons_self, ⟨fun q hq => h.row q (List.mem_cons_of_mem r hq), hrest⟩, ?_⟩
      intro k hk k' hk' heq
      obtain ⟨hkept, rfl⟩ := List.mem_replicate.mp hk
      obtain ⟨q, hq, hkey, hpos⟩ := mem_merged.mp hk'
      rcases hapart q hq (heq.trans hkey.symm) with hzero | hzero
      · exact hkept hzero
      · exact Nat.ne_of_gt hpos hzero

end Conductor.Lib.Merge
