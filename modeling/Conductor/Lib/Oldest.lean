import Mathlib.Order.Lattice
import Mathlib.Data.List.Nodup

/-! # Deleting the least of a list

Elements with a key that no two of them share, in any order. Deleting the `k`
elements with the least keys leaves the others as they were, and deleting in
several goes is deleting the sum at once. -/
namespace Conductor.Lib.Oldest

variable {α κ : Type*} [LinearOrder κ] (key : α → κ)

def byKey (l : List α) : List α := l.mergeSort fun a b => decide (key a ≤ key b)

/-- The `k` least keys. -/
def leastKeys (k : Nat) (l : List α) : List κ := ((byKey key l).take k).map key

/-- What is left when the elements with the `k` least keys are deleted. -/
def dropLeast (k : Nat) (l : List α) : List α := l.filter fun a => !decide (key a ∈ leastKeys key k l)

variable {key} {l : List α} {k : Nat} {a b : α}

theorem byKey_perm (l : List α) : (byKey key l).Perm l := List.mergeSort_perm _ _

theorem mem_byKey : a ∈ byKey key l ↔ a ∈ l := List.mem_mergeSort

theorem take_or_drop (ha : a ∈ l) (k : Nat) : a ∈ (byKey key l).take k ∨ a ∈ (byKey key l).drop k := by
  rw [← List.mem_append, List.take_append_drop]
  exact mem_byKey.mpr ha

theorem byKey_pairwise (l : List α) : (byKey key l).Pairwise fun a b => key a ≤ key b := by
  have htotal : ∀ a b : α, (decide (key a ≤ key b) || decide (key b ≤ key a)) = true := by
    intro a b
    simpa using le_total (key a) (key b)
  have htrans : ∀ a b c : α, decide (key a ≤ key b) = true → decide (key b ≤ key c) = true →
      decide (key a ≤ key c) = true := by
    intro a b c hab hbc
    exact decide_eq_true ((of_decide_eq_true hab).trans (of_decide_eq_true hbc))
  exact (List.pairwise_mergeSort htrans htotal l).imp of_decide_eq_true

theorem dropLeast_zero (l : List α) : dropLeast key 0 l = l :=
  List.filter_eq_self.mpr fun a _ => by simp [leastKeys]

theorem dropLeast_of_length_le (hk : l.length ≤ k) : dropLeast key k l = [] := by
  have hall : leastKeys key k l = (byKey key l).map key := by
    rw [leastKeys, List.take_of_length_le ((byKey_perm l).length_eq.trans_le hk)]
  refine List.filter_eq_nil_iff.mpr fun a ha => ?_
  rw [hall]
  simpa using ⟨a, mem_byKey.mpr ha, rfl⟩

section Distinct

variable (h : (l.map key).Nodup)
include h

theorem byKey_nodup : ((byKey key l).map key).Nodup := ((byKey_perm l).map key).nodup_iff.mpr h

/-- A list that is in order is the list by key. -/
theorem eq_byKey {m : List α} (hperm : m.Perm l) (hm : m.Pairwise fun a b => key a ≤ key b) :
    m = byKey key l := by
  refine List.Perm.eq_of_pairwise (fun a b ha hb hab hba => ?_) hm (byKey_pairwise l)
    (hperm.trans (byKey_perm l).symm)
  exact List.inj_on_of_nodup_map h (hperm.mem_iff.mp ha) (mem_byKey.mp hb) (le_antisymm hab hba)

theorem mem_dropLeast : a ∈ dropLeast key k l ↔ a ∈ (byKey key l).drop k := by
  have hsplit : ((byKey key l).take k ++ (byKey key l).drop k).map key |>.Nodup := by
    rw [List.take_append_drop]
    exact byKey_nodup h
  rw [List.map_append, List.nodup_append] at hsplit
  rw [dropLeast, leastKeys, List.mem_filter, Bool.not_eq_true', decide_eq_false_iff_not]
  constructor
  · intro ha
    obtain ⟨hmem, hnot⟩ := ha
    exact (take_or_drop hmem k).resolve_left fun htake => hnot (List.mem_map_of_mem htake)
  · intro ha
    refine ⟨mem_byKey.mp (List.mem_of_mem_drop ha), fun htake => ?_⟩
    exact hsplit.2.2 _ htake _ (List.mem_map_of_mem ha) rfl

theorem dropLeast_perm : (dropLeast key k l).Perm ((byKey key l).drop k) := by
  have hl : l.Nodup := List.Nodup.of_map key h
  have hdrop : ((byKey key l).drop k).Nodup :=
    (List.drop_sublist k _).nodup ((byKey_perm l).nodup_iff.mpr hl)
  exact (List.perm_ext_iff_of_nodup (hl.filter _) hdrop).mpr fun a => mem_dropLeast h

theorem length_dropLeast : (dropLeast key k l).length = l.length - k := by
  rw [(dropLeast_perm h).length_eq, List.length_drop, (byKey_perm l).length_eq]

theorem dropLeast_nodup : ((dropLeast key k l).map key).Nodup := (List.filter_sublist.map key).nodup h

theorem byKey_dropLeast : byKey key (dropLeast key k l) = (byKey key l).drop k :=
  (eq_byKey (dropLeast_nodup h) (dropLeast_perm h).symm
    ((byKey_pairwise l).sublist (List.drop_sublist k _))).symm

/-- Two deletions are one. -/
theorem dropLeast_dropLeast (j k : Nat) : dropLeast key k (dropLeast key j l) = dropLeast key (j + k) l := by
  have hmem : ∀ a, a ∈ dropLeast key k (dropLeast key j l) ↔ a ∈ dropLeast key (j + k) l := by
    intro a
    rw [mem_dropLeast (dropLeast_nodup h), byKey_dropLeast h, List.drop_drop, mem_dropLeast h]
  conv_lhs => unfold dropLeast
  rw [List.filter_filter, dropLeast]
  refine List.filter_congr fun a ha => ?_
  have hboth := hmem a
  simp only [dropLeast, List.mem_filter, ha, true_and] at hboth
  rw [Bool.eq_iff_iff, Bool.and_eq_true, ← hboth]
  exact and_comm

/-- Whatever is left has a greater key than whatever was deleted. -/
theorem key_lt_of_dropped (ha : a ∈ dropLeast key k l) (hb : b ∈ l) (hnot : b ∉ dropLeast key k l) :
    key b < key a := by
  rw [mem_dropLeast h] at ha hnot
  have htake : b ∈ (byKey key l).take k := (take_or_drop hb k).resolve_right hnot
  have hle : key b ≤ key a := by
    have hpair : ((byKey key l).take k ++ (byKey key l).drop k).Pairwise fun a b => key a ≤ key b := by
      rw [List.take_append_drop]
      exact byKey_pairwise l
    exact (List.pairwise_append.mp hpair).2.2 b htake a ha
  refine lt_of_le_of_ne hle fun heq => hnot ?_
  have hsame : b = a := List.inj_on_of_nodup_map (byKey_nodup h)
    (List.mem_of_mem_take htake) (List.mem_of_mem_drop ha) heq
  rw [hsame]
  exact ha

/-- In a list that is in order, the least are the first. -/
theorem dropLeast_of_pairwise (hl : l.Pairwise fun a b => key a ≤ key b) : dropLeast key k l = l.drop k := by
  calc dropLeast key k l
      = byKey key (dropLeast key k l) := eq_byKey (dropLeast_nodup h) (List.Perm.refl _) (hl.sublist List.filter_sublist)
    _ = (byKey key l).drop k := byKey_dropLeast h
    _ = l.drop k := by rw [← eq_byKey h (List.Perm.refl l) hl]

end Distinct

/-- An element with a key greater than all the others comes last. -/
theorem byKey_append_greatest (ha : ∀ b ∈ l, key b < key a) (hnodup : ((l ++ [a]).map key).Nodup) :
    byKey key (l ++ [a]) = byKey key l ++ [a] := by
  refine (eq_byKey hnodup ((byKey_perm l).append_right [a]) ?_).symm
  refine List.pairwise_append.mpr ⟨byKey_pairwise l, List.pairwise_singleton _ a, fun b hb c hc => ?_⟩
  rw [List.mem_singleton.mp hc]
  exact (ha b (mem_byKey.mp hb)).le

end Conductor.Lib.Oldest
