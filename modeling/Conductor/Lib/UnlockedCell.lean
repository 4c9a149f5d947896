import Mathlib.Data.List.Forall2
import Mathlib.Order.Monotone.Defs
import Conductor.Lib.Runs

/-! # A value that is changed without a lock

Writers take a snapshot of a shared value and write back what they make of it.
Values are ordered by how much of them is there, and every update adds. What
is owed is the value with every update that was written. It is kept in a whole
run exactly if each writer writes what it would have made of the value itself. -/
namespace Conductor.Lib.UnlockedCell
open Conductor.Lib.Runs

variable {α σ ε : Type*}

/-- A change that keeps what is there. -/
structure Update (α : Type*) [Preorder α] where
  apply : α → α
  monotone : Monotone apply
  adds : ∀ a, a ≤ apply a

structure Cell (α : Type*) where
  value : α
  owed : α
  /-- What the writers that have not written yet have read. -/
  snapshots : List α

section

variable [PartialOrder α]

/-- A step, and the condition under which it loses nothing. A read can deliver
less than there is. -/
inductive Move (c : Cell α) : Prop → Cell α → Prop
  | quiet {p : Prop} {snapshots : List α} (hp : p)
      (h : ∀ a ∈ snapshots, a ∈ c.snapshots ∨ a ≤ c.value) : Move c p ⟨c.value, c.owed, snapshots⟩
  | write {p : Prop} {a : α} {snapshots : List α} (u : Update α) (ha : a ∈ c.snapshots)
      (h : ∀ b ∈ snapshots, b ∈ c.snapshots) (hp : p ↔ u.apply a = u.apply c.value) :
      Move c p ⟨u.apply a, u.apply c.owed, snapshots⟩

/-- Nothing was lost, and the snapshots are of earlier values. -/
structure Intact (c : Cell α) : Prop where
  owed : c.owed = c.value
  old : ∀ a ∈ c.snapshots, a ≤ c.value

theorem Move.keep {c d : Cell α} {p : Prop} (h : Move c p d) (hp : p) (hc : Intact c) : Intact d := by
  cases h with
  | quiet _ hread =>
    refine ⟨hc.owed, fun a ha => ?_⟩
    rcases hread a ha with ha | ha
    · exact hc.old a ha
    · exact ha
  | write u _ hrest hiff =>
    have hsame := hiff.mp hp
    refine ⟨?_, fun b hb => ?_⟩
    · rw [hsame, hc.owed]
    · rw [hsame]
      exact le_trans (hc.old b (hrest b hb)) (u.adds c.value)

/-- Whoever writes something else from an earlier value writes less. -/
theorem Move.lose {c d : Cell α} {p : Prop} (h : Move c p d) (hp : ¬ p) (hc : Intact c) :
    ¬ d.owed ≤ d.value := by
  cases h with
  | quiet hp' _ => exact absurd hp' hp
  | write u ha _ hiff =>
    intro hle
    rw [hc.owed] at hle
    exact hp (hiff.mpr (le_antisymm (u.monotone (hc.old _ ha)) hle))

/-- What is owed is there in every state that a run visits if and only if its
steps meet the condition. -/
theorem owed_iff_along {step : σ → ε → Option σ} {view : σ → Cell α} {C : σ → ε → Prop}
    (moves : ∀ s e t, step s e = some t → Move (view s) (C s e) (view t)) {init : σ}
    (start : Intact (view init)) {es : List ε} {s : σ} (h : exec step init es = some s) :
    (∀ t, Visited step init es t → (view t).owed ≤ (view t).value) ↔ Along step C init es :=
  visited_iff_along (I := fun s => Intact (view s)) start
    (fun s e t ht hc hi => (moves s e t ht).keep hc hi) (fun _ hi => hi.owed.le)
    (fun s e t ht hi hc => (moves s e t ht).lose hc hi) h

end

/-! ## Lists of records -/

/-- Ordered by which records are there, each as it was or in a later version. -/
def Records (α : Type*) := List α

theorem eq_of_sublistForall₂ [PartialOrder α] {l m : List α}
    (h : List.SublistForall₂ (· ≤ ·) l m) (h' : List.SublistForall₂ (· ≤ ·) m l) : l = m := by
  obtain ⟨m', hm', hsub⟩ := List.sublistForall₂_iff.mp h
  obtain ⟨l', hl', hsub'⟩ := List.sublistForall₂_iff.mp h'
  have hm : m' = m := hsub.eq_of_length_le (by
    have := hsub'.length_le
    rw [← hl'.length_eq, ← hm'.length_eq] at *
    exact this)
  have hl : l' = l := hsub'.eq_of_length_le (by
    have := hsub.length_le
    rw [← hl'.length_eq, ← hm'.length_eq] at *
    exact this)
  rw [hm] at hm'
  rw [hl] at hl'
  clear h h' hsub hsub' hm hl
  induction hm' with
  | nil => rfl
  | cons hab _ ih =>
    cases hl' with
    | cons hba hl' => rw [le_antisymm hab hba, ih hl']

instance [PartialOrder α] : PartialOrder (Records α) where
  le l m := List.SublistForall₂ (· ≤ ·) (l : List α) m
  le_refl l := refl_of (List.SublistForall₂ (· ≤ · : α → α → Prop)) l
  le_trans _ _ _ := trans_of (List.SublistForall₂ (· ≤ · : α → α → Prop))
  le_antisymm _ _ := eq_of_sublistForall₂

section

variable [PartialOrder α]

theorem sublistForall₂_append {l m : List α} (h : List.SublistForall₂ (· ≤ ·) l m) (a : α) :
    List.SublistForall₂ (· ≤ ·) (l ++ [a]) (m ++ [a]) := by
  induction h with
  | @nil m => exact (List.sublist_append_right m [a]).sublistForall₂
  | cons hab _ ih => exact .cons hab ih
  | cons_right _ ih => exact .cons_right ih

theorem sublistForall₂_map {l m : List α} (h : List.SublistForall₂ (· ≤ ·) l m) {f : α → α}
    (hf : Monotone f) : List.SublistForall₂ (· ≤ ·) (l.map f) (m.map f) := by
  induction h with
  | nil => exact .nil
  | cons hab _ ih => exact .cons (hf hab) ih
  | cons_right _ ih => exact .cons_right ih

/-- One more record. -/
def Records.add (a : α) : Update (Records α) where
  apply := fun l : List α => l ++ [a]
  monotone _ _ h := sublistForall₂_append h a
  adds := fun l : List α => (List.sublist_append_left l [a]).sublistForall₂

/-- A later version of some records. -/
def Records.change (f : α → α) (hf : Monotone f) (hadds : ∀ a, a ≤ f a) : Update (Records α) where
  apply := fun l : List α => l.map f
  monotone _ _ h := sublistForall₂_map h hf
  adds := fun l : List α => by
    refine List.sublistForall₂_iff.mpr ⟨l.map f, ?_, List.Sublist.refl _⟩
    rw [List.forall₂_map_right_iff]
    exact List.forall₂_same.mpr fun a _ => hadds a

end

end Conductor.Lib.UnlockedCell
