import Mathlib.Data.List.Basic

/-! # What comes first in a queue

A queue is served at its head and extended at its end. `Ahead P Q l`: the queue
has an element with `P` and none with `Q` before it, so serving the queue
reaches `P` before `Q`, whatever is added behind. -/
namespace Conductor.Lib.Queue

variable {α : Type*} {P Q : α → Prop} {l : List α}

def Ahead (P Q : α → Prop) (l : List α) : Prop :=
  ∃ before x after, l = before ++ x :: after ∧ P x ∧ ∀ y ∈ before, ¬ Q y

theorem Ahead.append (h : Ahead P Q l) (new : List α) : Ahead P Q (l ++ new) := by
  obtain ⟨before, x, after, rfl, hx, hbefore⟩ := h
  exact ⟨before, x, after ++ new, by simp, hx, hbefore⟩

/-- In a queue without `Q` every element is ahead of it. -/
theorem ahead_of_mem {x : α} (hx : x ∈ l) (hP : P x) (hQ : ∀ y ∈ l, ¬ Q y) : Ahead P Q l := by
  obtain ⟨before, after, rfl⟩ := List.append_of_mem hx
  exact ⟨before, x, after, rfl, hP, fun y hy => hQ y (by simp [hy])⟩

/-- What serving the head can do: it was the awaited element, or the awaited one is still ahead. -/
theorem Ahead.serve {x : α} (h : Ahead P Q (x :: l)) : P x ∨ ¬ Q x ∧ Ahead P Q l := by
  obtain ⟨before, y, after, hl, hy, hbefore⟩ := h
  cases before with
  | nil =>
    cases hl
    exact .inl hy
  | cons z before =>
    cases hl
    exact .inr ⟨hbefore x (by simp), before, y, after, rfl, hy,
      fun w hw => hbefore w (List.mem_cons_of_mem x hw)⟩

theorem Ahead.exists_mem (h : Ahead P Q l) : ∃ x ∈ l, P x := by
  obtain ⟨before, x, after, rfl, hx, -⟩ := h
  exact ⟨x, by simp, hx⟩

end Conductor.Lib.Queue
