import Mathlib.Data.List.Basic

/-! # Records that end with a separator

A log is a list of records, each followed by a separator that occurs in none of
them. What stands after the last separator is not yet a record. -/
namespace Conductor.Lib.Framing

variable {α : Type*}

/-- The stream that holds the records. -/
def frame (sep : α) (rs : List (List α)) : List α := rs.flatMap fun r => r ++ [sep]

/-- The complete records of a stream. -/
def records [BEq α] (sep : α) (stream : List α) : List (List α) := (stream.splitOn sep).dropLast

theorem frame_append (sep : α) (rs ts : List (List α)) :
    frame sep (rs ++ ts) = frame sep rs ++ frame sep ts := by
  unfold frame
  rw [List.flatMap_append]

theorem frame_singleton (sep : α) (r : List α) : frame sep [r] = r ++ [sep] := by
  simp [frame]

theorem frame_ne_nil {sep : α} {rs : List (List α)} (h : frame sep rs ≠ []) : rs ≠ [] := by
  intro hr
  rw [hr] at h
  exact h rfl

variable [BEq α] [LawfulBEq α]

theorem records_of_not_mem {sep : α} {tail : List α} (h : sep ∉ tail) : records sep tail = [] := by
  rw [records, List.splitOn_eq_singleton h]
  rfl

theorem records_cons {sep : α} {r : List α} (h : sep ∉ r) (stream : List α) :
    records sep (r ++ sep :: stream) = r :: records sep stream := by
  unfold records
  rw [List.splitOn_append_cons_self_of_not_mem h]
  exact List.dropLast_cons_of_ne_nil (List.splitOn_ne_nil sep stream)

/-- Reading back: the records of a framed stream, also when a further record
has begun. -/
theorem records_frame_append {sep : α} {rs : List (List α)} {tail : List α}
    (hrs : ∀ r ∈ rs, sep ∉ r) (ht : sep ∉ tail) : records sep (frame sep rs ++ tail) = rs := by
  induction rs with
  | nil => exact records_of_not_mem ht
  | cons r rs ih =>
    have hr : sep ∉ r := hrs r (by simp)
    have hrest : ∀ r ∈ rs, sep ∉ r := fun r' h' => hrs r' (by simp [h'])
    have hshape : frame sep (r :: rs) ++ tail = r ++ sep :: (frame sep rs ++ tail) := by
      simp [frame]
    rw [hshape, records_cons hr, ih hrest]

theorem records_frame {sep : α} {rs : List (List α)} (hrs : ∀ r ∈ rs, sep ∉ r) :
    records sep (frame sep rs) = rs := by
  have h : records sep (frame sep rs ++ []) = rs := records_frame_append hrs (by simp)
  rwa [List.append_nil] at h

end Conductor.Lib.Framing
