import Mathlib.Data.List.DropRight
import Mathlib.Data.List.Forall2

/-! # Columns of text

Lines of cells that are filled up to the widths of their columns and joined by a
separator, under a rule that shows where the columns meet. Whatever stands in the cells,
separators too, a reader that takes the widths from the rule cuts every line
into its cells again, up to what was filled in. -/
namespace Conductor.Lib.Columns

variable {α : Type*} {fill dash joint : α} {sep : List α} {widths : List Nat} {cells : List (List α)}

/-- A cell that is filled up to a width. -/
def padEnd (fill : α) (w : Nat) (cell : List α) : List α := cell ++ List.replicate (w - cell.length) fill

def rowLine (fill : α) (sep : List α) (widths : List Nat) (cells : List (List α)) : List α :=
  sep.intercalate (List.zipWith (padEnd fill) widths cells)

def rule (dash joint : α) (widths : List Nat) : List α :=
  [dash, joint, dash].intercalate (widths.map fun w => List.replicate w dash)

/-! ## The reader -/

/-- Every joint has a dash on both sides; the ends of the line have none. -/
def widthsOf [BEq α] (dash joint : α) (line : List α) : List Nat :=
  ((dash :: line ++ [dash]).splitOn joint).map fun part => part.length - 2

/-- The parts of the given widths, with gaps between them. -/
def cutAt (gap : Nat) : List Nat → List α → List (List α)
  | [], _ => []
  | w :: ws, line => line.take w :: cutAt gap ws (line.drop (w + gap))

/-- A cell without what it could have been filled up with. -/
def strip [DecidableEq α] (fill : α) (cell : List α) : List α := cell.rdropWhile fun a => decide (a = fill)

def readLine [DecidableEq α] (fill : α) (gap : Nat) (widths : List Nat) (line : List α) : List (List α) :=
  (cutAt gap widths line).map (strip fill)

/-! ## Reading back -/

theorem length_padEnd {w : Nat} {cell : List α} (h : cell.length ≤ w) : (padEnd fill w cell).length = w := by
  rw [padEnd, List.length_append, List.length_replicate]
  omega

theorem mem_padEnd {w : Nat} {cell : List α} {a : α} (h : a ∈ padEnd fill w cell) : a ∈ cell ∨ a = fill := by
  rcases List.mem_append.mp h with h | h
  · exact .inl h
  · exact .inr (List.eq_of_mem_replicate h)

theorem strip_padEnd [DecidableEq α] (w : Nat) (cell : List α) : strip fill (padEnd fill w cell) = strip fill cell := by
  have hfill : ∀ n, strip fill (cell ++ List.replicate n fill) = strip fill cell := by
    intro n
    induction n with
    | zero => rw [List.replicate_zero, List.append_nil]
    | succ n ih =>
      rw [List.replicate_succ', ← List.append_assoc, strip, List.rdropWhile_concat_pos _ _ _ (by simp)]
      exact ih
  exact hfill _

/-- The dashes at the ends belong to the outer columns. -/
theorem dashes_rule (w : Nat) (ws : List Nat) : dash :: rule dash joint (w :: ws) ++ [dash] =
    [joint].intercalate ((w :: ws).map fun w => List.replicate (w + 2) dash) := by
  induction ws generalizing w with
  | nil =>
    show dash :: [dash, joint, dash].intercalate [List.replicate w dash] ++ [dash] =
      [joint].intercalate [List.replicate (w + 2) dash]
    rw [List.intercalate_singleton, List.intercalate_singleton, List.replicate_succ, List.replicate_succ']
    rfl
  | cons w' ws ih =>
    have hline : rule dash joint (w :: w' :: ws) =
        List.replicate w dash ++ [dash, joint, dash] ++ rule dash joint (w' :: ws) := by
      rw [rule, List.map_cons, List.map_cons, List.intercalate_cons_cons]
      rfl
    have hrest := ih w'
    rw [List.map_cons] at hrest
    rw [List.map_cons, List.map_cons, List.intercalate_cons_cons, ← hrest, hline, List.replicate_succ,
      List.replicate_succ']
    simp only [List.cons_append, List.append_assoc, List.nil_append]

/-- The widths are read off the rule. -/
theorem widthsOf_rule [DecidableEq α] (h : dash ≠ joint) (hw : widths ≠ []) :
    widthsOf dash joint (rule dash joint widths) = widths := by
  obtain ⟨w, ws, rfl⟩ := List.exists_cons_of_ne_nil hw
  have hparts : ∀ l ∈ (w :: ws).map fun w => List.replicate (w + 2) dash, joint ∉ l := by
    intro l hl hmem
    obtain ⟨w', -, rfl⟩ := List.mem_map.mp hl
    exact h (List.eq_of_mem_replicate hmem).symm
  rw [widthsOf, dashes_rule, List.splitOn_intercalate joint hparts (by simp), List.map_map]
  refine (List.map_congr_left fun w' _ => ?_).trans (List.map_id _)
  show (List.replicate (w' + 2) dash).length - 2 = w'
  rw [List.length_replicate, Nat.add_sub_cancel]

/-- Cells as wide as their columns are cut apart again. -/
theorem cutAt_intercalate (h : List.Forall₂ (fun w cell => cell.length = w) widths cells) :
    cutAt sep.length widths (sep.intercalate cells) = cells := by
  induction h with
  | nil => rfl
  | @cons w cell ws rest hcell hrest ih =>
    cases hrest with
    | nil => rw [cutAt, List.intercalate_singleton, List.take_of_length_le hcell.le, cutAt]
    | @cons w' cell' ws' rest' hcell' hrest' =>
      have hdrop : (cell ++ (sep ++ sep.intercalate (cell' :: rest'))).drop (w + sep.length) =
          sep.intercalate (cell' :: rest') := by
        rw [← List.append_assoc, List.drop_left' (by rw [List.length_append, hcell])]
      rw [cutAt, List.intercalate_cons_cons, List.append_assoc, List.take_left' hcell, hdrop, ih]

theorem readLine_rowLine [DecidableEq α] (h : List.Forall₂ (fun w cell => cell.length ≤ w) widths cells) :
    readLine fill sep.length widths (rowLine fill sep widths cells) = cells.map (strip fill) := by
  have hpadded : List.Forall₂ (fun w cell => cell.length = w) widths (List.zipWith (padEnd fill) widths cells) := by
    induction h with
    | nil => exact .nil
    | cons hcell _ ih => exact .cons (length_padEnd hcell) ih
  rw [readLine, rowLine, cutAt_intercalate hpadded]
  clear hpadded
  induction h with
  | nil => rfl
  | cons _ _ ih => rw [List.zipWith_cons_cons, List.map_cons, strip_padEnd, ih, List.map_cons]

/-! ## What stands in a line -/

theorem mem_intercalate {a : α} (h : a ∈ sep.intercalate cells) : a ∈ sep ∨ ∃ cell ∈ cells, a ∈ cell := by
  induction cells with
  | nil => cases h
  | cons cell cells ih =>
    cases cells with
    | nil =>
      rw [List.intercalate_singleton] at h
      exact .inr ⟨cell, List.mem_cons_self, h⟩
    | cons cell' cells =>
      rw [List.intercalate_cons_cons, List.append_assoc] at h
      rcases List.mem_append.mp h with h | h
      · exact .inr ⟨cell, List.mem_cons_self, h⟩
      rcases List.mem_append.mp h with h | h
      · exact .inl h
      · exact (ih h).imp_right fun ⟨c, hc, ha⟩ => ⟨c, List.mem_cons_of_mem _ hc, ha⟩

theorem mem_zipWith_padEnd {cell : List α} (h : cell ∈ List.zipWith (padEnd fill) widths cells) :
    ∃ w, ∃ c ∈ cells, cell = padEnd fill w c := by
  induction cells generalizing widths with
  | nil =>
    rw [List.zipWith_nil_right] at h
    cases h
  | cons c cells ih =>
    cases widths with
    | nil => cases h
    | cons w widths =>
      rcases List.mem_cons.mp h with rfl | h
      · exact ⟨w, c, List.mem_cons_self, rfl⟩
      · obtain ⟨w', c', hc', heq⟩ := ih h
        exact ⟨w', c', List.mem_cons_of_mem _ hc', heq⟩

theorem mem_rowLine {a : α} (h : a ∈ rowLine fill sep widths cells) :
    a ∈ sep ∨ a = fill ∨ ∃ cell ∈ cells, a ∈ cell := by
  rcases mem_intercalate h with h | ⟨cell, hcell, ha⟩
  · exact .inl h
  · obtain ⟨w, c, hc, rfl⟩ := mem_zipWith_padEnd hcell
    rcases mem_padEnd ha with ha | ha
    · exact .inr (.inr ⟨c, hc, ha⟩)
    · exact .inr (.inl ha)

theorem mem_rule {a : α} (h : a ∈ rule dash joint widths) : a = dash ∨ a = joint := by
  rcases mem_intercalate h with h | ⟨cell, hcell, ha⟩
  · simpa [or_comm, or_assoc] using h
  · obtain ⟨w, -, rfl⟩ := List.mem_map.mp hcell
    exact .inl (List.eq_of_mem_replicate ha)

theorem intercalate_eq_nil (h : sep.intercalate cells = []) : ∀ cell ∈ cells, cell = [] := by
  induction cells with
  | nil => exact fun _ hcell => by cases hcell
  | cons cell cells ih =>
    cases cells with
    | nil =>
      rw [List.intercalate_singleton] at h
      exact List.forall_mem_singleton.mpr h
    | cons cell' cells =>
      rw [List.intercalate_cons_cons, List.append_eq_nil_iff, List.append_eq_nil_iff] at h
      exact List.forall_mem_cons.mpr ⟨h.1.1, ih h.2⟩

/-- Where a column has a width, no line is empty. -/
theorem rowLine_ne_nil (h : List.Forall₂ (fun w cell => cell.length ≤ w) widths cells) {w : Nat} (hw : w ∈ widths)
    (hpos : w ≠ 0) : rowLine fill sep widths cells ≠ [] := by
  intro hnil
  have hall := intercalate_eq_nil hnil
  clear hnil
  induction h with
  | nil => cases hw
  | @cons w' cell ws cells hcell _ ih =>
    rw [List.zipWith_cons_cons, List.forall_mem_cons] at hall
    rcases List.mem_cons.mp hw with rfl | hw
    · have hlen := @length_padEnd _ fill _ _ hcell
      rw [hall.1] at hlen
      exact hpos hlen.symm
    · exact ih hw hall.2

theorem rule_ne_nil {w : Nat} (hw : w ∈ widths) (hpos : w ≠ 0) : rule dash joint widths ≠ [] := by
  intro hnil
  have hdashes := intercalate_eq_nil hnil _ (List.mem_map_of_mem hw)
  exact hpos (by simpa using hdashes)

end Conductor.Lib.Columns
