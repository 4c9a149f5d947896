import Conductor.Js.NaturalText
import Conductor.Reminders.Cli
import Conductor.Reminders.MetaLine

/-! # The line that `addTodo` appends

The canonical line comes last, after a blank line, and the parser takes the first
line that looks like one. No match runs from the prose into the canonical line. -/
namespace Conductor.Reminders.CanonicalLine
open Conductor.Js Conductor.Js.Text Conductor.Js.Number Conductor.Js.Numerals Conductor.Js.ToNumber
open Conductor.Js.NaturalText Conductor.Reminders.Poll Conductor.Reminders.Metadata
open Conductor.Reminders.MetaLine Conductor.Reminders.Cli

variable {s t w canon rest : JsString} {m : TodoMetadata}

/-! ## A match and the blank line -/

/-- What holds no newline ends before the blank line. -/
theorem cut_before (h : w ++ t = s ++ 10 :: rest) (hw : 10 ∉ w) : ∃ s', s = w ++ s' ∧ t = s' ++ 10 :: rest := by
  rcases List.append_eq_append_iff.mp h with ⟨a, hs, ht⟩ | ⟨a, hwa, ha⟩
  · exact ⟨a, hs, ht⟩
  · cases a with
    | nil => exact ⟨[], by simpa using hwa.symm, by simpa using ha.symm⟩
    | cons u a =>
      obtain ⟨rfl, -⟩ := List.cons.inj ha
      exact absurd (by simp [hwa]) hw

/-- White space goes on into the blank line only when all of it is passed, and
then the canonical line comes next. -/
theorem cut_space (h : w ++ t = s ++ 10 :: 10 :: canon) (hcanon : ∃ c cs, canon = c :: cs ∧ isWhiteSpace c = false)
    (hw : ∀ u ∈ w, isWhiteSpace u = true) (ht : t.head? ≠ some 10) (hne : t ≠ canon) :
    ∃ s', s = w ++ s' ∧ t = s' ++ 10 :: 10 :: canon := by
  rcases List.append_eq_append_iff.mp h with ⟨a, hs, hta⟩ | ⟨a, hwa, ha⟩
  · exact ⟨a, hs, hta⟩
  · obtain ⟨c, cs, rfl, hc⟩ := hcanon
    match a, ha with
    | [], ha => exact absurd (congrArg List.head? ha.symm) ht
    | [u], ha =>
      obtain ⟨-, ha⟩ := List.cons.inj ha
      exact absurd (congrArg List.head? ha.symm) ht
    | [u, v], ha =>
      obtain ⟨-, ha⟩ := List.cons.inj ha
      obtain ⟨-, ha⟩ := List.cons.inj ha
      exact absurd ha.symm hne
    | u :: v :: x :: a, ha =>
      obtain ⟨-, ha⟩ := List.cons.inj ha
      obtain ⟨-, ha⟩ := List.cons.inj ha
      obtain ⟨rfl, -⟩ := List.cons.inj ha
      have hx := hw c (by simp [hwa])
      rw [hc] at hx
      cases hx

theorem endsLine_cut (h : EndsLine (s ++ 10 :: rest)) : EndsLine s := by
  obtain ⟨w, r, hsplit, hw, hr⟩ := h
  rcases List.append_eq_append_iff.mp hsplit with ⟨a, hwa, -⟩ | ⟨a, rfl, ha⟩
  · exact ⟨s, [], by simp, fun u hu => hw u (by simp [hwa, hu]), by simp⟩
  · refine ⟨w, a, rfl, hw, fun u hu => hr u ?_⟩
    cases a with
    | nil => cases hu
    | cons v a =>
      rw [ha]
      exact hu

theorem endsLine_more (h : EndsLine s) : EndsLine (s ++ 10 :: rest) := by
  obtain ⟨w, r, rfl, hw, hr⟩ := h
  refine ⟨w, r ++ 10 :: rest, by simp, hw, fun u hu => ?_⟩
  cases r with
  | nil =>
    cases hu
    rfl
  | cons v r => exact hr u hu

theorem newline_not_mem_phaseText (phase : TodoPhase) : 10 ∉ phaseText phase := by
  cases phase with
  | plan => decide
  | exec => decide
  | review => decide

/-- A metadata line in the prose is one without the canonical line, and no other
begins before it. -/
theorem beginsMeta_append (hcanon : ∃ cs, canon = js "pid:" ++ cs) :
    BeginsMeta (s ++ 10 :: 10 :: canon) m ↔ BeginsMeta s m := by
  obtain ⟨cs, rfl⟩ := hcanon
  have hvisible : ∃ c ds, js "pid:" ++ cs = c :: ds ∧ isWhiteSpace c = false := ⟨0x70, _, rfl, rfl⟩
  constructor
  · intro h
    obtain ⟨pid, gap, repo, gap', phase, after, hs, hpid, hgap, hrepo, hgap', hend, hm⟩ := h
    have hdigits : 10 ∉ pid := fun h => absurd (hpid.2 10 h) (by decide)
    have hword : 10 ∉ repo := fun h => absurd (hrepo.2 10 h) (by decide)
    obtain ⟨s₁, rfl, h₁⟩ := cut_before hs.symm (by decide)
    obtain ⟨s₂, rfl, h₂⟩ := cut_before h₁ hdigits
    obtain ⟨s₃, rfl, h₃⟩ := cut_space h₂ hvisible hgap.2 (fun he => by cases he) (fun he => by cases he)
    obtain ⟨s₄, rfl, h₄⟩ := cut_before h₃ (by decide)
    obtain ⟨s₅, rfl, h₅⟩ := cut_before h₄ hword
    obtain ⟨s₆, rfl, h₆⟩ := cut_space h₅ hvisible hgap'.2 (fun he => by cases he) (fun he => by cases he)
    obtain ⟨s₇, rfl, h₇⟩ := cut_before h₆ (by decide)
    obtain ⟨s₈, rfl, h₈⟩ := cut_before h₇ (newline_not_mem_phaseText phase)
    rw [h₈] at hend
    exact ⟨pid, gap, repo, gap', phase, s₈, rfl, hpid, hgap, hrepo, hgap', endsLine_cut hend, hm⟩
  · intro h
    obtain ⟨pid, gap, repo, gap', phase, after, rfl, hpid, hgap, hrepo, hgap', hend, hm⟩ := h
    refine ⟨pid, gap, repo, gap', phase, after ++ 10 :: 10 :: (js "pid:" ++ cs), by simp, hpid, hgap,
      hrepo, hgap', endsLine_more hend, hm⟩

theorem metaAt_append (hcanon : ∃ cs, canon = js "pid:" ++ cs) :
    metaAt (s ++ 10 :: 10 :: canon) = metaAt s := by
  ext m
  rw [metaAt_iff, metaAt_iff, beginsMeta_append hcanon]

/-! ## The first match -/

/-- The canonical line says what it was built from. -/
theorem beginsMeta_format {pid : Nat} (hpid : pid < 2 ^ 53) {repo : JsString}
    (hrepo : Run (fun u => !isWhiteSpace u) repo) (phase : TodoPhase) :
    BeginsMeta (formatTodoMetadata (.finite pid) repo phase) ⟨some (.finite pid), some repo, some phase⟩ := by
  have hspace : Run isWhiteSpace [0x20] := ⟨by simp, fun u hu => by rw [List.mem_singleton.mp hu]; rfl⟩
  refine ⟨js (toString pid), [0x20], repo, [0x20], phase, [], ?_, ⟨toString_ne_nil pid, digits_toString pid⟩,
    hspace, hrepo, hspace, ⟨[], [], rfl, by simp, by simp⟩, ?_⟩
  · rw [formatTodoMetadata, toJsString_natCast hpid, List.append_nil]
    have hrepoLit : js " repo:" = [0x20] ++ js "repo:" := rfl
    have hphaseLit : js " phase:" = [0x20] ++ js "phase:" := rfl
    rw [hrepoLit, hphaseLit]
    simp only [List.append_assoc]
  · rw [digitsValue_toString, nearestDouble_natCast hpid]

theorem matchMetaLine_here (h : metaAt s = some m) : matchMetaLine true s = some m := by
  cases s with
  | nil => exact h
  | cons u s =>
    rw [matchMetaLine, if_pos rfl, h]
    rfl

/-- The prose is searched first. -/
theorem matchMetaLine_append (hcanon : ∃ cs, canon = js "pid:" ++ cs) (hm : metaAt canon = some m)
    (prose : JsString) (lineStart : Bool) :
    matchMetaLine lineStart (prose ++ 10 :: 10 :: canon) = (matchMetaLine lineStart prose).or (some m) := by
  induction prose generalizing lineStart with
  | nil =>
    have hnone : metaAt (10 :: 10 :: canon) = none := metaAt_append (s := []) hcanon
    obtain ⟨cs, rfl⟩ := hcanon
    have hblank : metaAt (10 :: (js "pid:" ++ cs)) = none := rfl
    have hempty : matchMetaLine lineStart [] = none := by
      cases lineStart with
      | true => rfl
      | false => rfl
    rw [hempty, List.nil_append, matchMetaLine, hnone, ite_self, Option.none_or, matchMetaLine, hblank,
      ite_self, Option.none_or]
    exact matchMetaLine_here hm
  | cons u prose ih =>
    have hhere : metaAt (u :: (prose ++ 10 :: 10 :: canon)) = metaAt (u :: prose) :=
      metaAt_append (s := u :: prose) hcanon
    rw [List.cons_append, matchMetaLine, matchMetaLine, hhere, ih, Option.or_assoc]

/-- The notes that `addTodo` builds say what was to be said exactly when the prose
holds no metadata line, or the first one in it says the same. -/
theorem canonical_line_iff {pid : Nat} (hpid : pid < 2 ^ 53) {repo : JsString}
    (hrepo : Run (fun u => !isWhiteSpace u) repo) (phase : TodoPhase) (input : AddTodoInput)
    (hinput : input.metadata = some (.finite pid, repo, phase)) :
    parseTodoMetadata (fullNotes input) = ⟨some (.finite pid), some repo, some phase⟩ ↔
      NoMeta true (input.notes.getD []) ∨
        FirstMeta true (input.notes.getD []) ⟨some (.finite pid), some repo, some phase⟩ := by
  have hcanon : ∃ cs, formatTodoMetadata (.finite pid) repo phase = js "pid:" ++ cs :=
    ⟨_, by rw [formatTodoMetadata, List.append_assoc, List.append_assoc, List.append_assoc,
      List.append_assoc]⟩
  have hmeta := metaAt_iff.mpr (beginsMeta_format hpid hrepo phase)
  have hmatch : matchMetaLine true (fullNotes input) =
      (matchMetaLine true (input.notes.getD [])).or (some ⟨some (.finite pid), some repo, some phase⟩) := by
    unfold fullNotes
    rw [hinput]
    simp only
    by_cases hempty : input.notes.getD [] = []
    · rw [hempty, if_pos rfl, List.nil_append, matchMetaLine_here hmeta]
      rfl
    · rw [if_neg hempty, List.append_assoc]
      exact matchMetaLine_append hcanon hmeta _ true
  rw [parseTodoMetadata, hmatch, ← matchMetaLine_eq_none, ← matchMetaLine_eq_some]
  cases matchMetaLine true (input.notes.getD []) with
  | none => simp
  | some m => simp

/-- A todo of `repo:new` with the given prose. -/
def todoFor (prose : JsString) : AddTodoInput :=
  ⟨js "Review", some prose, none, some (.finite (2 : Nat), js "new", .exec)⟩

theorem canonical_line_read : parseTodoMetadata (fullNotes (todoFor (js "Call back\nabout pid:1"))) =
    ⟨some (.finite (2 : Nat)), some (js "new"), some .exec⟩ :=
  (@canonical_line_iff 2 (by decide) (js "new") ⟨by decide, List.all_eq_true.mp rfl⟩ .exec (todoFor _) rfl).mpr
    (.inl (matchMetaLine_eq_none.mp (by decide +kernel)))

/-- The line of an earlier todo in the prose is read, and the canonical one is not. -/
theorem earlier_line_wins :
    parseTodoMetadata (fullNotes (todoFor (js "pid:1 repo:old phase:plan"))) =
        ⟨some (.finite 1), some (js "old"), some .plan⟩ ∧
      parseTodoMetadata (fullNotes (todoFor (js "pid:1 repo:old phase:plan"))) ≠
        ⟨some (.finite (2 : Nat)), some (js "new"), some .exec⟩ :=
  ⟨by decide +kernel, by decide +kernel⟩

end Conductor.Reminders.CanonicalLine
