import Conductor.Reminders.Metadata

/-! # The grammar of the metadata line

What the notes of a todo say is what the first metadata line in them says, and
nothing where there is none. -/
namespace Conductor.Reminders.MetaLine
open Conductor.Js Conductor.Js.Text Conductor.Js.Number Conductor.Reminders.Poll
open Conductor.Js.JsonText (expect_iff)
open Conductor.Reminders.Metadata

def Run (kind : UInt16 → Bool) (w : JsString) : Prop := w ≠ [] ∧ ∀ u ∈ w, kind u = true

/-- White space up to the end of a line. -/
def EndsLine (s : JsString) : Prop :=
  ∃ w rest, s = w ++ rest ∧ (∀ u ∈ w, isWhiteSpace u = true) ∧ ∀ u, rest.head? = some u → isDot u = false

/-- The text begins with a metadata line that says `m`. -/
def BeginsMeta (s : JsString) (m : TodoMetadata) : Prop :=
  ∃ pid gap repo gap' phase rest,
    s = js "pid:" ++ (pid ++ (gap ++ (js "repo:" ++ (repo ++ (gap' ++ (js "phase:" ++
      (phaseText phase ++ rest))))))) ∧
    Run isDigit pid ∧ Run isWhiteSpace gap ∧ Run (fun u => !isWhiteSpace u) repo ∧
    Run isWhiteSpace gap' ∧ EndsLine rest ∧
    m = ⟨some (nearestDouble (digitsValue pid)), some repo, some phase⟩

/-- The position after `before` is the beginning of a line, if the text begins one or not. -/
def StartsLine (lineStart : Bool) (before : JsString) : Prop :=
  (before = [] ∧ lineStart = true) ∨ ∃ u, before.getLast? = some u ∧ isDot u = false

/-- No position at the beginning of a line begins a metadata line. -/
def NoMeta (lineStart : Bool) (s : JsString) : Prop :=
  ∀ before after, s = before ++ after → StartsLine lineStart before → ∀ m, ¬ BeginsMeta after m

/-- The first position at the beginning of a line that begins a metadata line. -/
def FirstMeta (lineStart : Bool) (s : JsString) (m : TodoMetadata) : Prop :=
  ∃ before after, s = before ++ after ∧ StartsLine lineStart before ∧ BeginsMeta after m ∧
    ∀ before' after', s = before' ++ after' → before'.length < before.length →
      StartsLine lineStart before' → ∀ m', ¬ BeginsMeta after' m'

/-! ## The pattern at one position -/

/-- A run goes on as far as it can. -/
theorem run?_iff {kind : UInt16 → Bool} {s w rest : JsString} : run? kind s = some (w, rest) ↔
    s = w ++ rest ∧ Run kind w ∧ ∀ u, rest.head? = some u → kind u = false := by
  unfold run?
  simp only [Option.ite_none_left_eq_some, Option.some.injEq, Prod.mk.injEq]
  constructor
  · intro h
    obtain ⟨hne, rfl, rfl⟩ := h
    refine ⟨List.takeWhile_append_dropWhile.symm, ⟨hne, fun u hu => List.mem_takeWhile_imp hu⟩, ?_⟩
    intro u hu
    have h := List.head?_dropWhile_not kind s
    rw [hu] at h
    simpa using h
  · intro h
    obtain ⟨rfl, ⟨hne, hw⟩, hrest⟩ := h
    rw [List.takeWhile_append_of_pos hw, List.dropWhile_append_of_pos hw]
    cases rest with
    | nil => simpa using hne
    | cons u rest =>
      have hu := hrest u rfl
      simpa [hu] using hne

theorem phase?_iff {s rest : JsString} {phase : TodoPhase} :
    phase? s = some (phase, rest) ↔ s = phaseText phase ++ rest := by
  constructor
  · intro h
    obtain ⟨p, _, hp⟩ := List.exists_of_findSome?_eq_some h
    obtain ⟨r, hr, he⟩ := Option.map_eq_some_iff.mp hp
    cases he
    exact expect_iff.mp hr
  · intro h
    rw [h]
    cases phase with
    | plan => rfl
    | exec => rfl
    | review => rfl

theorem isWhiteSpace_of_not_isDot {u : UInt16} (h : isDot u = false) : isWhiteSpace u = true := by
  simp only [isDot, Bool.not_eq_false', Bool.or_eq_true, beq_iff_eq] at h
  rcases h with ((rfl | rfl) | rfl) | rfl
  · rfl
  · rfl
  · rfl
  · rfl

theorem endsLine_iff {s : JsString} : endsLine s = true ↔ EndsLine s := by
  unfold endsLine
  rw [Bool.or_eq_true, List.any_eq_true]
  constructor
  · intro h
    have hsplit : s = s.takeWhile isWhiteSpace ++ s.dropWhile isWhiteSpace :=
      List.takeWhile_append_dropWhile.symm
    have hspace : ∀ u ∈ s.takeWhile isWhiteSpace, isWhiteSpace u = true :=
      fun u hu => List.mem_takeWhile_imp hu
    rcases h with ⟨u, hu, hdot⟩ | hempty
    · obtain ⟨w, r, hw⟩ := List.append_of_mem hu
      rw [hw] at hsplit hspace
      refine ⟨w, u :: r ++ s.dropWhile isWhiteSpace, by rw [← List.append_assoc]; exact hsplit,
        fun v hv => hspace v (by simp [hv]), fun v hv => ?_⟩
      cases hv
      simpa using hdot
    · rw [List.isEmpty_iff.mp hempty] at hsplit
      exact ⟨s.takeWhile isWhiteSpace, [], hsplit, hspace, fun u hu => by cases hu⟩
  · intro h
    obtain ⟨w, rest, rfl, hw, hrest⟩ := h
    rw [List.takeWhile_append_of_pos hw, List.dropWhile_append_of_pos hw]
    cases rest with
    | nil => exact .inr rfl
    | cons u r =>
      have hdot := hrest u rfl
      exact .inl ⟨u, by simp [isWhiteSpace_of_not_isDot hdot], by simp [hdot]⟩

theorem not_isDigit_of_isWhiteSpace {u : UInt16} (hu : isWhiteSpace u = true) :
    isDigit u = false := by
  by_contra hd
  rw [isWhiteSpace_of_isDigit (by simpa using hd)] at hu
  cases hu

theorem Run.head {kind : UInt16 → Bool} {w r : JsString} (hw : Run kind w) :
    ∀ u, (w ++ r).head? = some u → kind u = true := by
  intro u hu
  cases w with
  | nil => exact absurd rfl hw.1
  | cons v w =>
    cases hu
    exact hw.2 u (by simp)

/-- The pattern reads exactly the metadata lines. Each of its runs ends where the
next part begins with a unit of another kind. -/
theorem metaAt_iff {s : JsString} {m : TodoMetadata} : metaAt s = some m ↔ BeginsMeta s m := by
  constructor
  · intro h
    unfold metaAt at h
    obtain ⟨s₁, h₁, h⟩ := Option.bind_eq_some_iff.mp h
    obtain ⟨⟨pid, s₂⟩, h₂, h⟩ := Option.bind_eq_some_iff.mp h
    obtain ⟨⟨gap, s₃⟩, h₃, h⟩ := Option.bind_eq_some_iff.mp h
    obtain ⟨s₄, h₄, h⟩ := Option.bind_eq_some_iff.mp h
    obtain ⟨⟨repo, s₅⟩, h₅, h⟩ := Option.bind_eq_some_iff.mp h
    obtain ⟨⟨gap', s₆⟩, h₆, h⟩ := Option.bind_eq_some_iff.mp h
    obtain ⟨s₇, h₇, h⟩ := Option.bind_eq_some_iff.mp h
    obtain ⟨⟨phase, rest⟩, h₈, h⟩ := Option.bind_eq_some_iff.mp h
    obtain ⟨hend, hm⟩ := Option.ite_none_right_eq_some.mp h
    obtain ⟨rfl, hpid, _⟩ := run?_iff.mp h₂
    obtain ⟨rfl, hgap, _⟩ := run?_iff.mp h₃
    obtain ⟨rfl, hrepo, _⟩ := run?_iff.mp h₅
    obtain ⟨rfl, hgap', _⟩ := run?_iff.mp h₆
    rw [expect_iff] at h₁ h₄ h₇
    rw [phase?_iff] at h₈
    subst h₁ h₄ h₇ h₈
    exact ⟨pid, gap, repo, gap', phase, rest, rfl, hpid, hgap, hrepo, hgap', endsLine_iff.mp hend,
      (Option.some.inj hm).symm⟩
  · intro h
    obtain ⟨pid, gap, repo, gap', phase, rest, rfl, hpid, hgap, hrepo, hgap', hend, rfl⟩ := h
    have hletter : ∀ {r : JsString} {kind : UInt16 → Bool} (c : UInt16), kind c = false →
        ∀ u, (c :: r).head? = some u → kind u = false := by
      intro r kind c hc u hu
      cases hu
      exact hc
    unfold metaAt
    refine Option.bind_eq_some_iff.mpr ⟨_, expect_iff.mpr rfl, ?_⟩
    refine Option.bind_eq_some_iff.mpr ⟨(pid, _), run?_iff.mpr ⟨rfl, hpid, ?_⟩, ?_⟩
    · exact fun u hu => not_isDigit_of_isWhiteSpace (hgap.head u hu)
    refine Option.bind_eq_some_iff.mpr ⟨(gap, _), run?_iff.mpr ⟨rfl, hgap, hletter 0x72 rfl⟩, ?_⟩
    refine Option.bind_eq_some_iff.mpr ⟨_, expect_iff.mpr rfl, ?_⟩
    refine Option.bind_eq_some_iff.mpr ⟨(repo, _), run?_iff.mpr ⟨rfl, hrepo, ?_⟩, ?_⟩
    · exact fun u hu => by simp [hgap'.head u hu]
    refine Option.bind_eq_some_iff.mpr ⟨(gap', _), run?_iff.mpr ⟨rfl, hgap', hletter 0x70 rfl⟩, ?_⟩
    refine Option.bind_eq_some_iff.mpr ⟨_, expect_iff.mpr rfl, ?_⟩
    refine Option.bind_eq_some_iff.mpr ⟨(phase, rest), phase?_iff.mpr rfl, ?_⟩
    exact if_pos (endsLine_iff.mpr hend)

/-! ## The first line -/

theorem startsLine_cons {lineStart : Bool} {u : UInt16} {before : JsString} :
    StartsLine lineStart (u :: before) ↔ StartsLine (!isDot u) before := by
  cases before with
  | nil => simp [StartsLine]
  | cons v before => simp [StartsLine, List.getLast?_cons_cons]

theorem noMeta_cons {lineStart : Bool} {u : UInt16} {s : JsString} : NoMeta lineStart (u :: s) ↔
    (lineStart = true → ∀ m, ¬ BeginsMeta (u :: s) m) ∧ NoMeta (!isDot u) s := by
  constructor
  · intro h
    refine ⟨fun hl => h [] (u :: s) rfl (.inl ⟨rfl, hl⟩), fun before after hs hb => ?_⟩
    exact h (u :: before) after (by rw [hs]; rfl) (startsLine_cons.mpr hb)
  · intro h before after hs hb
    cases before with
    | nil =>
      rcases hb with ⟨_, hl⟩ | ⟨v, hv, _⟩
      · rw [← show u :: s = after from hs]
        exact h.1 hl
      · cases hv
    | cons v before =>
      obtain ⟨rfl, hs'⟩ := List.cons.inj hs
      exact h.2 before after hs' (startsLine_cons.mp hb)

theorem firstMeta_cons {lineStart : Bool} {u : UInt16} {s : JsString} {m : TodoMetadata} :
    FirstMeta lineStart (u :: s) m ↔ (lineStart = true ∧ BeginsMeta (u :: s) m) ∨
      ((lineStart = true → ∀ m', ¬ BeginsMeta (u :: s) m') ∧ FirstMeta (!isDot u) s m) := by
  constructor
  · intro h
    obtain ⟨before, after, hs, hb, hm, hfirst⟩ := h
    cases before with
    | nil =>
      rcases hb with ⟨_, hl⟩ | ⟨v, hv, _⟩
      · rw [← show u :: s = after from hs] at hm
        exact .inl ⟨hl, hm⟩
      · cases hv
    | cons v before =>
      obtain ⟨rfl, hs'⟩ := List.cons.inj hs
      refine .inr ⟨fun hl => hfirst [] (u :: s) rfl (by simp) (.inl ⟨rfl, hl⟩), ?_⟩
      refine ⟨before, after, hs', startsLine_cons.mp hb, hm, fun before' after' hs'' hlen hb' => ?_⟩
      exact hfirst (u :: before') after' (by rw [hs'']; rfl) (by simpa using hlen) (startsLine_cons.mpr hb')
  · intro h
    rcases h with ⟨hl, hm⟩ | ⟨hnot, before, after, hs, hb, hm, hfirst⟩
    · exact ⟨[], u :: s, rfl, .inl ⟨rfl, hl⟩, hm, fun _ _ _ hlen => absurd hlen (by simp)⟩
    · refine ⟨u :: before, after, by rw [hs]; rfl, startsLine_cons.mpr hb, hm, ?_⟩
      intro before' after' hs' hlen hb'
      cases before' with
      | nil =>
        rcases hb' with ⟨_, hl⟩ | ⟨v, hv, _⟩
        · rw [← show u :: s = after' from hs']
          exact hnot hl
        · cases hv
      | cons v before' =>
        obtain ⟨rfl, hs''⟩ := List.cons.inj hs'
        exact hfirst before' after' hs'' (by simpa using hlen) (startsLine_cons.mp hb')

theorem not_beginsMeta_nil (m : TodoMetadata) : ¬ BeginsMeta [] m := by
  intro h
  have hm := metaAt_iff.mpr h
  cases hm

theorem ite_metaAt_eq_none {lineStart : Bool} {s : JsString} :
    (if lineStart then metaAt s else none) = none ↔ (lineStart = true → ∀ m, ¬ BeginsMeta s m) := by
  rw [ite_eq_right_iff]
  refine imp_congr Iff.rfl ?_
  rw [Option.eq_none_iff_forall_ne_some]
  exact forall_congr' fun m => not_congr metaAt_iff

/-- The search goes through the positions in order. -/
theorem matchMetaLine_eq_none {lineStart : Bool} {s : JsString} :
    matchMetaLine lineStart s = none ↔ NoMeta lineStart s := by
  induction s generalizing lineStart with
  | nil =>
    refine ⟨fun _ before after hs _ m => ?_, fun _ => ?_⟩
    · rw [(List.append_eq_nil_iff.mp hs.symm).2]
      exact not_beginsMeta_nil m
    · cases lineStart with
      | true => rfl
      | false => rfl
  | cons u s ih => rw [matchMetaLine, Option.or_eq_none_iff, ih, noMeta_cons, ite_metaAt_eq_none]

theorem matchMetaLine_eq_some {lineStart : Bool} {s : JsString} {m : TodoMetadata} :
    matchMetaLine lineStart s = some m ↔ FirstMeta lineStart s m := by
  induction s generalizing lineStart with
  | nil =>
    refine ⟨fun h => ?_, fun h => ?_⟩
    · cases lineStart with
      | true => cases h
      | false => cases h
    · obtain ⟨before, after, hs, _, hm, _⟩ := h
      rw [(List.append_eq_nil_iff.mp hs.symm).2] at hm
      exact absurd hm (not_beginsMeta_nil m)
  | cons u s ih =>
    rw [matchMetaLine, Option.or_eq_some_iff, ih, firstMeta_cons, ite_metaAt_eq_none,
      Option.ite_none_right_eq_some, metaAt_iff]

/-- The notes say `m`: the first metadata line in them does or, if `m` is empty,
there is none. -/
def Says (notes : JsString) (m : TodoMetadata) : Prop :=
  FirstMeta true notes m ∨ (m = ⟨none, none, none⟩ ∧ NoMeta true notes)

theorem parseTodoMetadata_iff {notes : JsString} {m : TodoMetadata} :
    parseTodoMetadata notes = m ↔ Says notes m := by
  unfold parseTodoMetadata Says
  rw [← matchMetaLine_eq_some, ← matchMetaLine_eq_none]
  cases matchMetaLine true notes with
  | none => simp [eq_comm]
  | some m' => simp

end Conductor.Reminders.MetaLine
