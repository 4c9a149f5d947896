import Conductor.Sessions.Suggest

/-! # The approval prompts and the boundary after a question mark

Every prompt of the suggestion table stands between two word boundaries. After a
letter a boundary is what it is meant to be: the prompt does not run on. After
the question mark of `proceed?` it is the opposite, and the prompt is found only
where a word follows it without a space. -/
namespace Conductor.Sessions.ApprovalPrompts
open Conductor.Lib.Regex Conductor.Js.Text Conductor.Js.LowerCase Conductor.Js.Values
open Conductor.Sessions.Types Conductor.Sessions.Suggest

def letterPrompts : List JsString := [js "approve", js "approval", js "y/n"]
def questionPrompts : List JsString := [js "proceed?", js "continue?"]

theorem mem_promptWords {w : JsString} : w ∈ promptWords ↔ w ∈ letterPrompts ∨ w ∈ questionPrompts := by
  rw [← List.mem_append]
  rfl

/-- An occurrence of `w` with nothing of a word before it, and a word character
directly after it or not. -/
def OccursWith (after : Bool) (t w : JsString) : Prop :=
  ∃ pre post, t = pre ++ w ++ post ∧ pre.getLast?.any isWordChar = false ∧
    post.head?.any isWordChar = after

/-- `w` occurs as a token of its own. -/
def StandsAlone (t w : JsString) : Prop := OccursWith false t w

/-- `w` begins a token, and a word character follows it. -/
def RunsOn (t w : JsString) : Prop := OccursWith true t w

/-- What makes a summary an approval prompt: one of the prompts, as a token of
its own in the lower-cased text, or a question mark at the end. -/
def Asks (last s : JsString) : Prop :=
  (∃ w ∈ promptWords, StandsAlone last w) ∨ (trim s).getLast? = some 0x3F

theorem occursWith_iff {after : Bool} {t w : JsString} : OccursWith after t w ↔
    ∃ n < t.length + 1, w.isPrefixOf (t.drop n) = true ∧
      (t.take n).getLast?.any isWordChar = false ∧
      (t.drop (n + w.length)).head?.any isWordChar = after := by
  constructor
  · rintro ⟨pre, post, ht, hbefore, hafter⟩
    rw [List.append_assoc] at ht
    refine ⟨pre.length, by rw [ht, List.length_append]; omega, ?_, ?_, ?_⟩
    · rw [ht, List.drop_left, List.isPrefixOf_iff_prefix]
      exact List.prefix_append w post
    · rw [ht, List.take_left]
      exact hbefore
    · rw [ht, ← List.drop_drop, List.drop_left, List.drop_left]
      exact hafter
  · rintro ⟨n, hn, hw, hbefore, hafter⟩
    obtain ⟨post, hpost⟩ := List.isPrefixOf_iff_prefix.mp hw
    rw [← List.drop_drop, ← hpost, List.drop_left] at hafter
    refine ⟨t.take n, post, ?_, hbefore, hafter⟩
    rw [List.append_assoc, hpost, List.take_append_drop]

instance (after : Bool) (t w : JsString) : Decidable (OccursWith after t w) :=
  decidable_of_iff _ occursWith_iff.symm

instance (t w : JsString) : Decidable (StandsAlone t w) :=
  inferInstanceAs (Decidable (OccursWith false t w))

instance (last s : JsString) : Decidable (Asks last s) :=
  inferInstanceAs (Decidable ((∃ w ∈ promptWords, StandsAlone last w) ∨ (trim s).getLast? = some 0x3F))

/-! ## The expression, prompt by prompt -/

theorem promptWords_ne_nil : ∀ w ∈ promptWords, w ≠ [] := by decide
theorem promptWords_head : ∀ w ∈ promptWords, w.head?.any isWordChar = true := by decide
theorem letterPrompts_last : ∀ w ∈ letterPrompts, w.getLast?.any isWordChar = true := by decide
theorem questionPrompts_last : ∀ w ∈ questionPrompts, w.getLast?.any isWordChar = false := by decide

theorem isBound_before {w pre post : JsString} (h : w ∈ promptWords) :
    isBound isWordChar pre.reverse (w ++ post) = true ↔ pre.getLast?.any isWordChar = false := by
  have hhead : (w ++ post).head?.any isWordChar = true := by
    rw [List.head?_append_of_ne_nil _ (promptWords_ne_nil w h)]
    exact promptWords_head w h
  unfold isBound
  rw [hhead, List.head?_reverse]
  simp

/-- The last character of a prompt decides what a boundary after it means. -/
theorem isBound_after {w left post : JsString} (h : w ≠ []) :
    isBound isWordChar (w.reverse ++ left) post = true ↔
      post.head?.any isWordChar = !w.getLast?.any isWordChar := by
  have hlast : (w.reverse ++ left).head? = w.getLast? := by
    rw [List.head?_append_of_ne_nil _ (by simpa using h), List.head?_reverse]
  unfold isBound
  rw [hlast]
  cases w.getLast?.any isWordChar <;> cases post.head?.any isWordChar <;> decide

theorem approval_test_word (t : JsString) : APPROVAL_PROMPT_RE.test t = true ↔
    ∃ w ∈ promptWords, OccursWith (!w.getLast?.any isWordChar) t w := by
  rw [test_iff]
  constructor
  · rintro ⟨pre, w, post, ht, hm⟩
    obtain ⟨hbefore, hw, hafter⟩ := approval_matches.mp hm
    exact ⟨w, hw, pre, post, ht, (isBound_before hw).mp hbefore,
      (isBound_after (promptWords_ne_nil w hw)).mp hafter⟩
  · rintro ⟨w, hw, pre, post, ht, hbefore, hafter⟩
    exact ⟨pre, w, post, ht, approval_matches.mpr ⟨(isBound_before hw).mpr hbefore, hw,
      (isBound_after (promptWords_ne_nil w hw)).mpr hafter⟩⟩

/-- What the expression finds: the prompts that end in a letter as tokens of
their own, the prompts that end in a question mark only where they run on. -/
theorem approval_test_iff (t : JsString) : APPROVAL_PROMPT_RE.test t = true ↔
    (∃ w ∈ letterPrompts, StandsAlone t w) ∨ ∃ w ∈ questionPrompts, RunsOn t w := by
  rw [approval_test_word]
  constructor
  · rintro ⟨w, hw, hocc⟩
    rcases mem_promptWords.mp hw with hl | hq
    · rw [letterPrompts_last w hl] at hocc
      exact Or.inl ⟨w, hl, hocc⟩
    · rw [questionPrompts_last w hq] at hocc
      exact Or.inr ⟨w, hq, hocc⟩
  · rintro (⟨w, hl, hocc⟩ | ⟨w, hq, hocc⟩)
    · refine ⟨w, mem_promptWords.mpr (Or.inl hl), ?_⟩
      rw [letterPrompts_last w hl]
      exact hocc
    · refine ⟨w, mem_promptWords.mpr (Or.inr hq), ?_⟩
      rw [questionPrompts_last w hq]
      exact hocc

theorem question_test_iff (t : JsString) :
    QUESTION_RE.test t = true ↔ t.getLast? = some 0x3F := by
  have h : QUESTION_RE = .seq (lit [0x3F]) .atEnd := rfl
  rw [test_iff]
  constructor
  · rintro ⟨pre, mid, post, ht, hm⟩
    rw [h, matches_seq_atEnd, matches_lit] at hm
    rw [ht, hm.1, hm.2, List.append_nil, List.getLast?_concat]
  · intro hl
    obtain ⟨pre, ht⟩ := List.getLast?_eq_some_iff.mp hl
    refine ⟨pre, [0x3F], [], by rw [ht, List.append_nil], ?_⟩
    rw [h, matches_seq_atEnd, matches_lit]
    exact ⟨rfl, rfl⟩

/-! ## The question mark at the end

Lower-casing neither makes nor removes white space or a question mark, so the
last mark of the trimmed text is a question mark before exactly when it is one
after. -/

/-- Whether the last character that is no white space is a question mark;
`none` where there is none. -/
def lastAsks (t : JsString) : Option Bool :=
  ((t.filter fun u => !isWhiteSpace u).getLast?).map (· == 0x3F)

theorem trim_getLast? (t : JsString) :
    (trim t).getLast? = (t.filter fun u => !isWhiteSpace u).getLast? := by
  have hend : ∀ s : JsString, (trimEnd s).getLast? = (s.filter fun u => !isWhiteSpace u).getLast? := by
    intro s
    induction s using List.reverseRecOn with
    | nil => rfl
    | append_singleton s u ih =>
      unfold trimEnd at ih ⊢
      by_cases hu : isWhiteSpace u = true
      · rw [List.rdropWhile_concat_pos _ _ _ hu, ih, List.filter_append]
        simp [hu]
      · rw [List.rdropWhile_concat_neg _ _ _ hu, List.filter_append]
        simp [hu]
  have hstart : (trimStart t).filter (fun u => !isWhiteSpace u) = t.filter fun u => !isWhiteSpace u := by
    unfold trimStart
    induction t with
    | nil => rfl
    | cons u t ih =>
      by_cases hu : isWhiteSpace u = true
      · rw [List.dropWhile_cons_of_pos hu, ih]
        simp [hu]
      · rw [List.dropWhile_cons_of_neg hu]
  unfold trim
  rw [hend, hstart]

theorem trim_asks (t : JsString) : (trim t).getLast? = some 0x3F ↔ lastAsks t = some true := by
  rw [trim_getLast?, lastAsks]
  simp

theorem lastAsks_append (a b : JsString) : lastAsks (a ++ b) = (lastAsks b).or (lastAsks a) := by
  unfold lastAsks
  rw [List.filter_append, List.getLast?_append, Option.map_or]

theorem lastAsks_singleton (u : UInt16) :
    lastAsks [u] = if isWhiteSpace u then none else some (u == 0x3F) := by
  unfold lastAsks
  by_cases hu : isWhiteSpace u = true <;> simp [hu]

theorem lastAsks_view (t : JsString) : lastAsks (t.map view) = lastAsks t := by
  have hspace : (fun u => !isWhiteSpace u) ∘ view = fun u => !isWhiteSpace u := by
    funext u
    simp [view_isWhiteSpace]
  have hmark : (fun u : UInt16 => u == 0x3F) ∘ view = fun u => u == 0x3F := by
    funext u
    exact view_beq (by decide) (by decide) u
  unfold lastAsks
  rw [List.filter_map, hspace, List.getLast?_map, Option.map_map, hmark]

/-- White space and the question mark, as code points. -/
def isMark (c : Nat) : Bool :=
  (9 ≤ c && c ≤ 13) || c == 0x20 || c == 0xA0 || c == 0x1680 || (0x2000 ≤ c && c ≤ 0x200A) ||
    c == 0x2028 || c == 0x2029 || c == 0x202F || c == 0x205F || c == 0x3000 || c == 0xFEFF || c == 0x3F

theorem lastAsks_of_not_isMark {u : UInt16} (h : isMark u.toNat = false) :
    lastAsks [u] = some false := by
  simp only [isMark, Bool.or_eq_false_iff, Bool.and_eq_false_iff, decide_eq_false_iff_not,
    beq_eq_false_iff_ne] at h
  have hspace : isWhiteSpace u = false := by
    simp only [isWhiteSpace, Bool.or_eq_false_iff, Bool.and_eq_false_iff, decide_eq_false_iff_not,
      beq_eq_false_iff_ne, ne_eq, UInt16.le_iff_toNat_le, ← UInt16.toNat_inj, UInt16.reduceToNat]
    omega
  have hmark : (u == 0x3F) = false := by
    simp only [beq_eq_false_iff_ne, ne_eq, ← UInt16.toNat_inj, UInt16.reduceToNat]
    omega
  rw [lastAsks_singleton, hspace, hmark]
  rfl

/-- The gaps between the marks: no range of the table meets a mark, before or
after the mapping, and the ranges of the basic plane stay in it. -/
def avoidsMarks (first last : Int) : Bool :=
  [(0, 8), (14, 31), (33, 62), (64, 159), (161, 5759), (5761, 8191), (8203, 8231), (8234, 8238),
    (8240, 8286), (8288, 12287), (12289, 65278), (65280, 65535)].any
      fun (gap : Int × Int) => decide (gap.1 ≤ first) && decide (last ≤ gap.2)

theorem not_isMark_of_avoidsMarks {first last : Int} {c : Nat} (h : avoidsMarks first last = true)
    (hfirst : first ≤ c) (hlast : c ≤ last) : isMark c = false ∧ c < 0x10000 := by
  simp only [avoidsMarks, List.any_cons, List.any_nil, Bool.or_eq_true, Bool.and_eq_true,
    decide_eq_true_eq, Bool.or_false] at h
  simp only [isMark, Bool.or_eq_false_iff, Bool.and_eq_false_iff, decide_eq_false_iff_not,
    beq_eq_false_iff_ne]
  omega

theorem avoidsMarks_nonneg {first last : Int} (h : avoidsMarks first last = true) : 0 ≤ first := by
  simp only [avoidsMarks, List.any_cons, List.any_nil, Bool.or_eq_true, Bool.and_eq_true,
    decide_eq_true_eq, Bool.or_false] at h
  omega

theorem lowerTable_avoidsMarks : ∀ r ∈ lowerTable, r.first < 0x10000 →
    avoidsMarks r.first r.last = true ∧ avoidsMarks (r.first + r.delta) (r.last + r.delta) = true := by
  decide +kernel

/-- What the mapping does to a code point of the basic plane: nothing, another
code point where neither is a mark, or the one entry of two code points. -/
theorem lowerCodePoint_marks {c : Nat} (hc : c < 0x10000) :
    lowerCodePoint c = [c] ∨
      (∃ d, isMark c = false ∧ lowerCodePoint c = [d] ∧ isMark d = false ∧ d < 0x10000) ∨
      (c = 0x130 ∧ lowerCodePoint c = [0x69, 0x307]) := by
  unfold lowerCodePoint
  by_cases hdot : c = 0x130
  · exact Or.inr (Or.inr ⟨hdot, if_pos hdot⟩)
  · rw [if_neg hdot]
    split
    · rename_i r hr
      have hlast : c ≤ r.last := by simpa using List.find?_some hr
      split
      · rename_i hin
        obtain ⟨hfrom, hto⟩ := lowerTable_avoidsMarks r (List.mem_of_find?_eq_some hr) (by omega)
        obtain ⟨d, hd⟩ : ∃ d : Nat, d = (c + r.delta).toNat := ⟨_, rfl⟩
        have hpos := avoidsMarks_nonneg hto
        rw [← hd]
        obtain ⟨hu, -⟩ := not_isMark_of_avoidsMarks hfrom (by omega) (c := c) (by omega)
        obtain ⟨hv, hlt⟩ := not_isMark_of_avoidsMarks hto (c := d) (by omega) (by omega)
        exact Or.inr (Or.inl ⟨d, hu, rfl, hv, hlt⟩)
      · exact Or.inl rfl
    · exact Or.inl rfl

theorem encodeCodePoint_unit (u : UInt16) : encodeCodePoint u.toNat = [u] := by
  have hu := u.toNat_lt
  rw [encodeCodePoint, if_pos (by omega), UInt16.ofNat_toNat]

theorem lastAsks_encodeCodePoint {c : Nat} (h : isMark c = false) (hc : c < 0x10000) :
    lastAsks (encodeCodePoint c) = some false := by
  have hmod : (UInt16.ofNat c).toNat = c := by
    rw [UInt16.toNat_ofNat']
    omega
  rw [encodeCodePoint, if_pos hc]
  exact lastAsks_of_not_isMark (by rw [hmod]; exact h)

variable (finalSigma : JsString → JsString → Bool)

theorem lastAsks_lowerAt_unit (u : UInt16) (before after : JsString) :
    lastAsks (lowerAt finalSigma before u.toNat after) = lastAsks [u] := by
  unfold lowerAt
  by_cases hsigma : u.toNat = 0x3A3
  · have hu : lastAsks [u] = some false := lastAsks_of_not_isMark (by rw [hsigma]; rfl)
    rw [if_pos hsigma, hu]
    split <;> decide
  · rw [if_neg hsigma]
    rcases lowerCodePoint_marks u.toNat_lt with h | ⟨d, hu, h, hd, hlt⟩ | ⟨hu, h⟩
    · rw [h, List.flatMap_singleton, encodeCodePoint_unit]
    · rw [h, List.flatMap_singleton, lastAsks_encodeCodePoint hd hlt, lastAsks_of_not_isMark hu]
    · rw [h, lastAsks_of_not_isMark (by rw [hu]; rfl)]
      decide

theorem lastAsks_lowerFrom (before s : JsString) :
    lastAsks (lowerFrom finalSigma before s) = lastAsks s := by
  induction before, s using lowerFrom.induct with
  | case1 before => rfl
  | case2 before u =>
    rw [lowerFrom, lastAsks_lowerAt_unit]
  | case3 before hi lo rest hpair ih =>
    obtain ⟨hhi, hlo⟩ := Bool.and_eq_true_iff.mp hpair
    have hlower : lastAsks (lowerAt finalSigma before (pairCodePoint hi lo) rest) = some false := by
      rw [← lastAsks_view, lowerAt_pair_view finalSigma hhi hlo]
      rfl
    have hplain : lastAsks [hi, lo] = some false := by
      simp only [isHighSurrogate, isLowSurrogate, Bool.and_eq_true, decide_eq_true_eq,
        UInt16.le_iff_toNat_le, UInt16.reduceToNat] at hhi hlo
      rw [← lastAsks_view, List.map_cons, List.map_singleton, surrogate_view (by omega),
        surrogate_view (by omega)]
      rfl
    rw [lowerFrom, if_pos hpair, lastAsks_append, ih, hlower, ← hplain, ← lastAsks_append]
    rfl
  | case4 before u v rest hpair ih =>
    rw [lowerFrom, if_neg hpair, lastAsks_append, ih, lastAsks_lowerAt_unit, ← lastAsks_append]
    rfl

/-! ## The suggestion -/

theorem approvalPrompt_iff (s : JsString) : approvalPrompt s = true ↔
    (∃ w ∈ letterPrompts, StandsAlone (toLowerCase finalSigma s) w) ∨
      (∃ w ∈ questionPrompts, RunsOn (toLowerCase finalSigma s) w) ∨
      (trim s).getLast? = some 0x3F := by
  rw [← approvalPromptBy_eq finalSigma, approvalPromptBy, Bool.or_eq_true, approval_test_iff,
    question_test_iff, trim_asks, trim_asks, toLowerCase, lastAsks_lowerFrom, or_assoc]

/-- What is recognised however a boundary is read: a prompt that ends in a letter,
as a token of its own, or the final question mark. -/
def Recognised (last s : JsString) : Prop :=
  (∃ w ∈ letterPrompts, StandsAlone last w) ∨ (trim s).getLast? = some 0x3F

/-- The keystroke and the confidence of a suggestion. -/
def Suggests (s keys : JsString) (confidence : Confidence) : Prop :=
  ∃ sug, suggestNext .awaiting_user_input (.str s) = .ok sug ∧ sug.action = .inject keys ∧
    sug.confidence = confidence

theorem suggests_iff (s keys : JsString) (confidence : Confidence) : Suggests s keys confidence ↔
    (approvalPrompt s = true ∧ keys = js "y" ∧ confidence = .high) ∨
      (approvalPrompt s = false ∧ keys = js "ok" ∧ confidence = .low) := by
  unfold Suggests suggestNext summaryText
  simp only [pure, Except.pure, bind, Except.bind]
  cases hp : approvalPrompt s with
  | true =>
    simp only [if_true, Except.ok.injEq, exists_eq_left', Action.inject.injEq]
    simp [eq_comm]
  | false =>
    simp only [Bool.false_eq_true, if_false, Except.ok.injEq, exists_eq_left', Action.inject.injEq]
    simp [eq_comm]

theorem asks_iff (last s : JsString) :
    Asks last s ↔ Recognised last s ∨ ∃ w ∈ questionPrompts, StandsAlone last w := by
  unfold Asks Recognised
  simp only [mem_promptWords, or_and_right, exists_or]
  rw [or_right_comm]

/-- Two disjunctions with one part in common agree where that part decides, or
where the other parts agree. -/
theorem agree_iff {recognised alone runsOn : Prop} :
    ((recognised ∨ runsOn ↔ recognised ∨ alone) ∧ (¬ (recognised ∨ alone) → ¬ (recognised ∨ runsOn))) ↔
      (recognised ∨ (alone ↔ runsOn)) := by
  by_cases h : recognised
  · simp [h]
  · simp only [h, false_or]
    exact ⟨fun hagree => hagree.1.symm, fun heq => ⟨heq.symm, fun hnot hrun => hnot (heq.mpr hrun)⟩⟩

/-- A waiting session gets the keystroke that its summary calls for exactly when
a prompt that ends in a letter or the final question mark decides, or else when
a prompt that ends in a question mark stands alone just where one runs on. -/
theorem suggestion_meets_prompt_iff (s : JsString) :
    ((Suggests s (js "y") .high ↔ Asks (toLowerCase finalSigma s) s) ∧
        (¬ Asks (toLowerCase finalSigma s) s → Suggests s (js "ok") .low)) ↔
      (Recognised (toLowerCase finalSigma s) s ∨
        ((∃ w ∈ questionPrompts, StandsAlone (toLowerCase finalSigma s) w) ↔
          ∃ w ∈ questionPrompts, RunsOn (toLowerCase finalSigma s) w)) := by
  have hhigh : Suggests s (js "y") .high ↔ approvalPrompt s = true := by
    simp [suggests_iff]
  have hlow : Suggests s (js "ok") .low ↔ ¬ approvalPrompt s = true := by
    simp [suggests_iff]
  have hcode := approvalPrompt_iff finalSigma s
  have hrec : approvalPrompt s = true ↔ Recognised (toLowerCase finalSigma s) s ∨
      ∃ w ∈ questionPrompts, RunsOn (toLowerCase finalSigma s) w := by
    rw [hcode, Recognised, or_assoc, or_comm (b := (trim s).getLast? = some 0x3F)]
  rw [hhigh, hlow, hrec, asks_iff]
  exact agree_iff

/-- A prompt that is followed by a space is missed, and one that runs on into the
next word is taken for an approval. -/
theorem proceed_boundaries :
    toLowerCase (fun _ _ => false) (js "Proceed? Thanks.") = js "proceed? thanks." ∧
    Asks (js "proceed? thanks.") (js "Proceed? Thanks.") ∧
    ¬ Suggests (js "Proceed? Thanks.") (js "y") .high ∧
    toLowerCase (fun _ _ => false) (js "proceed?yes") = js "proceed?yes" ∧
    ¬ Asks (js "proceed?yes") (js "proceed?yes") ∧ Suggests (js "proceed?yes") (js "y") .high := by
  have hmissed : approvalPrompt (js "Proceed? Thanks.") = false := by decide +kernel
  have htaken : approvalPrompt (js "proceed?yes") = true := by decide +kernel
  refine ⟨by decide +kernel, by decide +kernel, ?_, by decide +kernel, by decide +kernel, ?_⟩
  · rw [suggests_iff, hmissed]
    simp
  · exact (suggests_iff _ _ _).mpr (Or.inl ⟨htaken, rfl, rfl⟩)

end Conductor.Sessions.ApprovalPrompts
