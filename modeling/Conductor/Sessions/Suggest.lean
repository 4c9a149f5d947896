import Conductor.Js.LowerCase
import Conductor.Sessions.Types

/-! # The suggestion table, and what cutting a summary does to it

`suggestNext` looks at a lower-cased summary. Where a test depends on the
characters of the text it looks at ASCII letters, at white space and at the end
only, so it is decided by a `view` of the text that forgets everything else. -/
namespace Conductor.Sessions.Suggest
open Conductor.Lib.Regex Conductor.Js.Text Conductor.Js.LowerCase Conductor.Js.Values
open Conductor.Sessions.Types

/-- `/\b(approve|approval|y\/n|proceed\?|continue\?)\b/`. -/
def APPROVAL_PROMPT_RE : Pattern UInt16 :=
  seqAll [wordBound,
    anyOf [lit (js "approve"), lit (js "approval"), lit (js "y/n"), lit (js "proceed?"),
      lit (js "continue?")],
    wordBound]

/-- `/\?$/`. -/
def QUESTION_RE : Pattern UInt16 := .seq (lit (js "?")) .atEnd

/-- The condition of the high-confidence branch. `finalSigma` only chooses
between two letters that neither test looks for. -/
def approvalPromptBy (finalSigma : JsString → JsString → Bool) (summary : JsString) : Bool :=
  let last := toLowerCase finalSigma summary
  let trimmed := trim last
  APPROVAL_PROMPT_RE.test last || QUESTION_RE.test trimmed

def approvalPrompt (summary : JsString) : Bool := approvalPromptBy (fun _ _ => false) summary

/-- `(summary ?? "").toLowerCase()` throws on what is neither null nor a string. -/
def summaryText : Json → Except JsError JsString
  | .null => pure []
  | .str s => pure s
  | _ => throw (.typeError (js "toLowerCase"))

def suggestNext (refinedStatus : RefinedStatus) (lastAssistantSummary : Json) :
    Except JsError Suggestion :=
  match refinedStatus with
  | .awaiting_user_input => do
    let s ← summaryText lastAssistantSummary
    if approvalPrompt s then
      pure { text := js "Approve and proceed", action := .inject (js "y"), confidence := .high,
             reason := js "explicit approval prompt" }
    else
      pure { text := js "Acknowledge", action := .inject (js "ok"), confidence := .low,
             reason := js "ambiguous prompt" }
  | .tool_pending =>
    pure { text := js "Wait — tool call in flight", action := .none (some (js "tool_use unmatched")),
           confidence := .high, reason := js "tool_use unmatched" }
  | .crashed =>
    pure { text := js "Restart session", action := .restart, confidence := .medium,
           reason := js "process gone, transcript incomplete" }
  | .working =>
    pure { text := js "Working — let it run", action := .none (some (js "active progress")),
           confidence := .high, reason := js "active progress" }
  | .idle =>
    pure { text := js "Idle — check in", action := .none (some (js "no recent activity")),
           confidence := .low, reason := js "no recent activity but no prompt either" }

/-- The keystroke that auto-pilot sends without asking. -/
def autoApproves (action : Action) (confidence : Confidence) : Bool :=
  decide (action = .inject (js "y")) && decide (confidence = .high)

/-- Only an approval prompt of a waiting session is acted upon unattended. -/
theorem suggestNext_autoApproves {status : RefinedStatus} {summary : Json} {sug : Suggestion}
    (h : suggestNext status summary = .ok sug) :
    autoApproves sug.action sug.confidence = true ↔
      status = .awaiting_user_input ∧ ∃ s, summaryText summary = .ok s ∧ approvalPrompt s = true := by
  cases status with
  | awaiting_user_input =>
    unfold suggestNext at h
    cases hs : summaryText summary with
    | error e => rw [hs] at h; cases h
    | ok s =>
      rw [hs] at h
      simp only [bind, Except.bind] at h
      by_cases ha : approvalPrompt s = true
      · rw [if_pos ha] at h
        cases h
        simp [autoApproves, ha]
      · rw [if_neg ha] at h
        cases h
        simp [autoApproves, ha]
  | tool_pending => cases h; simp [autoApproves]
  | crashed => cases h; simp [autoApproves]
  | working => cases h; simp [autoApproves]
  | idle => cases h; simp [autoApproves]

/-- The only keystroke suggested with high confidence. -/
theorem suggestNext_inject_high {status : RefinedStatus} {summary : Json} {sug : Suggestion}
    {text : JsString} (h : suggestNext status summary = .ok sug) (ha : sug.action = .inject text)
    (hc : sug.confidence = .high) : autoApproves sug.action sug.confidence = true := by
  cases status with
  | awaiting_user_input =>
    unfold suggestNext at h
    cases hs : summaryText summary with
    | error e => rw [hs] at h; cases h
    | ok s =>
      rw [hs] at h
      simp only [bind, Except.bind] at h
      by_cases hp : approvalPrompt s = true
      · rw [if_pos hp] at h
        cases h
        rfl
      · rw [if_neg hp] at h
        cases h
        cases hc
  | tool_pending => cases h; cases ha
  | crashed => cases h; cases ha
  | working => cases h; cases ha
  | idle => cases h; cases ha

/-! ## The view -/

/-- ASCII as it is, other white space as a space, anything else as one mark. -/
def view (u : UInt16) : UInt16 := if u < 0x80 then u else if isWhiteSpace u then 0x20 else 0x80

theorem view_ascii {u : UInt16} (h : u < 0x80) : view u = u := if_pos h

theorem not_lt_view {u : UInt16} (h : ¬ u < 0x80) : view u = 0x20 ∨ view u = 0x80 := by
  unfold view
  rw [if_neg h]
  split
  · exact Or.inl rfl
  · exact Or.inr rfl

/-- A character of the tests is seen exactly where it stands. -/
theorem view_beq {a : UInt16} (ha : a < 0x80) (hs : a ≠ 0x20) (u : UInt16) :
    (view u == a) = (u == a) := by
  by_cases hu : u < 0x80
  · rw [view_ascii hu]
  · have hne : u ≠ a := by
      intro he
      rw [he] at hu
      exact hu ha
    have hview : view u ≠ a := by
      rcases not_lt_view hu with h | h
      · rw [h]
        exact Ne.symm hs
      · rw [h]
        intro he
        rw [← he] at ha
        exact absurd ha (by decide)
    rw [beq_false_of_ne hview, beq_false_of_ne hne]

theorem view_isWordChar (u : UInt16) : isWordChar (view u) = isWordChar u := by
  by_cases hu : u < 0x80
  · rw [view_ascii hu]
  · have hword : isWordChar u = false := by
      simp only [UInt16.lt_iff_toNat_lt, UInt16.reduceToNat] at hu
      simp only [isWordChar, isDigit, Bool.or_eq_false_iff, Bool.and_eq_false_iff,
        decide_eq_false_iff_not, beq_eq_false_iff_ne, ne_eq, UInt16.le_iff_toNat_le,
        ← UInt16.toNat_inj, UInt16.reduceToNat]
      omega
    rw [hword]
    rcases not_lt_view hu with h | h
    · rw [h]; rfl
    · rw [h]; rfl

theorem view_isWhiteSpace (u : UInt16) : isWhiteSpace (view u) = isWhiteSpace u := by
  unfold view
  split
  · rfl
  · split
    · rename_i h
      rw [h]; rfl
    · rename_i h
      rw [Bool.not_eq_true] at h
      rw [h]; rfl

theorem dropWhile_view (s : JsString) :
    (s.dropWhile isWhiteSpace).map view = (s.map view).dropWhile isWhiteSpace := by
  have hcomp : isWhiteSpace ∘ view = isWhiteSpace := funext view_isWhiteSpace
  rw [List.dropWhile_map, hcomp]

theorem trim_view (s : JsString) : (trim s).map view = trim (s.map view) := by
  unfold trim trimEnd trimStart List.rdropWhile
  rw [List.map_reverse, dropWhile_view, List.map_reverse, dropWhile_view]

/-- An ASCII text without spaces. -/
def isPlain (text : JsString) : Bool := text.all fun a => a < 0x80 && a != 0x20

theorem comap_view_lit {text : JsString} (h : isPlain text = true) :
    (lit text).comap view = lit text := by
  refine comap_lit fun a ha b => ?_
  obtain ⟨hlt, hne⟩ := Bool.and_eq_true_iff.mp (List.all_eq_true.mp h a ha)
  exact view_beq (of_decide_eq_true hlt) (by simpa using hne) b

theorem comap_view_wordBound : wordBound.comap view = wordBound := by
  unfold wordBound Pattern.comap
  rw [show (fun a => isWordChar (view a)) = isWordChar from funext view_isWordChar]

theorem comap_view_approval : APPROVAL_PROMPT_RE.comap view = APPROVAL_PROMPT_RE := by
  have h : ∀ text : JsString, isPlain text = true → (lit text).comap view = lit text :=
    fun text => comap_view_lit
  simp only [APPROVAL_PROMPT_RE, seqAll, anyOf, Pattern.comap, comap_view_wordBound]
  rw [h (js "approve") rfl, h (js "approval") rfl, h (js "y/n") rfl, h (js "proceed?") rfl,
    h (js "continue?") rfl]

theorem comap_view_question : QUESTION_RE.comap view = QUESTION_RE := by
  simp only [QUESTION_RE, Pattern.comap]
  rw [comap_view_lit rfl]

theorem test_view {r : Pattern UInt16} (h : r.comap view = r) (s : JsString) :
    r.test (s.map view) = r.test s := by
  rw [test_map, h]

/-- What the condition looks at. -/
def promptSeen (t : JsString) : Bool := APPROVAL_PROMPT_RE.test t || QUESTION_RE.test (trim t)

theorem approvalPromptBy_view (finalSigma : JsString → JsString → Bool) (s : JsString) :
    approvalPromptBy finalSigma s = promptSeen ((toLowerCase finalSigma s).map view) := by
  unfold approvalPromptBy promptSeen
  rw [← trim_view, test_view comap_view_approval, test_view comap_view_question]

/-! ## Lower case under the view -/

theorem surrogate_view {u : UInt16} (h : 0xD800 ≤ u.toNat ∧ u.toNat ≤ 0xDFFF) : view u = 0x80 := by
  have hbig : ¬ u < 0x80 := by
    simp only [UInt16.lt_iff_toNat_lt, UInt16.reduceToNat]
    omega
  have hspace : isWhiteSpace u = false := by
    simp only [isWhiteSpace, Bool.or_eq_false_iff, Bool.and_eq_false_iff, decide_eq_false_iff_not,
      beq_eq_false_iff_ne, ne_eq, UInt16.le_iff_toNat_le, ← UInt16.toNat_inj, UInt16.reduceToNat]
    omega
  unfold view
  rw [if_neg hbig, hspace]
  rfl

/-- No range of the table touches the surrogates, and the ranges of the
supplementary planes stay in them. -/
theorem lowerTable_ranges : ∀ r ∈ lowerTable, (r.last < 0xD800 ∨ 0xDFFF < r.first) ∧
    (0x10000 ≤ r.last → (0x10000 : Int) ≤ r.first + r.delta ∧ r.last + r.delta < 0x110000) := by
  decide +kernel

theorem lowerCodePoint_surrogate {c : Nat} (h : 0xD800 ≤ c ∧ c ≤ 0xDFFF) : lowerCodePoint c = [c] := by
  unfold lowerCodePoint
  rw [if_neg (by omega)]
  split
  · rename_i r hr
    have hlast : c ≤ r.last := by simpa using List.find?_some hr
    have hrange := (lowerTable_ranges r (List.mem_of_find?_eq_some hr)).1
    rw [if_neg (by omega)]
  · rfl

theorem lowerCodePoint_supplementary {c : Nat} (h : 0x10000 ≤ c) (hmax : c < 0x110000) :
    ∃ d, lowerCodePoint c = [d] ∧ 0x10000 ≤ d ∧ d < 0x110000 := by
  unfold lowerCodePoint
  rw [if_neg (by omega)]
  split
  · rename_i r hr
    have hlast : c ≤ r.last := by simpa using List.find?_some hr
    have hrange := (lowerTable_ranges r (List.mem_of_find?_eq_some hr)).2 (by omega)
    split
    · exact ⟨_, rfl, by omega, by omega⟩
    · exact ⟨c, rfl, h, hmax⟩
  · exact ⟨c, rfl, h, hmax⟩

theorem encodeCodePoint_supplementary_view {d : Nat} (h : 0x10000 ≤ d) (hmax : d < 0x110000) :
    (encodeCodePoint d).map view = [0x80, 0x80] := by
  unfold encodeCodePoint
  rw [if_neg (by omega), List.map_cons, List.map_singleton, surrogate_view, surrogate_view]
  · rw [UInt16.toNat_ofNat']
    omega
  · rw [UInt16.toNat_ofNat']
    omega

variable (finalSigma finalSigma' : JsString → JsString → Bool)

theorem lowerAt_pair_view {hi lo : UInt16} (hhi : isHighSurrogate hi = true)
    (hlo : isLowSurrogate lo = true) (before after : JsString) :
    (lowerAt finalSigma before (pairCodePoint hi lo) after).map view = [0x80, 0x80] := by
  obtain ⟨hge, hlt⟩ := pairCodePoint_lt hhi hlo
  obtain ⟨d, hd, hdge, hdlt⟩ := lowerCodePoint_supplementary hge hlt
  unfold lowerAt
  rw [if_neg (by omega), hd, List.flatMap_singleton, encodeCodePoint_supplementary_view hdge hdlt]

theorem lowerAt_high_view {hi : UInt16} (h : isHighSurrogate hi = true) (before after : JsString) :
    (lowerAt finalSigma before hi.toNat after).map view = [0x80] := by
  simp only [isHighSurrogate, Bool.and_eq_true, decide_eq_true_eq, UInt16.le_iff_toNat_le,
    UInt16.reduceToNat] at h
  unfold lowerAt
  rw [if_neg (by omega), lowerCodePoint_surrogate (by omega), List.flatMap_singleton, encodeCodePoint,
    if_pos (by omega), UInt16.ofNat_toNat, List.map_singleton, surrogate_view (by omega)]

/-- The context of a code point only chooses between two sigmas. -/
theorem lowerAt_view (c : Nat) (before before' after after' : JsString) :
    (lowerAt finalSigma before c after).map view =
      (lowerAt finalSigma' before' c after').map view := by
  have sigma : ∀ b : Bool, (if b = true then [0x3C2] else [(0x3C3 : UInt16)]).map view = [0x80] := by
    decide
  unfold lowerAt
  split
  · rw [sigma, sigma]
  · rfl

/-- What is seen of a text cut anywhere is a prefix of what is seen of the text. -/
theorem lowerFrom_take_view (before before' s : JsString) (n : Nat) :
    (lowerFrom finalSigma before (s.take n)).map view <+: (lowerFrom finalSigma' before' s).map view := by
  induction before', s using lowerFrom.induct generalizing before n with
  | case1 before' => simp [lowerFrom]
  | case2 before' u =>
    cases n with
    | zero => simp [lowerFrom]
    | succ n =>
      have heq := lowerAt_view finalSigma finalSigma' u.toNat before before' [] []
      simp only [List.take_succ_cons, List.take_nil, lowerFrom, heq, List.prefix_rfl]
  | case3 before' hi lo rest hpair ih =>
    obtain ⟨hhi, hlo⟩ := Bool.and_eq_true_iff.mp hpair
    cases n with
    | zero => simp [lowerFrom]
    | succ n =>
      rw [lowerFrom.eq_3 finalSigma', if_pos hpair, List.map_append, lowerAt_pair_view finalSigma' hhi hlo]
      cases n with
      | zero =>
        simp only [List.take_succ_cons, List.take_zero, lowerFrom]
        rw [lowerAt_high_view finalSigma hhi]
        simp
      | succ n =>
        rw [List.take_succ_cons, List.take_succ_cons, lowerFrom, if_pos hpair, List.map_append,
          lowerAt_pair_view finalSigma hhi hlo, List.prefix_append_right_inj]
        exact ih (lo :: hi :: before) n
  | case4 before' u v rest hpair ih =>
    cases n with
    | zero => simp [lowerFrom]
    | succ n =>
      rw [lowerFrom.eq_3 finalSigma', if_neg hpair, List.map_append]
      cases n with
      | zero =>
        simp only [List.take_succ_cons, List.take_zero, lowerFrom]
        rw [lowerAt_view finalSigma finalSigma' u.toNat before before' [] (v :: rest)]
        exact List.prefix_append _ _
      | succ n =>
        have hrest := ih (u :: before) (n + 1)
        rw [List.take_succ_cons] at hrest
        rw [List.take_succ_cons, List.take_succ_cons, lowerFrom, if_neg hpair, List.map_append,
          lowerAt_view finalSigma finalSigma' u.toNat before before' _ (v :: rest),
          List.prefix_append_right_inj]
        exact hrest

theorem toLowerCase_view (s : JsString) :
    (toLowerCase finalSigma s).map view = (toLowerCase finalSigma' s).map view := by
  have h := lowerFrom_take_view finalSigma finalSigma' [] [] s s.length
  have h' := lowerFrom_take_view finalSigma' finalSigma [] [] s s.length
  rw [List.take_length] at h h'
  exact h.eq_of_length_le h'.length_le

/-- The approval test is the same under every reading of `Final_Sigma`. -/
theorem approvalPromptBy_eq (s : JsString) : approvalPromptBy finalSigma s = approvalPrompt s := by
  unfold approvalPrompt
  rw [approvalPromptBy_view, approvalPromptBy_view]
  rw [toLowerCase_view finalSigma (fun _ _ => false)]

/-! ## Cutting a summary -/

/-- A prompt word that ends where the text ends. -/
def PROMPT_AT_END_RE : Pattern UInt16 :=
  seqAll [wordBound, anyOf [lit (js "approve"), lit (js "approval"), lit (js "y/n")], .atEnd]

/-- The cut falls right after a prompt word, or after a question mark and white
space: there the cut text asks what the whole text need not ask. -/
def cutAsks (cut : JsString) : Bool :=
  let last := toLowerCase (fun _ _ => false) cut
  PROMPT_AT_END_RE.test last || QUESTION_RE.test (trim last)

theorem comap_view_atEnd : PROMPT_AT_END_RE.comap view = PROMPT_AT_END_RE := by
  have h : ∀ text : JsString, isPlain text = true → (lit text).comap view = lit text :=
    fun text => comap_view_lit
  simp only [PROMPT_AT_END_RE, seqAll, anyOf, Pattern.comap, comap_view_wordBound]
  rw [h (js "approve") rfl, h (js "approval") rfl, h (js "y/n") rfl]

theorem matches_words {words : List JsString} {left mid post : JsString} :
    (anyOf (words.map lit)).Matches left mid post ↔ mid ∈ words := by
  rw [matches_anyOf]
  simp only [List.mem_map, exists_exists_and_eq_and, matches_lit, exists_eq_right']

def promptWords : List JsString :=
  [js "approve", js "approval", js "y/n", js "proceed?", js "continue?"]

theorem approval_matches {left mid post : JsString} :
    APPROVAL_PROMPT_RE.Matches left mid post ↔ isBound isWordChar left (mid ++ post) = true ∧
      mid ∈ promptWords ∧ isBound isWordChar (mid.reverse ++ left) post = true := by
  have h : APPROVAL_PROMPT_RE = .seq wordBound (.seq (anyOf (promptWords.map lit)) wordBound) := rfl
  rw [h, wordBound, matches_bound_seq, matches_seq_bound, matches_words]

theorem promptAtEnd_matches {left mid post : JsString} :
    PROMPT_AT_END_RE.Matches left mid post ↔ isBound isWordChar left (mid ++ post) = true ∧
      mid ∈ [js "approve", js "approval", js "y/n"] ∧ post = [] := by
  have h : PROMPT_AT_END_RE =
      .seq wordBound (.seq (anyOf ([js "approve", js "approval", js "y/n"].map lit)) .atEnd) := rfl
  rw [h, wordBound, matches_bound_seq, matches_seq_atEnd, matches_words]

/-- Before the end of the text a boundary follows exactly the words that end in
a letter. -/
theorem approval_matches_end {left mid : JsString} :
    APPROVAL_PROMPT_RE.Matches left mid [] ↔ PROMPT_AT_END_RE.Matches left mid [] := by
  have hlast : ∀ w ∈ promptWords, isBound isWordChar (w.reverse ++ left) [] = true ↔
      w ∈ [js "approve", js "approval", js "y/n"] := by
    intro w hw
    have hhead : isBound isWordChar (w.reverse ++ left) [] = isBound isWordChar w.reverse [] := by
      have hne : w.reverse ≠ [] := by
        revert w
        decide
      obtain ⟨a, as, ha⟩ := List.exists_cons_of_ne_nil hne
      rw [ha]
      rfl
    rw [hhead]
    clear hhead
    revert w
    decide
  have hsub : ∀ w ∈ [js "approve", js "approval", js "y/n"], w ∈ promptWords := by decide
  rw [approval_matches, promptAtEnd_matches]
  refine ⟨fun h => ⟨h.1, (hlast mid h.2.1).mp h.2.2, rfl⟩, fun h => ?_⟩
  have hmem := hsub mid h.2.1
  exact ⟨h.1, hmem, (hlast mid hmem).mpr h.2.1⟩

theorem approval_of_promptAtEnd {t : JsString} (h : PROMPT_AT_END_RE.test t = true) :
    APPROVAL_PROMPT_RE.test t = true := by
  obtain ⟨pre, mid, post, ht, hm⟩ := (test_iff _).mp h
  have hpost : post = [] := (promptAtEnd_matches.mp hm).2.2
  rw [hpost] at hm
  exact (test_iff _).mpr ⟨pre, mid, [], by rw [ht, hpost], approval_matches_end.mpr hm⟩

/-- A prompt found in the first part of a text is found in the whole, unless it
ends with the part. -/
theorem approval_test_append {t more : JsString} (h : APPROVAL_PROMPT_RE.test t = true) :
    APPROVAL_PROMPT_RE.test (t ++ more) = true ∨ PROMPT_AT_END_RE.test t = true := by
  obtain ⟨pre, mid, post, ht, hm⟩ := (test_iff _).mp h
  by_cases hp : post = []
  · rw [hp] at hm
    exact Or.inr ((test_iff _).mpr ⟨pre, mid, [], by rw [ht, hp], approval_matches_end.mp hm⟩)
  · refine Or.inl ((test_iff _).mpr ⟨pre, mid, post ++ more, ?_, ?_⟩)
    · rw [ht, List.append_assoc]
    · exact matches_append (by decide) more hp hm

/-- Where the whole text is no approval prompt, the cut text is one exactly when
the cut makes it ask. -/
theorem approvalPrompt_take {s : JsString} (n : Nat) (h : approvalPrompt s = false) :
    approvalPrompt (s.take n) = cutAsks (s.take n) := by
  obtain ⟨more, hmore⟩ := lowerFrom_take_view (fun _ _ => false) (fun _ _ => false) [] [] s n
  have hwhole : APPROVAL_PROMPT_RE.test (toLowerCase (fun _ _ => false) s) = false :=
    (Bool.or_eq_false_iff.mp h).1
  rw [← test_view comap_view_approval, toLowerCase, ← hmore] at hwhole
  have hcut : APPROVAL_PROMPT_RE.test (toLowerCase (fun _ _ => false) (s.take n)) =
      PROMPT_AT_END_RE.test (toLowerCase (fun _ _ => false) (s.take n)) := by
    rw [Bool.eq_iff_iff]
    refine ⟨fun hc => ?_, approval_of_promptAtEnd⟩
    rw [← test_view comap_view_approval] at hc
    rcases approval_test_append hc with hlong | hend
    · rw [toLowerCase, hwhole] at hlong
      cases hlong
    · rw [test_view comap_view_atEnd] at hend
      exact hend
  unfold approvalPrompt approvalPromptBy cutAsks
  simp only [hcut]

end Conductor.Sessions.Suggest
