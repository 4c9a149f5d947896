import Conductor.Js.JsonNesting
import Conductor.Js.Utf8Cut

/-! # JSON objects that were cut

What the printer writes never closes more brackets than it has opened, and
between its first and its last unit an object is open. A part of a printed
object that stops before its end, or that starts after its beginning and goes
on to the end, is therefore no JSON text. -/
namespace Conductor.Js.JsonCut
open Conductor.Lib.Runs Conductor.Js.Text Conductor.Js.Number Conductor.Js.Values
open Conductor.Js.JsonText Conductor.Js.JsonNesting Conductor.Js.Utf8 Conductor.Js.Utf8Cut

/-! ## Printed texts stand at one level -/

/-- The scan never sinks below the given depth. -/
structure Above (lo : Int) (a : Nesting) (s : JsString) (b : Nesting) : Prop where
  scans : Scans a s b
  above : ∀ n, Visited scan a s n → lo ≤ n.depth

theorem Above.append {lo : Int} {a b c : Nesting} {s t : JsString} (hs : Above lo a s b)
    (ht : Above lo b t c) : Above lo a (s ++ t) c := by
  refine ⟨hs.scans.append ht.scans, fun n hn => ?_⟩
  rcases visited_append hs.scans hn with hn | hn
  · exact hs.above n hn
  · exact ht.above n hn

theorem above_nil {lo : Int} {a : Nesting} (h : lo ≤ a.depth) : Above lo a [] a := by
  refine ⟨scans_nil.mpr rfl, fun n hn => ?_⟩
  obtain ⟨past, hp, hpast⟩ := hn
  rw [List.prefix_nil.mp hp] at hpast
  cases hpast
  exact h

theorem above_cons {lo : Int} {a b c : Nesting} {u : UInt16} {s : JsString} (hlo : lo ≤ a.depth)
    (hu : scan a u = some b) (hs : Above lo b s c) : Above lo a (u :: s) c := by
  refine ⟨scans_cons_iff.mpr ⟨b, hu, hs.scans⟩, fun n hn => ?_⟩
  rcases visited_cons hu hn with rfl | hn
  · exact hlo
  · exact hs.above n hn

theorem Above.mono {lo lo' : Int} {a b : Nesting} {s : JsString} (h : Above lo a s b)
    (hle : lo' ≤ lo) : Above lo' a s b := ⟨h.scans, fun n hn => le_trans hle (h.above n hn)⟩

/-- A text that stands at one level, like a whole value. -/
def Level (m : Mode) (s : JsString) : Prop := ∀ d, Above d ⟨d, m⟩ s ⟨d, m⟩

theorem Level.append {m : Mode} {s t : JsString} (hs : Level m s) (ht : Level m t) :
    Level m (s ++ t) := fun d => (hs d).append (ht d)

theorem level_nil (m : Mode) : Level m [] := fun _ => above_nil (le_refl _)

theorem level_plain {s : JsString} (hs : s.all isPlain = true) : Level .code s := by
  have h := List.all_eq_true.mp hs
  clear hs
  intro d
  induction s with
  | nil => exact level_nil _ d
  | cons u s ih =>
    exact above_cons (le_refl _) (scan_plain (h u (by simp)) d) (ih fun v hv => h v (by simp [hv]))

theorem level_string {s : JsString} (h : ∀ u ∈ s, u ≠ 0x22 ∧ u ≠ 0x5C) : Level .string s := by
  intro d
  induction s with
  | nil => exact level_nil _ d
  | cons u s ih =>
    have hu := h u (by simp)
    exact above_cons (le_refl _) (scan_string hu.1 hu.2 d) (ih fun v hv => h v (by simp [hv]))

theorem level_escape (e : UInt16) {s : JsString} (h : Level .string s) :
    Level .string (0x5C :: e :: s) := by
  intro d
  have he : scan ⟨d, .string⟩ 0x5C = some ⟨d, .escape⟩ := rfl
  exact above_cons (le_refl _) he (above_cons (le_refl _) rfl (h d))

theorem ne_of_hexDigit {n : Nat} (h : n < 16) : hexDigit n ≠ 0x22 ∧ hexDigit n ≠ 0x5C := by
  have hall : ∀ m, m < 16 → hexDigit m ≠ 0x22 ∧ hexDigit m ≠ 0x5C := by decide
  exact hall n h

theorem level_quoteUnit (u : UInt16) : Level .string (quoteUnit u) := by
  have hu : u.toNat < 65536 := u.toNat_lt
  have hshort : ∀ e, Level .string [0x5C, e] := fun e => level_escape e (level_nil _)
  unfold quoteUnit
  split_ifs with h₁ h₂ h₃ h₄ h₅ h₆ h₇ h₈
  · exact hshort _
  · exact hshort _
  · exact hshort _
  · exact hshort _
  · exact hshort _
  · exact hshort _
  · exact hshort _
  · refine level_escape _ (level_string ?_)
    simp only [List.forall_mem_cons, List.not_mem_nil, false_implies, implies_true, and_true]
    exact ⟨ne_of_hexDigit (by omega), ne_of_hexDigit (by omega), ne_of_hexDigit (by omega),
      ne_of_hexDigit (by omega)⟩
  · exact level_string (by simp [h₆, h₇])

theorem ne_of_surrogate {u : UInt16} (h : isHighSurrogate u = true ∨ isLowSurrogate u = true) :
    u ≠ 0x22 ∧ u ≠ 0x5C := by
  constructor
  · intro hu
    rw [hu] at h
    revert h
    decide
  · intro hu
    rw [hu] at h
    revert h
    decide

theorem level_quoteUnits (s : JsString) : Level .string (quoteUnits s) := by
  refine quoteUnits_of (level_nil _) Level.append level_quoteUnit (fun u v hu hv => ?_) s
  exact level_string (List.forall_mem_cons.mpr ⟨ne_of_surrogate (.inl hu),
    List.forall_mem_singleton.mpr (ne_of_surrogate (.inr hv))⟩)

theorem level_quote (s : JsString) : Level .code (quote s) := by
  intro d
  have hopen : Above d ⟨d, .code⟩ (js "\"") ⟨d, .string⟩ :=
    above_cons (le_refl _) rfl (above_nil (le_refl _))
  have hclose : Above d ⟨d, .string⟩ (js "\"") ⟨d, .code⟩ :=
    above_cons (le_refl _) rfl (above_nil (le_refl _))
  exact (hopen.append (level_quoteUnits s d)).append hclose

theorem level_numberText (n : JsNumber) : Level .code (numberText n) := by
  refine level_plain (List.all_eq_true.mpr fun u hu => ?_)
  have h := numberUnits_numberText n u hu
  simp only [isNumberUnit, Bool.or_eq_true, beq_iff_eq] at h
  rcases h with ((((((h | rfl) | rfl) | rfl) | rfl) | rfl) | rfl) | rfl
  · exact plain_of_isDigit h
  all_goals rfl

/-- A value one level deeper between brackets. -/
theorem level_bracket {opening closing : UInt16} {s : JsString}
    (ho : opening = 0x7B ∨ opening = 0x5B) (hc : closing = 0x7D ∨ closing = 0x5D)
    (h : Level .code s) : Level .code ([opening] ++ s ++ [closing]) := by
  intro d
  have hopen : Above d ⟨d, .code⟩ [opening] ⟨d + 1, .code⟩ := by
    refine above_cons (le_refl _) ?_ (above_nil (by simp))
    rcases ho with rfl | rfl
    · rfl
    · rfl
  have hclose : Above d ⟨d + 1, .code⟩ [closing] ⟨d, .code⟩ := by
    refine above_cons (by simp) ?_ (above_nil (le_refl _))
    rcases hc with rfl | rfl
    · simp [scan]
    · simp [scan]
  exact (hopen.append ((h (d + 1)).mono (by omega))).append hclose

theorem level_kept : Kept (Level .code) where
  nil := level_nil _
  append := Level.append
  word := by
    simp only [List.forall_mem_cons, List.not_mem_nil, false_implies, implies_true, and_true]
    exact ⟨level_plain (by decide), level_plain (by decide), level_plain (by decide),
      level_plain (by decide), level_plain (by decide)⟩
  number := level_numberText
  quoted := level_quote
  array := level_bracket (.inr rfl) (.inr rfl)
  object := level_bracket (.inl rfl) (.inl rfl)

/-! ## An object that was cut -/

/-- One scan reads as code what the other reads as a string. -/
def Apart (a b : Nesting) : Prop :=
  (a.mode = .code ∧ b.mode = .string) ∨ (a.mode = .string ∧ b.mode = .code)

/-- A quote turns both scans around, and a backslash stops one of them. -/
theorem apart_scan {a b a' b' : Nesting} {u : UInt16} (h : Apart a b) (ha : scan a u = some a')
    (hb : scan b u = some b') : Apart a' b' := by
  have side : ∀ {c s c' s' : Nesting}, c.mode = .code → s.mode = .string → scan c u = some c' →
      scan s u = some s' → Apart c' s' := by
    intro c s c' s' hc hs hc' hs'
    simp only [scan, hc, hs] at hc' hs'
    split_ifs at hc' hs'
    · cases hc'; cases hs'; exact .inr ⟨rfl, rfl⟩
    · cases hc'; cases hs'; exact .inl ⟨rfl, hs⟩
    · cases hc'; cases hs'; exact .inl ⟨rfl, hs⟩
    · cases hc'; cases hs'; exact .inl ⟨hc, hs⟩
  rcases h with ⟨hm, hm'⟩ | ⟨hm, hm'⟩
  · exact side hm hm' ha hb
  · exact (side hm' hm hb ha).symm.imp And.symm And.symm

theorem Apart.scans {a b a' b' : Nesting} {s : JsString} (h : Apart a b) (ha : Scans a s a')
    (hb : Scans b s b') : Apart a' b' := by
  induction s generalizing a b with
  | nil =>
    rw [← scans_nil.mp ha, ← scans_nil.mp hb]
    exact h
  | cons u s ih =>
    obtain ⟨c, hc, ha⟩ := scans_cons_iff.mp ha
    obtain ⟨d, hd, hb⟩ := scans_cons_iff.mp hb
    exact ih (apart_scan h hc hd) ha hb

theorem not_apart_code {d e : Int} : ¬ Apart ⟨d, .code⟩ ⟨e, .code⟩ := by
  intro h
  rcases h with ⟨_, h⟩ | ⟨h, _⟩
  · cases h
  · cases h

/-- What closes a bracket that it did not open is not balanced by itself, also
when it is read from the middle of a string or of an escape. -/
theorem not_scans_rest {n : Nesting} {q : JsString} (hd : 1 ≤ n.depth) (hq : Scans n q ⟨0, .code⟩) :
    ¬ Scans ⟨0, .code⟩ q ⟨0, .code⟩ := by
  intro h
  obtain ⟨d, m⟩ := n
  simp only at hd
  have hshift : ∀ {k m' q'}, Scans ⟨0, m'⟩ q' ⟨0, .code⟩ → Scans ⟨k, m'⟩ q' ⟨0, .code⟩ → k = 0 := by
    intro k m' q' h₀ hk
    have := (h₀.shift k).unique (by simpa using hk)
    simpa using this
  cases m with
  | code =>
    have hz : d = 0 := hshift h hq
    omega
  | string => exact not_apart_code (Apart.scans (.inl ⟨rfl, rfl⟩) h hq)
  | escape =>
    cases q with
    | nil => cases scans_nil.mp hq
    | cons e q =>
      obtain ⟨b, hb, hq⟩ := scans_cons_iff.mp hq
      obtain ⟨c, hc, h⟩ := scans_cons_iff.mp h
      cases hb
      by_cases he : e = 0x22
      · -- the escaped quote opens a string, in step with the one it stands in
        rw [he] at hc
        cases hc
        have hz : d = 0 := hshift h hq
        omega
      · have hcode : c.mode = .code := by
          simp only [scan, he, if_false] at hc
          split_ifs at hc
          · cases hc; rfl
          · cases hc; rfl
          · cases hc; rfl
        exact not_apart_code (Apart.scans (.inl ⟨hcode, rfl⟩) h hq)

/-- Between its first and its last unit an object is open. -/
theorem scans_cut {ms : List (JsString × Json)} {p q : JsString} (h : stringify (.obj ms) = p ++ q)
    (hp : p ≠ []) (hq : q ≠ []) :
    ∃ n, 1 ≤ n.depth ∧ Scans ⟨0, .code⟩ p n ∧ Scans n q ⟨0, .code⟩ := by
  have hall : Scans ⟨0, .code⟩ (p ++ q) ⟨0, .code⟩ := h ▸ (kept_stringify level_kept (.obj ms) 0).scans
  obtain ⟨n, hpn, hnq⟩ := scans_append_iff.mp hall
  refine ⟨n, ?_, hpn, hnq⟩
  cases p with
  | nil => exact absurd rfl hp
  | cons u p =>
    rw [stringify, List.append_assoc] at h
    obtain ⟨hu, htail⟩ := List.cons.inj h
    have hpre : p <+: commas (stringifyMembers ms) := by
      have hle : p <+: commas (stringifyMembers ms) ++ [0x7D] := ⟨q, htail.symm⟩
      rcases List.prefix_concat_iff.mp hle with hp | hp
      · rw [hp] at htail
        exact absurd (List.self_eq_append_right.mp htail) hq
      · exact hp
    obtain ⟨b, hb, hbn⟩ := scans_cons_iff.mp hpn
    rw [← hu] at hb
    cases hb
    exact (level_kept.commas (kept_stringifyMembers level_kept ms) 1).above n ⟨p, hpre, hbn⟩

theorem parse_eq_none {text : JsString} (h : ¬ Scans ⟨0, .code⟩ text ⟨0, .code⟩) :
    parse text = none := by
  cases hv : parse text with
  | none => rfl
  | some v => exact absurd (scans_of_parse (by rw [hv]; rfl)) h

/-- The end of an object is no JSON text. -/
theorem parse_rest {ms : List (JsString × Json)} {p q : JsString}
    (h : stringify (.obj ms) = p ++ q) (hp : p ≠ []) (hq : q ≠ []) : parse q = none := by
  obtain ⟨n, hn, _, hnq⟩ := scans_cut h hp hq
  exact parse_eq_none (not_scans_rest hn hnq)

/-- The beginning of an object is no JSON text, whatever plain unit stands after it. -/
theorem parse_begin {ms : List (JsString × Json)} {p q r : JsString}
    (h : stringify (.obj ms) = p ++ q) (hp : p ≠ []) (hq : q ≠ [])
    (hr : ∀ u ∈ r, isPlain u = true) : parse (p ++ r) = none := by
  obtain ⟨n, hn, hpn, _⟩ := scans_cut h hp hq
  have hdeep : ∀ {s : JsString} {a b : Nesting}, (∀ u ∈ s, isPlain u = true) → Scans a s b →
      b.depth = a.depth := by
    intro s
    induction s with
    | nil => intro a b _ hs; rw [scans_nil.mp hs]
    | cons u s ih =>
      intro a b hu hs
      obtain ⟨c, hc, hs⟩ := scans_cons_iff.mp hs
      rw [ih (fun v hv => hu v (by simp [hv])) hs]
      obtain ⟨d, m⟩ := a
      cases m with
      | code =>
        rw [scan_plain (hu u (by simp))] at hc
        cases hc
        rfl
      | string =>
        simp only [scan] at hc
        split_ifs at hc
        · cases hc; rfl
        · cases hc; rfl
        · cases hc; rfl
      | escape => cases hc; rfl
  refine parse_eq_none fun hall => ?_
  obtain ⟨b, hb, hbr⟩ := scans_append_iff.mp hall
  rw [hb.unique hpn] at hbr
  have := hdeep hr hbr
  simp only at this
  omega

/-! ## A printed value in UTF-8 -/

theorem isText_numberText (n : JsNumber) : IsText (numberText n) := by
  refine isText_ascii fun u hu => ?_
  have h := numberUnits_numberText n u hu
  simp only [isNumberUnit, isDigit, Bool.or_eq_true, Bool.and_eq_true, decide_eq_true_eq,
    beq_iff_eq] at h
  rcases h with ((((((h | rfl) | rfl) | rfl) | rfl) | rfl) | rfl) | rfl
  · exact UInt16.lt_of_le_of_lt h.2 (by decide)
  all_goals decide

theorem isText_quoteUnit (u : UInt16) : IsText (quoteUnit u) := by
  have hu : u.toNat < 65536 := u.toNat_lt
  have hhex : ∀ n, n < 16 → hexDigit n < 0x80 := by decide
  unfold quoteUnit
  split_ifs with h₁ h₂ h₃ h₄ h₅ h₆ h₇ h₈
  · exact isText_of_all (by decide)
  · exact isText_of_all (by decide)
  · exact isText_of_all (by decide)
  · exact isText_of_all (by decide)
  · exact isText_of_all (by decide)
  · exact isText_of_all (by decide)
  · exact isText_of_all (by decide)
  · refine isText_ascii ?_
    simp only [unicodeEscape, List.forall_mem_cons, List.not_mem_nil, false_implies, implies_true,
      and_true]
    exact ⟨by decide, by decide, hhex _ (by omega), hhex _ (by omega), hhex _ (by omega),
      hhex _ (by omega)⟩
  · simp only [Bool.or_eq_true, not_or, Bool.not_eq_true] at h₈
    exact isText_unit h₈.1.2 h₈.2

theorem isText_quoteUnits (s : JsString) : IsText (quoteUnits s) :=
  quoteUnits_of isText_nil IsText.append isText_quoteUnit (fun _ _ => isText_pair) s

theorem isText_quote (s : JsString) : IsText (quote s) := by
  have hq : IsText (js "\"") := isText_of_all (by decide)
  exact (hq.append (isText_quoteUnits s)).append hq

theorem isText_kept : Kept IsText where
  nil := isText_nil
  append := IsText.append
  word := by
    simp only [List.forall_mem_cons, List.not_mem_nil, false_implies, implies_true, and_true]
    exact ⟨isText_of_all (by decide), isText_of_all (by decide), isText_of_all (by decide),
      isText_of_all (by decide), isText_of_all (by decide)⟩
  number := isText_numberText
  quoted := isText_quote
  array := fun h => ((isText_of_all (by decide)).append h).append (isText_of_all (by decide))
  object := fun h => ((isText_of_all (by decide)).append h).append (isText_of_all (by decide))

/-- What the printer wrote is read back as it was. -/
theorem decode_encode_stringify (v : Json) : decode (encode (stringify v)) = stringify v :=
  (kept_stringify isText_kept v).decode_encode

/-! ## A printed object whose bytes were cut -/

theorem parse_replacement (s : JsString) : parse (0xFFFD :: s) = none := by
  have h : parseValue (2 * (0xFFFD :: s).length + 1) (0xFFFD :: s) = none := by
    rw [parseValue]
    rfl
  rw [parse, h]
  rfl

/-- A JSON text that was cut is another text. -/
theorem cut_json {s : JsString} (ht : IsText s) (h : (parse s).isSome = true) {i : Nat} (hi : 0 < i)
    (hle : i ≤ (encode s).length) : decode ((encode s).drop i) ≠ s := by
  obtain ⟨cs, hcs, rfl⟩ := ht
  rw [encode_units hcs] at hle ⊢
  obtain ⟨p, k, q, hu, hp, hd⟩ := decode_drop hcs hle
  intro he
  rw [hd] at he
  cases k with
  | zero =>
    have hlen := congrArg List.length (he.trans hu)
    have hpos : 0 < p.length := List.length_pos_iff.mpr (hp hi)
    simp only [List.replicate_zero, List.nil_append, List.length_append] at hlen
    omega
  | succ k =>
    rw [← he, List.replicate_succ, List.cons_append, parse_replacement] at h
    cases h

/-- The bytes of an object without the first of them. -/
theorem parse_drop_bytes (ms : List (JsString × Json)) {i : Nat} (hi : 0 < i)
    (hle : i ≤ (encode (stringify (.obj ms))).length) :
    parse (decode ((encode (stringify (.obj ms))).drop i)) = none := by
  obtain ⟨cs, hcs, ht⟩ := kept_stringify isText_kept (.obj ms)
  rw [ht, encode_units hcs] at hle ⊢
  obtain ⟨p, k, q, hu, hp, hd⟩ := decode_drop hcs hle
  rw [hd]
  cases k with
  | succ k => exact parse_replacement _
  | zero =>
    by_cases hq : q = []
    · rw [hq]
      rfl
    · exact parse_rest (ht.trans hu) (hp hi) hq

/-- The bytes of an object without the last of them. -/
theorem parse_take_bytes (ms : List (JsString × Json)) {i : Nat}
    (hlt : i < (encode (stringify (.obj ms))).length) :
    parse (decode ((encode (stringify (.obj ms))).take i)) = none := by
  obtain ⟨cs, hcs, ht⟩ := kept_stringify isText_kept (.obj ms)
  rw [ht, encode_units hcs] at hlt ⊢
  obtain ⟨p, r, q, hu, hq, hr, hd⟩ := decode_take hcs hlt
  rw [hd]
  by_cases hp : p = []
  · rcases hr with rfl | rfl
    · rw [hp]
      rfl
    · rw [hp]
      exact parse_replacement []
  · refine parse_begin (ht.trans hu) hp hq ?_
    rcases hr with rfl | rfl
    · simp
    · exact List.all_eq_true.mp (by decide)

end Conductor.Js.JsonCut
