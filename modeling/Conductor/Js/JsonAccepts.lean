import Conductor.Js.Numerals

/-! # What the printer writes, the parser reads back

Every value whose numbers are doubles, written with or without white space
between its parts. -/
namespace Conductor.Js.JsonAccepts
open Conductor.Js.Text Conductor.Js.Number Conductor.Js.Values Conductor.Js.JsonText
open Conductor.Js.Doubles Conductor.Js.Numerals

/-! ## Strings -/

/-- A unit that stands for itself inside a string literal. -/
theorem parseString_unit {u : UInt16} (hq : u ≠ 0x22) (hlow : ¬ u < 0x20) (hb : u ≠ 0x5C)
    (t : JsString) : parseString (u :: t) = (parseString t).map fun p => (u :: p.1, p.2) := by
  rw [parseString.eq_def]
  simp only [if_neg hq, if_neg hlow, if_neg hb]
  cases parseString t with
  | none => rfl
  | some p => rfl

theorem parseString_escape {e v : UInt16} (he : escapeValue e = some v) (hne : e ≠ 0x75)
    (t : JsString) : parseString (0x5C :: e :: t) = (parseString t).map fun p => (v :: p.1, p.2) := by
  rw [parseString.eq_def]
  simp only [if_neg hne, he, Option.bind_eq_bind, Option.bind_some]
  cases parseString t with
  | none => rfl
  | some p => rfl

theorem hexValue_hexDigit {n : Nat} (h : n < 16) : hexValue (hexDigit n) = some n := by
  have hall : ∀ m, m < 16 → hexValue (hexDigit m) = some m := by decide
  exact hall n h

theorem parseString_unicodeEscape (u : UInt16) (t : JsString) :
    parseString (unicodeEscape u ++ t) = (parseString t).map fun p => (u :: p.1, p.2) := by
  have hu : u.toNat < 65536 := u.toNat_lt
  have hvalue : UInt16.ofNat ((((u.toNat / 0x1000) * 16 + u.toNat / 0x100 % 0x10) * 16 +
      u.toNat / 0x10 % 0x10) * 16 + u.toNat % 0x10) = u := by
    rw [← UInt16.toNat_inj, UInt16.toNat_ofNat']
    omega
  rw [unicodeEscape, parseString.eq_def]
  simp only [List.cons_append, List.nil_append, hexValue_hexDigit (show u.toNat / 0x1000 < 16 by omega),
    hexValue_hexDigit (show u.toNat / 0x100 % 0x10 < 16 by omega),
    hexValue_hexDigit (show u.toNat / 0x10 % 0x10 < 16 by omega),
    hexValue_hexDigit (show u.toNat % 0x10 < 16 by omega), hvalue, Option.bind_eq_bind, Option.bind_some,
    Option.pure_def]
  cases parseString t with
  | none => rfl
  | some p => rfl

theorem parseString_quoteUnit (u : UInt16) (t : JsString) :
    parseString (quoteUnit u ++ t) = (parseString t).map fun p => (u :: p.1, p.2) := by
  unfold quoteUnit
  split_ifs with h₁ h₂ h₃ h₄ h₅ h₆ h₇ h₈
  · rw [h₁]; exact parseString_escape (e := 0x62) rfl (by decide) t
  · rw [h₂]; exact parseString_escape (e := 0x74) rfl (by decide) t
  · rw [h₃]; exact parseString_escape (e := 0x6E) rfl (by decide) t
  · rw [h₄]; exact parseString_escape (e := 0x66) rfl (by decide) t
  · rw [h₅]; exact parseString_escape (e := 0x72) rfl (by decide) t
  · rw [h₆]; exact parseString_escape (e := 0x22) rfl (by decide) t
  · rw [h₇]; exact parseString_escape (e := 0x5C) rfl (by decide) t
  · exact parseString_unicodeEscape u t
  · simp only [Bool.or_eq_true, decide_eq_true_eq, not_or] at h₈
    exact parseString_unit h₆ h₈.1.1 h₇ t

theorem parseString_surrogate {u : UInt16} (h : isHighSurrogate u = true ∨ isLowSurrogate u = true)
    (t : JsString) : parseString (u :: t) = (parseString t).map fun p => (u :: p.1, p.2) := by
  simp only [isHighSurrogate, isLowSurrogate, Bool.and_eq_true, decide_eq_true_eq,
    UInt16.le_iff_toNat_le, UInt16.reduceToNat] at h
  refine parseString_unit ?_ ?_ ?_ t
  · rw [ne_eq, ← UInt16.toNat_inj]
    simp only [UInt16.reduceToNat]
    omega
  · rw [UInt16.lt_iff_toNat_lt]
    simp only [UInt16.reduceToNat]
    omega
  · rw [ne_eq, ← UInt16.toNat_inj]
    simp only [UInt16.reduceToNat]
    omega

theorem parseString_quoteUnits (s t : JsString) :
    parseString (quoteUnits s ++ t) = (parseString t).map fun p => (s ++ p.1, p.2) := by
  induction s using quoteUnits.induct with
  | case1 => simp [quoteUnits]
  | case2 u => exact parseString_quoteUnit u t
  | case3 u v rest hpair ih =>
    obtain ⟨hu, hv⟩ := Bool.and_eq_true_iff.mp hpair
    rw [quoteUnits, if_pos hpair, List.cons_append, List.cons_append, parseString_surrogate (.inl hu),
      parseString_surrogate (.inr hv), ih, Option.map_map, Option.map_map]
    rfl
  | case4 u v rest hpair ih =>
    rw [quoteUnits, if_neg hpair, List.append_assoc, parseString_quoteUnit, ih, Option.map_map]
    rfl

/-- A printed string reads back as it was. -/
theorem parseString_quote (s t : JsString) :
    parseString (quoteUnits s ++ js "\"" ++ t) = some (s, t) := by
  have hclose : parseString (js "\"" ++ t) = some ([], t) := by
    rw [show js "\"" ++ t = 0x22 :: t from rfl, parseString.eq_def]
    rfl
  rw [List.append_assoc, parseString_quoteUnits, hclose, Option.map_some, List.append_nil]

/-! ## Values -/

mutual

/-- Every number of the value is a double. -/
def Doubles : Json → Prop
  | .num n => IsDouble n
  | .arr xs => DoublesAll xs
  | .obj ms => DoublesMembers ms
  | _ => True

def DoublesAll : List Json → Prop
  | [] => True
  | x :: xs => Doubles x ∧ DoublesAll xs

def DoublesMembers : List (JsString × Json) → Prop
  | [] => True
  | (_, v) :: ms => Doubles v ∧ DoublesMembers ms

end

mutual

/-- What the text of a value stands for: only finite numbers have one, and of
the members with one key the last counts. -/
def readBack : Json → Json
  | .num (.finite q) => .num (.finite q)
  | .num _ => .null
  | .arr xs => .arr (readBackAll xs)
  | .obj ms => mkObject (readBackMembers ms)
  | v => v

def readBackAll : List Json → List Json
  | [] => []
  | x :: xs => readBack x :: readBackAll xs

def readBackMembers : List (JsString × Json) → List (JsString × Json)
  | [] => []
  | (key, v) :: ms => (key, readBack v) :: readBackMembers ms

end

def Space (w : JsString) : Prop := ∀ u ∈ w, isJsonSpace u = true

/-- What a stretch of a text stands for. Elements and members go up to their
closing bracket. -/
inductive Part
  | value (v : Json)
  | elements (xs : List Json)
  | members (ms : List (JsString × Json))

/-- The texts with white space after an opening bracket, a comma or a colon and
before a closing bracket. -/
inductive Writes : Part → JsString → Prop
  | null : Writes (.value .null) (js "null")
  | bool (b : Bool) : Writes (.value (.bool b)) (js (if b then "true" else "false"))
  | num {n : JsNumber} (h : IsDouble n) : Writes (.value (.num n)) (numberText n)
  | str (s : JsString) : Writes (.value (.str s)) (quote s)
  | emptyArray : Writes (.value (.arr [])) (js "[]")
  | array {w s : JsString} {xs : List Json} (hw : Space w) (h : Writes (.elements xs) s) :
      Writes (.value (.arr xs)) (js "[" ++ w ++ s)
  | emptyObject : Writes (.value (.obj [])) (js "\x7b\x7d")
  | object {w s : JsString} {ms : List (JsString × Json)} (hw : Space w)
      (h : Writes (.members ms) s) : Writes (.value (.obj ms)) (js "\x7b" ++ w ++ s)
  | lastElement {w s : JsString} {x : Json} (h : Writes (.value x) s) (hw : Space w) :
      Writes (.elements [x]) (s ++ w ++ js "]")
  | element {w s r : JsString} {x : Json} {xs : List Json} (h : Writes (.value x) s) (hw : Space w)
      (hr : Writes (.elements xs) r) : Writes (.elements (x :: xs)) (s ++ js "," ++ w ++ r)
  | lastMember {w w' s : JsString} (key : JsString) {v : Json} (hw : Space w)
      (h : Writes (.value v) s) (hw' : Space w') :
      Writes (.members [(key, v)]) (quote key ++ js ":" ++ w ++ s ++ w' ++ js "\x7d")
  | member {w w' s r : JsString} (key : JsString) {v : Json} {ms : List (JsString × Json)}
      (hw : Space w) (h : Writes (.value v) s) (hw' : Space w') (hr : Writes (.members ms) r) :
      Writes (.members ((key, v) :: ms)) (quote key ++ js ":" ++ w ++ s ++ js "," ++ w' ++ r)

theorem skipSpace_cons {u : UInt16} (h : isJsonSpace u = false) (s : JsString) :
    skipSpace (u :: s) = u :: s := by
  rw [skipSpace, List.dropWhile_cons, h]
  rfl

theorem skipSpace_append {w : JsString} (hw : Space w) (s : JsString) :
    skipSpace (w ++ s) = skipSpace s := List.dropWhile_append_of_pos hw

/-! The parser skips white space before it looks. -/

theorem parseValue_space {w : JsString} (hw : Space w) (n : Nat) (s : JsString) :
    parseValue n (w ++ s) = parseValue n s := by
  cases n with
  | zero => rfl
  | succ n => rw [parseValue, parseValue, skipSpace_append hw]

theorem parseElements_space {w : JsString} (hw : Space w) (n : Nat) (s : JsString) :
    parseElements n (w ++ s) = parseElements n s := by
  cases n with
  | zero => rfl
  | succ n => rw [parseElements, parseElements, parseValue_space hw]

theorem parseMembers_space {w : JsString} (hw : Space w) (n : Nat) (s : JsString) :
    parseMembers n (w ++ s) = parseMembers n s := by
  cases n with
  | zero => rfl
  | succ n => rw [parseMembers, parseMembers, skipSpace_append hw]

theorem parseValue_string (fuel : Nat) (s t : JsString) :
    parseValue (fuel + 1) (quote s ++ t) = some (.str s, t) := by
  have hopen : quote s ++ t = 0x22 :: (quoteUnits s ++ js "\"" ++ t) := by
    rw [quote, List.append_assoc, List.append_assoc, List.append_assoc]
    rfl
  rw [hopen, parseValue, skipSpace_cons (by decide)]
  simp only [if_neg (show ¬ (0x22 : UInt16) = 0x7B by decide),
    if_neg (show ¬ (0x22 : UInt16) = 0x5B by decide), if_true, parseString_quote, Option.map_some]

theorem parseValue_word (fuel : Nat) {w t : JsString} {v : Json}
    (h : (w, v) ∈ [(js "null", Json.null), (js "true", Json.bool true), (js "false", Json.bool false)]) :
    parseValue (fuel + 1) (w ++ t) = some (v, t) := by
  simp only [List.mem_cons, Prod.mk.injEq, List.not_mem_nil, or_false] at h
  rcases h with ⟨rfl, rfl⟩ | ⟨rfl, rfl⟩ | ⟨rfl, rfl⟩
  · rw [parseValue]; rfl
  · rw [parseValue]; rfl
  · rw [parseValue]; rfl

/-- A unit that begins a value or a key. -/
def Begins (s : JsString) : Prop :=
  ∃ u r, s = u :: r ∧ isJsonSpace u = false ∧ u ≠ 0x5D ∧ u ≠ 0x7D

theorem Begins.append {s : JsString} (h : Begins s) (t : JsString) : Begins (s ++ t) := by
  obtain ⟨u, r, rfl, hu⟩ := h
  exact ⟨u, r ++ t, rfl, hu⟩

theorem Begins.length_pos {s : JsString} (h : Begins s) : 0 < s.length := by
  obtain ⟨u, r, rfl, _⟩ := h
  simp

/-- A sign or a digit begins no other value. -/
theorem numeral_unit {u : UInt16} (h : u = 0x2D ∨ isDigit u = true) : isJsonSpace u = false ∧
    u ≠ 0x7B ∧ u ≠ 0x5B ∧ u ≠ 0x22 ∧ u ≠ 0x6E ∧ u ≠ 0x74 ∧ u ≠ 0x66 ∧ u ≠ 0x5D ∧ u ≠ 0x7D := by
  rcases h with rfl | h
  · decide
  · simp only [isDigit, Bool.and_eq_true, decide_eq_true_eq, UInt16.le_iff_toNat_le] at h
    simp only [isJsonSpace, Bool.or_eq_false_iff, beq_eq_false_iff_ne, ne_eq, ← UInt16.toNat_inj]
    simp only [UInt16.reduceToNat] at h ⊢
    omega

theorem parseValue_number (fuel : Nat) {n : JsNumber} (hn : IsDouble n) {t : JsString} (ht : Ends t) :
    parseValue (fuel + 1) (numberText n ++ t) = some (readBack (.num n), t) := by
  cases n with
  | nan => exact parseValue_word fuel (w := js "null") (by simp [readBack])
  | infinity negative => exact parseValue_word fuel (w := js "null") (by simp [readBack])
  | finite q =>
    have hm := parseNumber_numberText hn ht
    obtain ⟨u, s, hus, hu⟩ := numberText_head q t hm
    obtain ⟨hs, h₁, h₂, h₃, h₄, h₅, h₆, _⟩ := numeral_unit hu
    rw [hus] at hm ⊢
    rw [parseValue, skipSpace_cons hs]
    simp only [if_neg h₁, if_neg h₂, if_neg h₃, if_neg h₄, if_neg h₅, if_neg h₆, hm, Option.map_some,
      readBack]

theorem begins_number {n : JsNumber} (hn : IsDouble n) : Begins (numberText n) := by
  cases n with
  | nan => exact ⟨_, _, rfl, by decide⟩
  | infinity negative => exact ⟨_, _, rfl, by decide⟩
  | finite q =>
    have hnil : Ends [] := fun u hu => by cases hu
    obtain ⟨u, s, hus, hu⟩ := numberText_head q [] (parseNumber_numberText hn hnil)
    rw [List.append_nil] at hus
    obtain ⟨hs, _, _, _, _, _, _, h₁, h₂⟩ := numeral_unit hu
    exact ⟨u, s, hus, hs, h₁, h₂⟩

theorem begins_quote (s t : JsString) : Begins (quote s ++ t) :=
  ⟨0x22, quoteUnits s ++ js "\"" ++ t, by simp [quote, js, encodeCodePoint], by decide⟩

theorem parseValue_array {fuel : Nat} {s t : JsString} {xs : List Json} {w : JsString} (hw : Space w)
    (hs : Begins s) (h : parseElements fuel s = some (xs, t)) :
    parseValue (fuel + 1) (0x5B :: (w ++ s)) = some (.arr xs, t) := by
  obtain ⟨u, r, rfl, hu, hne, _⟩ := hs
  rw [parseValue, skipSpace_cons (by decide)]
  simp only [if_neg (show ¬ (0x5B : UInt16) = 0x7B by decide), if_true, skipSpace_append hw,
    skipSpace_cons hu]
  split
  · rename_i rest' he
    exact absurd (List.cons.inj he).1 hne
  · rw [h]
    rfl

theorem parseValue_object {fuel : Nat} {s t : JsString} {ms : List (JsString × Json)} {w : JsString}
    (hw : Space w) (hs : Begins s) (h : parseMembers fuel s = some (ms, t)) :
    parseValue (fuel + 1) (0x7B :: (w ++ s)) = some (mkObject ms, t) := by
  obtain ⟨u, r, rfl, hu, _, hne⟩ := hs
  rw [parseValue, skipSpace_cons (by decide)]
  simp only [if_true, skipSpace_append hw, skipSpace_cons hu]
  split
  · rename_i rest' he
    exact absurd (List.cons.inj he).1 hne
  · rw [h]
    rfl

/-- What follows an element of a list: the closing bracket or a comma. -/
theorem parseElements_last {fuel : Nat} {s t : JsString} {x : Json} {w : JsString} (hw : Space w)
    (h : parseValue fuel s = some (x, w ++ 0x5D :: t)) :
    parseElements (fuel + 1) s = some ([x], t) := by
  rw [parseElements, h]
  simp only [Option.bind_eq_bind, Option.bind_some, skipSpace_append hw,
    skipSpace_cons (show isJsonSpace 0x5D = false by decide)]
  rfl

theorem parseElements_more {fuel : Nat} {s r t : JsString} {x : Json} {xs : List Json}
    (h : parseValue fuel s = some (x, 0x2C :: r)) (hr : parseElements fuel r = some (xs, t)) :
    parseElements (fuel + 1) s = some (x :: xs, t) := by
  rw [parseElements, h]
  simp only [Option.bind_eq_bind, Option.bind_some, skipSpace_cons (show isJsonSpace 0x2C = false by decide),
    hr]
  rfl

/-- The key of a member, up to its value. -/
theorem parseMembers_key (key s : JsString) : ∃ rest s₁,
    expect [0x22] (skipSpace (quote key ++ js ":" ++ s)) = some rest ∧
      parseString rest = some (key, s₁) ∧ expect [0x3A] (skipSpace s₁) = some s := by
  have hopen : quote key ++ js ":" ++ s = 0x22 :: (quoteUnits key ++ js "\"" ++ 0x3A :: s) := by
    rw [quote, List.append_assoc, List.append_assoc, List.append_assoc, List.append_assoc]
    rfl
  refine ⟨_, _, ?_, parseString_quote key (0x3A :: s), ?_⟩
  · rw [hopen, skipSpace_cons (by decide)]
    simp [expect]
  · rw [skipSpace_cons (by decide)]
    simp [expect]

theorem parseMembers_last {fuel : Nat} (key : JsString) {s t : JsString} {v : Json} {w : JsString}
    (hw : Space w) (h : parseValue fuel s = some (v, w ++ 0x7D :: t)) :
    parseMembers (fuel + 1) (quote key ++ js ":" ++ s) = some ([(key, v)], t) := by
  obtain ⟨rest, s₁, h₁, h₂, h₃⟩ := parseMembers_key key s
  rw [parseMembers]
  simp only [h₁, h₂, h₃, h, Option.bind_eq_bind, Option.bind_some, skipSpace_append hw,
    skipSpace_cons (show isJsonSpace 0x7D = false by decide)]
  rfl

theorem parseMembers_more {fuel : Nat} (key : JsString) {s r t : JsString} {v : Json}
    {ms : List (JsString × Json)} (h : parseValue fuel s = some (v, 0x2C :: r))
    (hr : parseMembers fuel r = some (ms, t)) :
    parseMembers (fuel + 1) (quote key ++ js ":" ++ s) = some ((key, v) :: ms, t) := by
  obtain ⟨rest, s₁, h₁, h₂, h₃⟩ := parseMembers_key key s
  rw [parseMembers]
  simp only [h₁, h₂, h₃, h, hr, Option.bind_eq_bind, Option.bind_some,
    skipSpace_cons (show isJsonSpace 0x2C = false by decide)]
  rfl

theorem ends_cons {u : UInt16} (h : u = 0x2C ∨ u = 0x5D ∨ u = 0x7D) (t : JsString) : Ends (u :: t) := by
  intro v hv
  cases hv
  rcases h with h | h | h
  · exact .inl h
  · exact .inr (.inl h)
  · exact .inr (.inr (.inl h))

theorem ends_space {w t : JsString} (hw : Space w) (ht : Ends t) : Ends (w ++ t) := by
  cases w with
  | nil => exact ht
  | cons u w =>
    intro v hv
    cases hv
    exact .inr (.inr (.inr (hw u (by simp))))

/-- The parser reads the text as the part, and goes on after it. One unit of
fuel more than twice the units of the text suffices. -/
def Reads : Part → JsString → Prop
  | .value v, s => Begins s ∧ ∀ {n : Nat} {t : JsString}, 2 * s.length ≤ n + 2 → Ends t →
      parseValue (n + 1) (s ++ t) = some (readBack v, t)
  | .elements xs, s => Begins s ∧ ∀ {n : Nat} {t : JsString}, 2 * s.length ≤ n + 3 →
      parseElements (n + 1) (s ++ t) = some (readBackAll xs, t)
  | .members ms, s => Begins s ∧ ∀ {n : Nat} {t : JsString}, 2 * s.length ≤ n + 3 →
      parseMembers (n + 1) (s ++ t) = some (readBackMembers ms, t)

theorem reads_of_writes {p : Part} {s : JsString} (h : Writes p s) : Reads p s := by
  have hlen : (js "[").length = 1 ∧ (js "]").length = 1 ∧ (js ",").length = 1 ∧ (js ":").length = 1 ∧
      (js "\x7b").length = 1 ∧ (js "\x7d").length = 1 := by decide
  induction h with
  | null => exact ⟨⟨_, _, rfl, by decide⟩, fun _ _ => parseValue_word _ (w := js "null") (by simp [readBack])⟩
  | bool b =>
    cases b with
    | true =>
      exact ⟨⟨_, _, rfl, by decide⟩, fun _ _ => parseValue_word _ (w := js "true") (by simp [readBack])⟩
    | false =>
      exact ⟨⟨_, _, rfl, by decide⟩, fun _ _ => parseValue_word _ (w := js "false") (by simp [readBack])⟩
  | num h => exact ⟨begins_number h, fun _ ht => parseValue_number _ h ht⟩
  | str s => exact ⟨by simpa using begins_quote s [], fun _ _ => parseValue_string _ s _⟩
  | emptyArray => exact ⟨⟨_, _, rfl, by decide⟩, fun _ _ => by rw [parseValue]; rfl⟩
  | @array w s xs hw _ ih =>
    obtain ⟨hb, hs⟩ := ih
    refine ⟨⟨0x5B, w ++ s, rfl, by decide⟩, fun {n t} hf _ => ?_⟩
    have hpos := hb.length_pos
    simp only [List.length_append, hlen] at hf
    obtain ⟨f, rfl⟩ : ∃ f, n = f + 1 := ⟨n - 1, by omega⟩
    rw [List.append_assoc, List.append_assoc]
    exact parseValue_array (w := w) hw (hb.append t) (hs (by omega))
  | emptyObject => exact ⟨⟨_, _, rfl, by decide⟩, fun _ _ => by rw [parseValue]; rfl⟩
  | @object w s ms hw _ ih =>
    obtain ⟨hb, hs⟩ := ih
    refine ⟨⟨0x7B, w ++ s, rfl, by decide⟩, fun {n t} hf _ => ?_⟩
    have hpos := hb.length_pos
    simp only [List.length_append, hlen] at hf
    obtain ⟨f, rfl⟩ : ∃ f, n = f + 1 := ⟨n - 1, by omega⟩
    rw [List.append_assoc, List.append_assoc]
    exact parseValue_object (w := w) hw (hb.append t) (hs (by omega))
  | @lastElement w s x _ hw ih =>
    obtain ⟨hb, hs⟩ := ih
    refine ⟨by rw [List.append_assoc]; exact hb.append _, fun {n t} hf => ?_⟩
    have hpos := hb.length_pos
    simp only [List.length_append, hlen] at hf
    obtain ⟨f, rfl⟩ : ∃ f, n = f + 1 := ⟨n - 1, by omega⟩
    rw [List.append_assoc, List.append_assoc]
    exact parseElements_last hw (hs (by omega) (ends_space hw (ends_cons (.inr (.inl rfl)) t)))
  | @element w s r x xs _ hw _ ih ihr =>
    obtain ⟨hb, hs⟩ := ih
    obtain ⟨hbr, hr⟩ := ihr
    refine ⟨by rw [List.append_assoc, List.append_assoc]; exact hb.append _, fun {n t} hf => ?_⟩
    have hpos := hb.length_pos
    have hposr := hbr.length_pos
    simp only [List.length_append, hlen] at hf
    obtain ⟨f, rfl⟩ : ∃ f, n = f + 1 := ⟨n - 1, by omega⟩
    rw [List.append_assoc, List.append_assoc, List.append_assoc]
    refine parseElements_more (r := w ++ (r ++ t)) (hs (by omega) (ends_cons (.inl rfl) _)) ?_
    rw [parseElements_space hw]
    exact hr (by omega)
  | @lastMember w w' s key v hw _ hw' ih =>
    obtain ⟨hb, hs⟩ := ih
    refine ⟨by simpa only [List.append_assoc] using begins_quote key _, fun {n t} hf => ?_⟩
    have hpos := hb.length_pos
    simp only [List.length_append, hlen] at hf
    obtain ⟨f, rfl⟩ : ∃ f, n = f + 1 := ⟨n - 1, by omega⟩
    rw [List.append_assoc, List.append_assoc, List.append_assoc, List.append_assoc]
    refine parseMembers_last key hw' ?_
    rw [parseValue_space hw]
    exact hs (by omega) (ends_space hw' (ends_cons (.inr (.inr rfl)) t))
  | @member w w' s r key v ms hw _ hw' _ ih ihr =>
    obtain ⟨hb, hs⟩ := ih
    obtain ⟨hbr, hr⟩ := ihr
    refine ⟨by simpa only [List.append_assoc] using begins_quote key _, fun {n t} hf => ?_⟩
    have hpos := hb.length_pos
    have hposr := hbr.length_pos
    simp only [List.length_append, hlen] at hf
    obtain ⟨f, rfl⟩ : ∃ f, n = f + 1 := ⟨n - 1, by omega⟩
    rw [List.append_assoc, List.append_assoc, List.append_assoc, List.append_assoc, List.append_assoc]
    refine parseMembers_more key ?_ (r := w' ++ (r ++ t)) ?_
    · rw [parseValue_space hw]
      exact hs (by omega) (ends_cons (.inl rfl) (w' ++ (r ++ t)))
    · rw [parseMembers_space hw']
      exact hr (by omega)

/-- A text that writes a value is read back as what it stands for. -/
theorem parse_of_writes {v : Json} {s : JsString} (h : Writes (.value v) s) :
    parse s = some (readBack v) := by
  have hread := (reads_of_writes h).2 (n := 2 * s.length) (t := []) (by omega)
    (fun u hu => by cases hu)
  rw [List.append_nil] at hread
  rw [parse, hread]
  rfl

/-! ## What the printer writes -/

theorem space_nil : Space [] := by simp [Space]

mutual

theorem writes_stringify : ∀ v : Json, Doubles v → Writes (.value v) (stringify v)
  | .null, _ => .null
  | .bool b, _ => .bool b
  | .num _, hv => .num hv
  | .str s, _ => .str s
  | .arr [], _ => .emptyArray
  | .arr (x :: xs), hv => by
    rw [stringify, List.append_assoc]
    exact .array space_nil (writes_stringifyAll (x :: xs) (by simp) hv)
  | .obj [], _ => .emptyObject
  | .obj ((key, v) :: ms), hv => by
    rw [stringify, List.append_assoc]
    exact .object space_nil (writes_stringifyMembers ((key, v) :: ms) (by simp) hv)

theorem writes_stringifyAll : ∀ xs : List Json, xs ≠ [] → DoublesAll xs →
    Writes (.elements xs) (commas (stringifyAll xs) ++ js "]")
  | [], hne, _ => absurd rfl hne
  | [x], _, hv => by
    have h := Writes.lastElement (writes_stringify x hv.1) space_nil
    rwa [List.append_nil] at h
  | x :: y :: ys, _, hv => by
    have hr := writes_stringifyAll (y :: ys) (by simp) hv.2
    have h := Writes.element (writes_stringify x hv.1) space_nil hr
    rw [List.append_nil, ← List.append_assoc] at h
    exact h

theorem writes_stringifyMembers : ∀ ms : List (JsString × Json), ms ≠ [] → DoublesMembers ms →
    Writes (.members ms) (commas (stringifyMembers ms) ++ js "\x7d")
  | [], hne, _ => absurd rfl hne
  | [(key, v)], _, hv => by
    have h := Writes.lastMember key space_nil (writes_stringify v hv.1) space_nil
    rwa [List.append_nil, List.append_nil] at h
  | (key, v) :: (key', v') :: ms, _, hv => by
    have hr := writes_stringifyMembers ((key', v') :: ms) (by simp) hv.2
    have h := Writes.member key space_nil (writes_stringify v hv.1) space_nil hr
    rw [List.append_nil, List.append_nil, ← List.append_assoc] at h
    exact h

end

/-- What `JSON.stringify` wrote, `JSON.parse` accepts. -/
theorem parse_stringify {v : Json} (hv : Doubles v) : (parse (stringify v)).isSome = true := by
  rw [parse_of_writes (writes_stringify v hv)]
  rfl

end Conductor.Js.JsonAccepts
