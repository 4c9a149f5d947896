import Conductor.Js.Doubles
import Conductor.Js.JsonText

/-! # The numerals of JSON

The printer searches for the digits of a double, and the parser has a grammar
of its own. What the one lays out the other reads as the double. -/
namespace Conductor.Js.Numerals
open Conductor.Js.Text Conductor.Js.Number Conductor.Js.JsonText Conductor.Js.Doubles

/-! ## What the parser reads -/

/-- What can follow a value inside a text: white space, a comma or a closing bracket. -/
def Ends (t : JsString) : Prop :=
  ∀ u, t.head? = some u → u = 0x2C ∨ u = 0x5D ∨ u = 0x7D ∨ isJsonSpace u = true

def Digits (s : JsString) : Prop := ∀ u ∈ s, isDigit u = true

def NoDigit (t : JsString) : Prop := ∀ u, t.head? = some u → isDigit u = false

theorem eq_of_isJsonSpace {u : UInt16} (h : isJsonSpace u = true) :
    u = 0x20 ∨ u = 9 ∨ u = 10 ∨ u = 13 := by
  simpa only [isJsonSpace, Bool.or_eq_true, beq_iff_eq, or_assoc] using h

/-- A unit that ends a value is none of a numeral. -/
theorem Ends.unit {t : JsString} (h : Ends t) {u : UInt16} (hu : t.head? = some u) :
    isDigit u = false ∧ u ≠ 0x2E ∧ u ≠ 0x65 ∧ u ≠ 0x45 := by
  rcases h u hu with rfl | rfl | rfl | hs
  · decide
  · decide
  · decide
  · rcases eq_of_isJsonSpace hs with rfl | rfl | rfl | rfl
    · decide
    · decide
    · decide
    · decide

theorem Ends.noDigit {t : JsString} (h : Ends t) : NoDigit t := fun _ hu => (h.unit hu).1

theorem noDigit_cons {u : UInt16} (t : JsString) (h : isDigit u = false) : NoDigit (u :: t) := by
  intro v hv
  cases hv
  exact h

theorem span_digits {ds t : JsString} (hd : Digits ds) (ht : NoDigit t) :
    (ds ++ t).takeWhile isDigit = ds ∧ (ds ++ t).dropWhile isDigit = t := by
  rw [List.takeWhile_append_of_pos hd, List.dropWhile_append_of_pos hd]
  cases t with
  | nil => simp
  | cons u t =>
    have hu := ht u rfl
    simp [hu]

/-- A zero, or digits that do not begin with one. -/
def IsWhole (w : JsString) : Prop :=
  w = [0x30] ∨ ∃ u ds, w = u :: ds ∧ u ≠ 0x30 ∧ isDigit u = true ∧ Digits ds

theorem parseWhole_append {w t : JsString} (hw : IsWhole w) (ht : NoDigit t) :
    parseWhole (w ++ t) = some (w, t) := by
  rcases hw with rfl | ⟨u, ds, rfl, hne, hu, hd⟩
  · rfl
  · obtain ⟨h₁, h₂⟩ := span_digits hd ht
    rw [List.cons_append, parseWhole, if_neg hne, if_pos hu, h₁, h₂]

/-- A point and the digits after it, if any. -/
def IsFraction (f ds : JsString) : Prop :=
  (f = [] ∧ ds = []) ∨ (f = 0x2E :: ds ∧ ds ≠ [] ∧ Digits ds)

theorem parseFraction_append {f ds t : JsString} (hf : IsFraction f ds) (ht : NoDigit t)
    (hp : t.head? ≠ some 0x2E) : parseFraction (f ++ t) = some (ds, t) := by
  rcases hf with ⟨rfl, rfl⟩ | ⟨rfl, hne, hd⟩
  · rw [List.nil_append]
    cases t with
    | nil => rfl
    | cons u t =>
      have hu : u ≠ 0x2E := fun he => hp (by rw [he]; rfl)
      rw [parseFraction, if_neg hu]
  · obtain ⟨h₁, h₂⟩ := span_digits hd ht
    rw [List.cons_append, parseFraction, if_pos rfl, h₁, h₂]
    simp [hne]

/-- A signed power of ten, if any. -/
def IsExponent (e : JsString) (n : Int) : Prop :=
  (e = [] ∧ n = 0) ∨ ∃ ds, ds ≠ [] ∧ Digits ds ∧
    ((e = 0x65 :: 0x2D :: ds ∧ n = -(digitsValue ds : Int)) ∨
      (e = 0x65 :: 0x2B :: ds ∧ n = digitsValue ds))

theorem parseExponent_append {e t : JsString} {n : Int} (he : IsExponent e n) (ht : Ends t) :
    parseExponent (e ++ t) = some (n, t) := by
  rcases he with ⟨rfl, rfl⟩ | ⟨ds, hne, hd, he⟩
  · rw [List.nil_append]
    cases t with
    | nil => rfl
    | cons u t =>
      obtain ⟨_, _, h₁, h₂⟩ := ht.unit (u := u) rfl
      rw [parseExponent, if_neg (not_or.mpr ⟨h₁, h₂⟩)]
  · obtain ⟨h₁, h₂⟩ := span_digits hd ht.noDigit
    have hempty : ds.isEmpty = false := by simpa using hne
    rcases he with ⟨rfl, rfl⟩ | ⟨rfl, rfl⟩
    · simp [parseExponent, h₁, h₂, hempty]
    · simp [parseExponent, h₁, h₂, hempty]

/-- A numeral without its sign, and the number that it stands for. -/
def IsNumeral (x : JsString) (q : Rat) : Prop :=
  ∃ w f ds e n, x = w ++ (f ++ e) ∧ IsWhole w ∧ IsFraction f ds ∧ IsExponent e n ∧
    decimalValue false w ds n = q

theorem IsWhole.head {w : JsString} (h : IsWhole w) : ∃ u s, w = u :: s ∧ isDigit u = true := by
  rcases h with rfl | ⟨u, ds, rfl, _, hu, _⟩
  · exact ⟨0x30, [], rfl, rfl⟩
  · exact ⟨u, ds, rfl, hu⟩

theorem exponent_head {e t : JsString} {n : Int} (he : IsExponent e n) (ht : Ends t) :
    NoDigit (e ++ t) ∧ (e ++ t).head? ≠ some 0x2E := by
  rcases he with ⟨rfl, _⟩ | ⟨ds, _, _, ⟨rfl, _⟩ | ⟨rfl, _⟩⟩
  · exact ⟨ht.noDigit, fun h => (ht.unit h).2.1 rfl⟩
  · exact ⟨noDigit_cons _ rfl, by simp⟩
  · exact ⟨noDigit_cons _ rfl, by simp⟩

theorem fraction_head {f ds t : JsString} (hf : IsFraction f ds) (ht : NoDigit t) :
    NoDigit (f ++ t) := by
  rcases hf with ⟨rfl, _⟩ | ⟨rfl, _, _⟩
  · exact ht
  · exact noDigit_cons _ rfl

theorem decimalValue_sign (negative : Bool) (w ds : JsString) (n : Int) :
    decimalValue negative w ds n =
      if negative then -decimalValue false w ds n else decimalValue false w ds n := rfl

theorem parseNumber_append {x t : JsString} {q : Rat} (hx : IsNumeral x q) (ht : Ends t)
    (negative : Bool) : parseNumber ((if negative then js "-" else []) ++ x ++ t) =
      some (nearestDouble (if negative then -q else q), t) := by
  obtain ⟨w, f, ds, e, n, rfl, hw, hf, he, rfl⟩ := hx
  obtain ⟨hnd, hnp⟩ := exponent_head he ht
  have h₁ := parseWhole_append hw (fraction_head hf hnd)
  have h₂ := parseFraction_append hf hnd hnp
  have h₃ := parseExponent_append he ht
  have hassoc : w ++ (f ++ e) ++ t = w ++ (f ++ (e ++ t)) := by simp
  rw [← decimalValue_sign]
  cases negative with
  | true =>
    have hs : js "-" ++ (w ++ (f ++ e)) ++ t = 0x2D :: (w ++ (f ++ (e ++ t))) := by
      rw [List.append_assoc, hassoc]
      rfl
    simp only [if_true, hs, parseNumber, List.head?_cons, List.tail_cons, h₁, h₂, h₃,
      Option.bind_eq_bind, Option.bind_some, Option.pure_def, decide_true]
  | false =>
    obtain ⟨u, s, rfl, hu⟩ := hw.head
    have hne : u ≠ 0x2D := by
      intro he
      rw [he] at hu
      cases hu
    simp only [Bool.false_eq_true, if_false, List.nil_append, hassoc, parseNumber]
    simp only [List.cons_append, List.head?_cons, Option.some.injEq, hne, if_false] at h₁ ⊢
    simp [h₁, h₂, h₃]

/-! ## Digits -/

theorem digits_toString (n : Nat) : Digits (js (toString n)) := fun _ hu => isDigit_toString hu

theorem js_digits {cs : List Char} (h : ∀ c ∈ cs, c.isDigit = true) :
    cs.flatMap (fun c => encodeCodePoint c.toNat) = cs.map fun c => UInt16.ofNat c.toNat := by
  induction cs with
  | nil => rfl
  | cons c cs ih =>
    have hc : 48 ≤ c.toNat ∧ c.toNat ≤ 57 := by
      simpa [Char.isDigit, UInt32.le_iff_toNat_le] using h c (by simp)
    have hone : encodeCodePoint c.toNat = [UInt16.ofNat c.toNat] := by
      rw [encodeCodePoint, if_pos (by omega)]
    rw [List.flatMap_cons, List.map_cons, ih fun d hd => h d (by simp [hd]), hone]
    rfl

theorem toString_units (n : Nat) :
    js (toString n) = (Nat.toDigits 10 n).map fun c => UInt16.ofNat c.toNat := by
  have hlist : (toString n).toList = Nat.toDigits 10 n := by simp
  rw [js, hlist]
  exact js_digits fun c hc => Nat.isDigit_of_mem_toDigits (by decide) (by decide) hc

/-- The digits of a number read back as the number. -/
theorem digitsValue_toString (n : Nat) : digitsValue (js (toString n)) = n := by
  have hchar : ∀ c ∈ Nat.toDigits 10 n, (UInt16.ofNat c.toNat).toNat = c.toNat := by
    intro c hc
    have hd := Nat.isDigit_of_mem_toDigits (by decide) (by decide) hc
    have hv : 48 ≤ c.toNat ∧ c.toNat ≤ 57 := by
      simpa [Char.isDigit, UInt32.le_iff_toNat_le] using hd
    rw [UInt16.toNat_ofNat']
    omega
  have hfold : ∀ (cs : List Char) (m : Nat), (∀ c ∈ cs, (UInt16.ofNat c.toNat).toNat = c.toNat) →
      (cs.map fun c => UInt16.ofNat c.toNat).foldl (fun n d => 10 * n + (d.toNat - 0x30)) m =
        Nat.ofDigitChars 10 cs m := by
    intro cs
    induction cs with
    | nil => intro m _; rfl
    | cons c cs ih =>
      intro m h
      rw [List.map_cons, List.foldl_cons, h c (by simp), ih _ fun d hd => h d (by simp [hd])]
      rfl
  rw [toString_units, digitsValue, hfold _ _ hchar]
  exact Nat.ofDigitChars_toDigits (by decide) (by decide)

theorem toString_ne_nil (n : Nat) : js (toString n) ≠ [] := by
  rw [toString_units]
  simp

theorem length_toString {n k : Nat} (hk : 1 ≤ k) (h : 10 ^ (k - 1) ≤ n ∧ n < 10 ^ k) :
    (js (toString n)).length = k := by
  rw [toString_units, List.length_map]
  have hle : (Nat.toDigits 10 n).length ≤ k :=
    (Nat.length_toDigits_le_iff (by decide) (by omega)).mpr h.2
  by_contra hne
  by_cases hone : k = 1
  · have hpos : 0 < (Nat.toDigits 10 n).length := Nat.length_toDigits_pos
    omega
  · have hlt : (Nat.toDigits 10 n).length ≤ k - 1 := by omega
    have := (Nat.length_toDigits_le_iff (by decide) (by omega)).mp hlt
    omega

theorem digitsValue_append (ds ds' : JsString) :
    digitsValue (ds ++ ds') = digitsValue ds * 10 ^ ds'.length + digitsValue ds' := by
  have hfold : ∀ (ds : JsString) (m : Nat), ds.foldl (fun n d => 10 * n + (d.toNat - 0x30)) m =
      m * 10 ^ ds.length + ds.foldl (fun n d => 10 * n + (d.toNat - 0x30)) 0 := by
    intro ds
    induction ds with
    | nil => intro m; simp
    | cons d ds ih =>
      intro m
      rw [List.foldl_cons, List.foldl_cons, ih (10 * m + (d.toNat - 0x30)),
        ih (10 * 0 + (d.toNat - 0x30)), List.length_cons, pow_succ]
      ring
  rw [digitsValue, List.foldl_append, hfold ds']
  rfl

theorem digitsValue_zeros (m : Nat) : digitsValue (zeros m) = 0 := by
  induction m with
  | zero => rfl
  | succ m ih => exact ih

/-- A positive number does not begin with a zero. -/
theorem head_toDigits {n : Nat} (h : 0 < n) : ∃ c cs, Nat.toDigits 10 n = c :: cs ∧ c ≠ '0' := by
  induction n using Nat.strong_induction_on with
  | _ n ih =>
    rw [Nat.toDigits_eq_if (by decide)]
    split
    · refine ⟨n.digitChar, [], rfl, fun he => ?_⟩
      rw [Nat.digitChar_eq_zero] at he
      omega
    · obtain ⟨c, cs, hc, hne⟩ := ih (n / 10) (by omega) (by omega)
      exact ⟨c, cs ++ [(n % 10).digitChar], by rw [hc]; rfl, hne⟩

theorem whole_toString {n : Nat} (h : 0 < n) : ∃ u ds, js (toString n) = u :: ds ∧ u ≠ 0x30 ∧
    isDigit u = true ∧ Digits ds := by
  obtain ⟨c, cs, hc, hne⟩ := head_toDigits h
  have hd := digits_toString n
  have hdc : c.isDigit = true :=
    Nat.isDigit_of_mem_toDigits (by decide) (by decide) (hc ▸ List.mem_cons_self)
  have hv : 48 ≤ c.toNat ∧ c.toNat ≤ 57 := by
    simpa [Char.isDigit, UInt32.le_iff_toNat_le] using hdc
  rw [toString_units, hc, List.map_cons] at hd ⊢
  refine ⟨_, _, rfl, fun he => hne ?_, hd _ (by simp), fun u hu => hd u (by simp [hu])⟩
  rw [← UInt16.toNat_inj, UInt16.toNat_ofNat'] at he
  simp only [UInt16.reduceToNat] at he
  have hcode : c.toNat = 48 := by omega
  exact Char.toNat_inj.mp hcode

theorem digits_append {s t : JsString} (hs : Digits s) (ht : Digits t) : Digits (s ++ t) :=
  List.forall_mem_append.mpr ⟨hs, ht⟩

theorem digits_zeros (n : Nat) : Digits (zeros n) := by
  intro u hu
  rw [List.eq_of_mem_replicate hu]
  rfl

theorem isNumeral_of {w f ds e : JsString} {n : Int} (hw : IsWhole w) (hf : IsFraction f ds)
    (he : IsExponent e n) : IsNumeral (w ++ f ++ e) (digitsValue (w ++ ds) * 10 ^ (n - ds.length)) :=
  ⟨w, f, ds, e, n, List.append_assoc w f e, hw, hf, he, rfl⟩

theorem isExponent_toString (n : Int) :
    IsExponent (js (if n < 0 then "e-" else "e+") ++ js (toString n.natAbs)) n := by
  refine .inr ⟨js (toString n.natAbs), toString_ne_nil _, digits_toString _, ?_⟩
  rw [digitsValue_toString]
  split
  · exact .inl ⟨rfl, by omega⟩
  · exact .inr ⟨rfl, by omega⟩

/-! ## The layout of a positive number -/

/-- `s` in its `k` digits, the first of which is no zero. -/
structure Spelled (s k : Nat) (u : UInt16) (ds : JsString) : Prop where
  nonzero : u ≠ 0x30
  first : isDigit u = true
  others : Digits ds
  length : (u :: ds).length = k
  value : digitsValue (u :: ds) = s

theorem spelled_toString {s k : Nat} (hk : 1 ≤ k) (hs : 10 ^ (k - 1) ≤ s ∧ s < 10 ^ k) :
    ∃ u ds, js (toString s) = u :: ds ∧ Spelled s k u ds := by
  have hpos : 0 < s := lt_of_lt_of_le (by positivity) hs.1
  have hlen := length_toString hk hs
  have hval := digitsValue_toString s
  obtain ⟨u, ds, hu, hne, hd, hds⟩ := whole_toString hpos
  rw [hu] at hlen hval
  exact ⟨u, ds, hu, hne, hd, hds, hlen, hval⟩

section
variable {s k : Nat} {u : UInt16} {ds : JsString} {n : Int}

theorem Spelled.digits (h : Spelled s k u ds) : Digits (u :: ds) := by
  intro v hv
  rcases List.mem_cons.mp hv with rfl | hv
  · exact h.first
  · exact h.others v hv

/-- The point is behind the digits, after some zeros, and left out. -/
theorem Spelled.integer (h : Spelled s k u ds) (hn : (k : Int) ≤ n) :
    IsNumeral (u :: ds ++ zeros (n - k).toNat) (s * 10 ^ (n - k)) := by
  have hw : IsWhole (u :: (ds ++ zeros (n - k).toNat)) :=
    .inr ⟨u, _, rfl, h.nonzero, h.first, digits_append h.others (digits_zeros _)⟩
  have hx := isNumeral_of hw (.inl ⟨rfl, rfl⟩) (.inl ⟨rfl, rfl⟩)
  have hv : digitsValue (u :: (ds ++ zeros (n - k).toNat)) = s * 10 ^ (n - k).toNat := by
    rw [← List.cons_append, digitsValue_append, digitsValue_zeros, h.value, zeros,
      List.length_replicate, Nat.add_zero]
  have hexp : (10 : Rat) ^ (n - (k : Int)) = 10 ^ (n - k).toNat := by
    rw [← zpow_natCast, Int.toNat_of_nonneg (by omega)]
  rw [List.append_nil, List.append_nil, hv] at hx
  rw [hexp]
  simpa using hx

/-- The point is among the digits. -/
theorem Spelled.point (h : Spelled s k u ds) (hn : 0 < n) (hlt : n < k) :
    IsNumeral ((u :: ds).take n.toNat ++ js "." ++ (u :: ds).drop n.toNat) (s * 10 ^ (n - k)) := by
  have hsucc : n.toNat = (n.toNat - 1) + 1 := by omega
  have hw : IsWhole ((u :: ds).take n.toNat) := by
    rw [hsucc, List.take_succ_cons]
    exact .inr ⟨u, _, rfl, h.nonzero, h.first, fun v hv => h.others v (List.mem_of_mem_take hv)⟩
  have hf : IsFraction (0x2E :: (u :: ds).drop n.toNat) ((u :: ds).drop n.toNat) := by
    refine .inr ⟨rfl, ?_, fun v hv => h.digits v (List.mem_of_mem_drop hv)⟩
    rw [ne_eq, List.drop_eq_nil_iff, h.length]
    omega
  have hx := isNumeral_of hw hf (.inl ⟨rfl, rfl⟩)
  have hexp : (0 : Int) - ((u :: ds).drop n.toNat).length = n - k := by
    rw [List.length_drop, h.length]
    omega
  have hdot : js "." = [0x2E] := rfl
  rw [List.take_append_drop, h.value, hexp] at hx
  simpa [hdot] using hx

/-- The point is before the digits, and some zeros between them. -/
theorem Spelled.fraction (h : Spelled s k u ds) (hn : n ≤ 0) :
    IsNumeral (js "0." ++ zeros (-n).toNat ++ u :: ds) (s * 10 ^ (n - k)) := by
  have hf : IsFraction (0x2E :: (zeros (-n).toNat ++ u :: ds)) (zeros (-n).toNat ++ u :: ds) :=
    .inr ⟨rfl, by simp, digits_append (digits_zeros _) h.digits⟩
  have hx := isNumeral_of (.inl rfl) hf (.inl ⟨rfl, rfl⟩)
  have hv : digitsValue ([0x30] ++ (zeros (-n).toNat ++ u :: ds)) = s := by
    rw [digitsValue_append, digitsValue_append, digitsValue_zeros, h.value]
    simp [digitsValue]
  have hexp : (0 : Int) - (zeros (-n).toNat ++ u :: ds).length = n - k := by
    rw [List.length_append, h.length, zeros, List.length_replicate]
    omega
  have hdot : js "0." = [0x30, 0x2E] := rfl
  rw [hv, hexp] at hx
  simpa [hdot] using hx

/-- The point is behind the first digit, and left out if that is the only one. -/
theorem Spelled.exponential (h : Spelled s k u ds) :
    IsNumeral ((if k = 1 then u :: ds else (u :: ds).take 1 ++ js "." ++ (u :: ds).drop 1) ++
      js (if n - 1 < 0 then "e-" else "e+") ++ js (toString (n - 1).natAbs)) (s * 10 ^ (n - k)) := by
  have hlen : ds.length + 1 = k := h.length
  have he := isExponent_toString (n - 1)
  by_cases hone : k = 1
  · have hw : IsWhole (u :: ds) := .inr ⟨u, ds, rfl, h.nonzero, h.first, h.others⟩
    have hx := isNumeral_of hw (.inl ⟨rfl, rfl⟩) he
    rw [List.append_nil, h.value] at hx
    simpa [hone] using hx
  · rw [if_neg hone]
    have hw : IsWhole [u] := .inr ⟨u, [], rfl, h.nonzero, h.first, by simp [Digits]⟩
    have hf : IsFraction (0x2E :: ds) ds := by
      refine .inr ⟨rfl, fun hnil => ?_, h.others⟩
      rw [hnil, List.length_nil] at hlen
      omega
    have hx := isNumeral_of hw hf he
    have hexp : n - 1 - (ds.length : Int) = n - k := by omega
    have hv : digitsValue ([u] ++ ds) = s := h.value
    have hdot : js "." = [0x2E] := rfl
    rw [hv, hexp] at hx
    simpa [hdot] using hx

end

/-- The layout of `k` digits is a numeral, wherever the point stands. -/
theorem isNumeral_layout {s k : Nat} (n : Int) (hk : 1 ≤ k) (hs : 10 ^ (k - 1) ≤ s ∧ s < 10 ^ k) :
    IsNumeral (layout s k n) (s * 10 ^ (n - k)) := by
  obtain ⟨u, ds, hu, h⟩ := spelled_toString hk hs
  unfold layout
  simp only
  rw [hu]
  by_cases h₁ : (k : Int) ≤ n ∧ n ≤ 21
  · rw [if_pos h₁]
    exact h.integer h₁.1
  rw [if_neg h₁]
  by_cases h₂ : 0 < n ∧ n ≤ 21
  · rw [if_pos h₂]
    exact h.point h₂.1 (by omega)
  rw [if_neg h₂]
  by_cases h₃ : -6 < n ∧ n ≤ 0
  · rw [if_pos h₃]
    exact h.fraction h₃.2
  rw [if_neg h₃]
  exact h.exponential

/-! ## The text of a double -/

/-- The text of a double reads back as the double. -/
theorem parseNumber_numberText {q : Rat} (h : nearestDouble q = .finite q) {t : JsString}
    (ht : Ends t) : parseNumber (numberText (.finite q) ++ t) = some (.finite q, t) := by
  by_cases hq : q = 0
  · have hx : IsNumeral (js "0") 0 :=
      ⟨[0x30], [], [], [], 0, rfl, .inl rfl, .inl ⟨rfl, rfl⟩, .inl ⟨rfl, rfl⟩,
        by simp [decimalValue, digitsValue]⟩
    rw [hq]
    exact parseNumber_append hx ht false
  · obtain ⟨s, k, m, hs, hk, hbetween, hreads⟩ := shortest_double (abs_pos.mpr hq) (isDouble_abs h)
    have hn := parseNumber_append (isNumeral_layout m hk hbetween) ht (decide (q < 0))
    have hvalue : nearestDouble (if decide (q < 0) = true then -(s * (10 : Rat) ^ (m - (k : Int)))
        else s * (10 : Rat) ^ (m - (k : Int))) = .finite q := by
      by_cases hneg : q < 0
      · have hpos : 0 < s * (10 : Rat) ^ (m - (k : Int)) := by
          have hs : 0 < s := lt_of_lt_of_le (by positivity) hbetween.1
          positivity
        rw [if_pos (decide_eq_true hneg), ← neg_neg q, ← abs_of_neg hneg]
        exact (nearestDouble_neg hpos).mpr hreads
      · rw [if_neg (by simpa using hneg), hreads, abs_of_nonneg (not_lt.mp hneg)]
    rw [hvalue] at hn
    simp only [numberText, JsNumber.toJsString, if_neg hq, hs]
    simpa using hn

theorem numberText_head (q : Rat) (t : JsString) {n : JsNumber}
    (h : parseNumber (numberText (.finite q) ++ t) = some (n, t)) :
    ∃ u s, numberText (.finite q) ++ t = u :: s ∧ (u = 0x2D ∨ isDigit u = true) := by
  cases hx : numberText (.finite q) ++ t with
  | nil => rw [hx] at h; cases h
  | cons u s =>
    refine ⟨u, s, rfl, ?_⟩
    by_cases hu : u = 0x2D
    · exact .inl hu
    · rw [hx, parseNumber] at h
      simp only [List.head?_cons, Option.some.injEq, hu, if_false] at h
      obtain ⟨p, hp, _⟩ := Option.bind_eq_some_iff.mp h
      simp only [parseWhole] at hp
      by_cases hz : u = 0x30
      · rw [hz]
        exact .inr rfl
      · rw [if_neg hz] at hp
        exact .inr (Option.ite_none_right_eq_some.mp hp).1

end Conductor.Js.Numerals
