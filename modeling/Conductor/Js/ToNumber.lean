import Conductor.Js.Numerals

/-! # Numbers from texts

`parseInt` takes the digits that a text begins with, `Number` the whole text. -/
namespace Conductor.Js.ToNumber
open Conductor.Js.Text Conductor.Js.Number Conductor.Js.JsonText Conductor.Js.Numerals
open Conductor.Js.Doubles

/-- The text after a sign, if it begins with one. -/
def unsigned (s : JsString) : JsString :=
  if s.head? = some 0x2D ∨ s.head? = some 0x2B then s.tail else s

/-- `parseInt(s, 10)`. -/
def parseInt (s : JsString) : JsNumber :=
  let t := trimStart s
  let digits := (unsigned t).takeWhile isDigit
  if digits.isEmpty then .nan
  else nearestDouble (decimalValue (t.head? = some 0x2D) digits [] 0)

/-- `StrUnsignedDecimalLiteral` with the sign before it. -/
def signedDecimal (negative : Bool) (s : JsString) : JsNumber :=
  if s = js "Infinity" then .infinity negative
  else
    let whole := s.takeWhile isDigit
    let rest := s.dropWhile isDigit
    let (fraction, rest) := if rest.head? = some 0x2E
      then (rest.tail.takeWhile isDigit, rest.tail.dropWhile isDigit) else ([], rest)
    if (whole ++ fraction).isEmpty then .nan
    else match parseExponent rest with
      | some (exponent, []) => nearestDouble (decimalValue negative whole fraction exponent)
      | _ => .nan

/-- The value of the digits after `0x`, `0o` or `0b`. -/
def radixValue (radix : Nat) (digits : JsString) : Option Nat :=
  digits.foldl (fun n u => do
    let v ← n
    let d ← hexValue u
    if d < radix then some (radix * v + d) else none) (some 0)

def nonDecimal (radix : Nat) (digits : JsString) : JsNumber :=
  match radixValue radix digits with
  | some n => if digits.isEmpty then .nan else nearestDouble n
  | none => .nan

/-- `Number(s)`. -/
def toNumber (s : JsString) : JsNumber :=
  let t := trim s
  if t.isEmpty then .finite 0
  else
    let tag := t.take 2
    if tag = js "0x" ∨ tag = js "0X" then nonDecimal 16 (t.drop 2)
    else if tag = js "0o" ∨ tag = js "0O" then nonDecimal 8 (t.drop 2)
    else if tag = js "0b" ∨ tag = js "0B" then nonDecimal 2 (t.drop 2)
    else signedDecimal (t.head? = some 0x2D) (unsigned t)

/-- Doubles hold the naturals below `2^53`. -/
theorem nearestDouble_natCast {n : Nat} (h : n < 2 ^ 53) : nearestDouble (n : Rat) = .finite n := by
  rcases Nat.eq_zero_or_pos n with rfl | hpos
  · rfl
  obtain ⟨hlo, hhi⟩ : 2 ^ n.log2 ≤ n ∧ n < 2 ^ (n.log2 + 1) :=
    ⟨Nat.log2_self_le hpos.ne', Nat.lt_log2_self⟩
  have hlog : n.log2 ≤ 52 := by
    have := (Nat.log2_lt hpos.ne').mpr h
    omega
  obtain ⟨k, hk⟩ := Nat.exists_eq_add_of_le hlog
  -- the significand fills 53 bits
  refine nearestDouble_normal (m := (n * 2 ^ k : Nat)) (e := n.log2) ?_ ?_ ?_ ?_ ?_
  · have he : ((n.log2 : Int) - (52 : Nat)) = -(k : Int) := by omega
    rw [he, zpow_neg, zpow_natCast]
    push_cast
    field_simp
  · have : 2 ^ 52 ≤ n * 2 ^ k := by
      rw [hk, pow_add]
      exact Nat.mul_le_mul_right _ hlo
    exact_mod_cast this
  · have : n * 2 ^ k < 2 ^ 53 := by
      have h53 : 53 = n.log2 + 1 + k := by omega
      rw [h53, pow_add]
      exact Nat.mul_lt_mul_of_pos_right hhi (by positivity)
    exact_mod_cast this
  · omega
  · have h53 : (n : Rat) < 2 ^ (53 : Nat) := by exact_mod_cast h
    exact h53.trans_le (pow_le_pow_right₀ (by norm_num) (by norm_num))

/-- A decimal numeral reads back. -/
theorem parseInt_toString {n : Nat} (h : n < 2 ^ 53) : parseInt (js (toString n)) = .finite n := by
  have hd := digits_toString n
  obtain ⟨u, ds, hs⟩ := List.exists_cons_of_ne_nil (toString_ne_nil n)
  have hu : isDigit u = true := hd u (hs ▸ List.mem_cons_self)
  have htrim : trimStart (js (toString n)) = js (toString n) := by
    rw [hs, trimStart, List.dropWhile_cons_of_neg (by simp [isWhiteSpace_of_isDigit hu])]
  have hsign : ∀ v, isDigit v = false → (js (toString n)).head? ≠ some v := by
    intro v hv he
    rw [hs, List.head?_cons, Option.some.injEq] at he
    rw [he, hv] at hu
    cases hu
  have hunsigned : unsigned (js (toString n)) = js (toString n) :=
    if_neg (not_or.mpr ⟨hsign _ rfl, hsign _ rfl⟩)
  have hrun : (js (toString n)).takeWhile isDigit = js (toString n) :=
    List.takeWhile_eq_self_iff.mpr hd
  have hvalue : decimalValue false (js (toString n)) [] 0 = n := by
    rw [decimalValue, List.append_nil, digitsValue_toString]
    simp
  simp only [parseInt, htrim, hunsigned, hrun, List.isEmpty_iff, toString_ne_nil, if_false,
    hsign 0x2D rfl, decide_false, hvalue]
  exact nearestDouble_natCast h

/-- Doubles hold the integers between `-2^53` and `2^53`. -/
theorem isDouble_ofInt {n : Int} (h : n.natAbs < 2 ^ 53) : IsDouble (ofInt n) := by
  have hnat := nearestDouble_natCast h
  rw [Nat.cast_natAbs] at hnat
  rcases lt_or_ge n 0 with hneg | hpos
  · rw [abs_of_neg hneg, Int.cast_neg] at hnat
    have hlt : (0 : Rat) < -(n : Rat) := by
      rw [neg_pos]
      exact_mod_cast hneg
    have hback := (nearestDouble_neg hlt).mpr hnat
    rwa [neg_neg] at hback
  · rw [abs_of_nonneg hpos] at hnat
    exact hnat

/-- `Number` of a run of digits. -/
theorem toNumber_digits {s : JsString} (hne : s ≠ []) (hd : Digits s) :
    toNumber s = nearestDouble (digitsValue s) := by
  have hspace : ∀ u ∈ s, isWhiteSpace u = false := fun u hu => isWhiteSpace_of_isDigit (hd u hu)
  have htrim : trim s = s := by
    have hpad := @trim_padded [] s [] (by simp) (by simp)
      (fun u hu => hspace u (List.mem_of_head? hu)) (fun u hu => hspace u (List.mem_of_getLast? hu))
    simpa using hpad
  have htag : ∀ c, isDigit c = false → s.take 2 ≠ [0x30, c] := by
    intro c hc he
    have hmem : c ∈ s.take 2 := by simp [he]
    rw [hd c (List.mem_of_mem_take hmem)] at hc
    cases hc
  have hhead : ∀ c, isDigit c = false → s.head? ≠ some c := by
    intro c hc he
    rw [hd c (List.mem_of_head? he)] at hc
    cases hc
  have hunsigned : unsigned s = s := if_neg (not_or.mpr ⟨hhead _ rfl, hhead _ rfl⟩)
  have hinfinity : s ≠ js "Infinity" := by
    rintro rfl
    exact hhead 0x49 rfl rfl
  have hrun : s.takeWhile isDigit = s := List.takeWhile_eq_self_iff.mpr hd
  have hrest : s.dropWhile isDigit = [] := List.dropWhile_eq_nil_iff.mpr hd
  have hvalue : decimalValue false s [] 0 = digitsValue s := by
    simp [decimalValue]
  rw [toNumber, htrim, if_neg (by simpa using hne)]
  simp only [show js "0x" = [0x30, 0x78] from rfl, show js "0X" = [0x30, 0x58] from rfl,
    show js "0o" = [0x30, 0x6F] from rfl, show js "0O" = [0x30, 0x4F] from rfl,
    show js "0b" = [0x30, 0x62] from rfl, show js "0B" = [0x30, 0x42] from rfl,
    htag 0x78 rfl, htag 0x58 rfl, htag 0x6F rfl, htag 0x4F rfl, htag 0x62 rfl, htag 0x42 rfl,
    or_self, if_false, hunsigned, hhead 0x2D rfl, decide_false, signedDecimal, hinfinity, hrun, hrest]
  simp only [List.head?_nil, reduceCtorEq, if_false, List.append_nil, List.isEmpty_iff, hne]
  rw [← hvalue]
  rfl

end Conductor.Js.ToNumber
