import Conductor.Js.ToNumber

/-! # The text of a natural number

`String(n)` of a natural number below `2^53` is its decimal numeral: the fewest
digits that identify the double stand before the point, and the zeros after them
are the ones that the numeral ends with. -/
namespace Conductor.Js.NaturalText
open Conductor.Js.Text Conductor.Js.Number Conductor.Js.Doubles Conductor.Js.Numerals Conductor.Js.ToNumber

theorem toString_tenfold {n : Nat} (h : 0 < n) : js (toString (10 * n)) = js (toString n) ++ [0x30] := by
  have happend := Nat.toDigits_append_toDigits (b := 10) (d := 0) (by decide) h (by decide)
  rw [Nat.add_zero] at happend
  rw [toString_units, toString_units, ← happend, List.map_append]
  rfl

theorem toString_zeros {n : Nat} (h : 0 < n) (j : Nat) :
    js (toString (n * 10 ^ j)) = js (toString n) ++ zeros j := by
  induction j with
  | zero => simp [zeros]
  | succ j ih =>
    have htenfold : n * 10 ^ (j + 1) = 10 * (n * 10 ^ j) := by ring
    rw [htenfold, toString_tenfold (Nat.mul_pos h (by positivity)), ih, List.append_assoc]
    congr 1
    exact (List.replicate_succ').symm

/-! ## How many digits -/

theorem shortestFrom_le {q : Rat} {n : Int} {fuel k j : Nat} (hk : k ≤ j) (hj : j < k + fuel)
    (h : (digitsOf q n j).isSome = true) : (shortestFrom q n fuel k).2.1 ≤ j := by
  induction fuel generalizing k with
  | zero => omega
  | succ fuel ih =>
    rw [shortestFrom]
    cases hd : digitsOf q n k with
    | some p => exact hk
    | none =>
      have hne : k ≠ j := by
        rintro rfl
        rw [hd] at h
        cases h
      exact ih (by omega) (by omega)

/-- Rounding up to a power of ten moves the point by one. -/
theorem digitsOf_point {q : Rat} {n n' : Int} {k s : Nat} (h : digitsOf q n k = some (s, n')) :
    n ≤ n' ∧ n' ≤ n + 1 := by
  unfold digitsOf at h
  simp only at h
  split_ifs at h
  · cases h
    omega
  · cases h
    omega
  · cases h
    omega

/-- No double below `2^53` is read from a number that is not below. -/
theorem nearestDouble_large {x v : Rat} (hx : (2 : Rat) ^ (53 : Nat) ≤ x) (h : nearestDouble x = .finite v) :
    (2 : Rat) ^ (53 : Nat) ≤ v := by
  have hpos : 0 < x := lt_of_lt_of_le (by norm_num) hx
  rw [nearestDouble_of_pos hpos] at h
  split at h
  · cases h
  · cases h
    obtain ⟨hlo, hhi⟩ := floorLog2_spec hpos
    have hlog : 53 ≤ floorLog2 x := by
      by_contra hlt
      have hle : (2 : Rat) ^ (floorLog2 x + 1) ≤ 2 ^ (53 : Int) :=
        zpow_le_zpow_right₀ (by norm_num) (by omega)
      have h53 : (2 : Rat) ^ (53 : Int) = 2 ^ (53 : Nat) := by norm_num
      linarith
    have hplace : lastPlace x = floorLog2 x - 52 := by
      unfold lastPlace
      omega
    have hunit := two_zpow_pos (lastPlace x)
    have hsignificand : ((2 ^ 52 : Int) : Rat) ≤ x / 2 ^ lastPlace x := by
      rw [le_div_iff₀ hunit, hplace]
      refine le_trans (le_of_eq ?_) hlo
      rw [zpow_sub₀ (by norm_num)]
      norm_num
      field_simp
    have hround : ((2 ^ 52 : Int) : Rat) ≤ roundHalfEven (x / 2 ^ lastPlace x) := by
      exact_mod_cast roundHalfEven_ge hsignificand
    have htwo : (2 : Rat) ≤ 2 ^ lastPlace x := by
      have hle : (2 : Rat) ^ (1 : Int) ≤ 2 ^ lastPlace x := zpow_le_zpow_right₀ (by norm_num) (by omega)
      simpa using hle
    calc (2 : Rat) ^ (53 : Nat) = ((2 ^ 52 : Int) : Rat) * 2 := by norm_num
      _ ≤ roundHalfEven (x / 2 ^ lastPlace x) * 2 ^ lastPlace x :=
        mul_le_mul hround htwo (by norm_num) (le_trans (by norm_num) hround)

/-! ## The numeral -/

/-- The point of a natural number below `2^53` stands within 16 digits. -/
theorem decimalPoint_natCast {n : Nat} (hn : 0 < n) (h : n < 2 ^ 53) :
    1 ≤ decimalPoint n ∧ decimalPoint n ≤ 16 := by
  have hpos : (0 : Rat) < n := by exact_mod_cast hn
  obtain ⟨hlo, hhi⟩ := decimalPoint_spec hpos (nearestDouble_natCast h)
  constructor
  · by_contra hlt
    have hle : (10 : Rat) ^ decimalPoint n ≤ 10 ^ (0 : Int) := zpow_le_zpow_right₀ (by norm_num) (by omega)
    have hone : (1 : Rat) ≤ n := by exact_mod_cast hn
    simp only [zpow_zero] at hle
    linarith
  · by_contra hlt
    have hle : (10 : Rat) ^ (16 : Int) ≤ 10 ^ (decimalPoint n - 1) :=
      zpow_le_zpow_right₀ (by norm_num) (by omega)
    have hmax : (n : Rat) < 2 ^ (53 : Nat) := by exact_mod_cast h
    have hbound : (2 : Rat) ^ (53 : Nat) ≤ 10 ^ (16 : Int) := by norm_num
    linarith

/-- All its digits read back. -/
theorem digitsOf_natCast {n : Nat} (h : n < 2 ^ 53) {k : Nat} (hk : (k : Int) = decimalPoint n) :
    digitsOf n (decimalPoint n) k = some (n, decimalPoint n) := by
  have hfloor : (n : Rat).floor.toNat = n := by
    have hcast : (n : Rat).floor = (n : Int) := Rat.floor_intCast n
    rw [hcast, Int.toNat_natCast]
  unfold digitsOf
  simp only [hk, sub_self, zpow_zero, mul_one, hfloor, nearestDouble_natCast h]
  norm_num

theorem toJsString_natCast {n : Nat} (h : n < 2 ^ 53) :
    (JsNumber.finite n).toJsString = js (toString n) := by
  rcases Nat.eq_zero_or_pos n with rfl | hn
  · rfl
  have hpos : (0 : Rat) < n := by exact_mod_cast hn
  obtain ⟨hlo, hhi⟩ := decimalPoint_natCast hn h
  obtain ⟨d, hd⟩ : ∃ d : Nat, (d : Int) = decimalPoint n := ⟨(decimalPoint n).toNat, by omega⟩
  have hall := digitsOf_natCast h hd
  have hsome : (digitsOf n (decimalPoint n) d).isSome = true := by rw [hall]; rfl
  obtain ⟨s, k, m, hs, hk, hdigits⟩ := @shortestFrom_spec n (decimalPoint n) 17 1
    ⟨d, by omega, by omega, hsome⟩
  have hkd : k ≤ d := by
    have hle := @shortestFrom_le n (decimalPoint n) 17 1 d (by omega) (by omega) hsome
    rwa [hs] at hle
  obtain ⟨hpoint, hpoint'⟩ := digitsOf_point hdigits
  obtain ⟨j, hj⟩ : ∃ j : Nat, m = k + j := ⟨(m - k).toNat, by omega⟩
  -- the digits with their zeros are read as `n`, and so they are `n`
  have hreads := digitsOf_reads hk hdigits
  have hwhole : (s : Rat) * 10 ^ (m - (k : Int)) = ((s * 10 ^ j : Nat) : Rat) := by
    rw [hj, add_sub_cancel_left, zpow_natCast]
    push_cast
    rfl
  rw [hwhole] at hreads
  have hsmall : s * 10 ^ j < 2 ^ 53 := by
    by_contra hge
    have hlarge := nearestDouble_large (by exact_mod_cast not_lt.mp hge) hreads
    have hmax : (n : Rat) < 2 ^ (53 : Nat) := by exact_mod_cast h
    linarith
  have hvalue : s * 10 ^ j = n := by
    have heq := (nearestDouble_natCast hsmall).symm.trans hreads
    exact_mod_cast JsNumber.finite.inj heq
  have hspos : 0 < s := by
    rcases Nat.eq_zero_or_pos s with rfl | hspos
    · rw [Nat.zero_mul] at hvalue
      omega
    · exact hspos
  have hlayout : layout s k m = js (toString s) ++ zeros j := by
    rw [layout, if_pos (by omega), hj, add_sub_cancel_left, Int.toNat_natCast]
  simp only [JsNumber.toJsString, if_neg hpos.ne', abs_of_pos hpos, hs, if_neg (not_lt_of_gt hpos),
    List.nil_append, hlayout]
  rw [← toString_zeros hspos, hvalue]

end Conductor.Js.NaturalText
