import Mathlib.Algebra.Order.Field.Power
import Mathlib.Tactic.FieldSimp
import Mathlib.Tactic.Linarith
import Mathlib.Tactic.Positivity
import Mathlib.Tactic.Ring
import Conductor.Js.Number

/-! # Seventeen digits identify a double

The decimal with 17 significant digits that is nearest to a double reads back
as the double, so the search for the shortest one ends. -/
namespace Conductor.Js.Doubles
open Conductor.Js.Text Conductor.Js.Number

/-- The numbers that a program can hold. -/
def IsDouble : JsNumber → Prop
  | .finite q => nearestDouble q = .finite q
  | _ => True

/-! ## Positions -/

theorem two_zpow_pos (e : Int) : (0 : Rat) < 2 ^ e := zpow_pos (by norm_num) e

theorem ten_zpow_pos (e : Int) : (0 : Rat) < 10 ^ e := zpow_pos (by norm_num) e

theorem two_zpow_sub (e : Int) (k : Nat) : (2 : Rat) ^ (e - k) = 2 ^ e / 2 ^ k := by
  rw [zpow_sub₀ (by norm_num), zpow_natCast]

theorem div_between {n d : Rat} {a b : Int} (hn₁ : (2 : Rat) ^ a ≤ n) (hn₂ : n < 2 ^ (a + 1))
    (hd₁ : (2 : Rat) ^ b ≤ d) (hd₂ : d < 2 ^ (b + 1)) :
    (2 : Rat) ^ (a - b - 1) ≤ n / d ∧ n / d < 2 ^ (a - b + 1) := by
  have hd : 0 < d := lt_of_lt_of_le (two_zpow_pos b) hd₁
  constructor
  · rw [le_div_iff₀ hd]
    calc (2 : Rat) ^ (a - b - 1) * d
        ≤ 2 ^ (a - b - 1) * 2 ^ (b + 1) := mul_le_mul_of_nonneg_left hd₂.le (two_zpow_pos _).le
      _ = 2 ^ a := by rw [← zpow_add₀ (by norm_num), show a - b - 1 + (b + 1) = a by ring]
      _ ≤ n := hn₁
  · rw [div_lt_iff₀ hd]
    calc n < (2 : Rat) ^ (a + 1) := hn₂
      _ = 2 ^ (a - b + 1) * 2 ^ b := by rw [← zpow_add₀ (by norm_num), show a - b + 1 + b = a + 1 by ring]
      _ ≤ 2 ^ (a - b + 1) * d := mul_le_mul_of_nonneg_left hd₁ (two_zpow_pos _).le

theorem log2_between {n : Nat} (h : n ≠ 0) :
    (2 : Rat) ^ (Nat.log2 n : Int) ≤ n ∧ (n : Rat) < 2 ^ ((Nat.log2 n : Int) + 1) := by
  rw [← Nat.cast_succ, zpow_natCast, zpow_natCast]
  exact ⟨by exact_mod_cast Nat.log2_self_le h, by exact_mod_cast Nat.lt_log2_self⟩

theorem floorLog2_spec {q : Rat} (hq : 0 < q) :
    (2 : Rat) ^ floorLog2 q ≤ q ∧ q < 2 ^ (floorLog2 q + 1) := by
  have hnum : q.num.natAbs ≠ 0 := by
    have := Rat.num_pos.mpr hq
    omega
  have hcast : ((q.num.natAbs : Nat) : Rat) = (q.num : Rat) := by
    rw [← Int.cast_natCast, Int.natAbs_of_nonneg (Rat.num_pos.mpr hq).le]
  obtain ⟨hn₁, hn₂⟩ := log2_between hnum
  obtain ⟨hd₁, hd₂⟩ := log2_between q.den_nz
  obtain ⟨hlo, hhi⟩ := div_between hn₁ hn₂ hd₁ hd₂
  rw [hcast, Rat.num_div_den] at hlo hhi
  unfold floorLog2
  simp only
  split
  · rename_i hlt
    rw [sub_add_cancel]
    exact ⟨hlo, hlt⟩
  · rename_i hge
    exact ⟨not_lt.mp hge, hhi⟩

theorem floorLog2_unique {q : Rat} {e : Int} (hlo : (2 : Rat) ^ e ≤ q) (hhi : q < 2 ^ (e + 1)) :
    floorLog2 q = e := by
  obtain ⟨h₁, h₂⟩ := floorLog2_spec (lt_of_lt_of_le (two_zpow_pos e) hlo)
  have hle : floorLog2 q < e + 1 := (zpow_lt_zpow_iff_right₀ (by norm_num)).mp (lt_of_le_of_lt h₁ hhi)
  have hge : e < floorLog2 q + 1 := (zpow_lt_zpow_iff_right₀ (by norm_num)).mp (lt_of_le_of_lt hlo h₂)
  omega

theorem roundHalfEven_near {q : Rat} {m : Int} (h : |q - m| < 1 / 2) : roundHalfEven q = m := by
  obtain ⟨hlo, hhi⟩ := abs_lt.mp h
  unfold roundHalfEven
  simp only
  by_cases hge : (m : Rat) ≤ q
  · have hf : q.floor = m := Int.floor_eq_iff.mpr ⟨hge, by linarith⟩
    rw [hf, if_pos (by linarith)]
  · have hf : q.floor = m - 1 := by
      show ⌊q⌋ = m - 1
      rw [Int.floor_eq_iff]
      push_cast
      exact ⟨by linarith, by linarith⟩
    rw [hf]
    push_cast
    rw [if_neg (by linarith), if_pos (by linarith), sub_add_cancel]

/-- The exponent of the last place of a number. -/
def lastPlace (q : Rat) : Int := max (floorLog2 q - 52) (-1074)

theorem nearestDouble_of_pos {x : Rat} (hx : 0 < x) : nearestDouble x =
    if (2 : Rat) ^ (1024 : Nat) ≤ roundHalfEven (x / 2 ^ lastPlace x) * 2 ^ lastPlace x then .infinity false
    else .finite (roundHalfEven (x / 2 ^ lastPlace x) * 2 ^ lastPlace x) := by
  unfold nearestDouble lastPlace
  simp only [if_neg hx.ne', abs_of_pos hx, not_lt_of_gt hx, if_false, decide_false]

/-- A positive double is a multiple of its last place. -/
theorem double_spec {a : Rat} (ha : 0 < a) (h : nearestDouble a = .finite a) :
    (∃ m : Int, a = m * 2 ^ lastPlace a) ∧ a < 2 ^ (1024 : Nat) := by
  rw [nearestDouble_of_pos ha] at h
  split at h
  · cases h
  · rename_i hlt
    have hv := JsNumber.finite.inj h
    rw [hv] at hlt
    exact ⟨⟨_, hv.symm⟩, not_le.mp hlt⟩

/-- What lies within half a last place of a double, measured at the number
that is read, reads as the double. -/
theorem nearestDouble_eq {a x : Rat} {m : Int} (hx : 0 < x) (hm : a = m * 2 ^ lastPlace x)
    (ha : a < 2 ^ (1024 : Nat)) (hnear : |x - a| < 2 ^ lastPlace x / 2) :
    nearestDouble x = .finite a := by
  have hpos := two_zpow_pos (lastPlace x)
  have hround : roundHalfEven (x / 2 ^ lastPlace x) = m := by
    apply roundHalfEven_near
    have hsub : x / 2 ^ lastPlace x - m = (x - a) / 2 ^ lastPlace x := by
      rw [hm]
      field_simp
    rw [hsub, abs_div, abs_of_pos hpos, div_lt_iff₀ hpos]
    linarith
  rw [nearestDouble_of_pos hx, hround, ← hm, if_neg (not_le.mpr ha)]

/-- A double leaves room for one more last place before the next power. -/
theorem double_lt_next {a : Rat} (ha : 0 < a) {m : Int} (hm : a = m * 2 ^ lastPlace a) :
    a + 2 ^ lastPlace a ≤ 2 ^ (floorLog2 a + 1) := by
  obtain ⟨_, hhi⟩ := floorLog2_spec ha
  have hpos := two_zpow_pos (lastPlace a)
  have hm₁ : 1 ≤ m := by
    have hmpos : (0 : Rat) < m := by
      have hprod : 0 < (m : Rat) * 2 ^ lastPlace a := by
        rw [← hm]
        exact ha
      exact (mul_pos_iff_of_pos_right hpos).mp hprod
    exact_mod_cast hmpos
  have hle : lastPlace a ≤ floorLog2 a + 1 := by
    have hlt : (2 : Rat) ^ lastPlace a < 2 ^ (floorLog2 a + 1) := by
      refine lt_of_le_of_lt ?_ hhi
      have : (1 : Rat) ≤ m := by exact_mod_cast hm₁
      nlinarith
    exact ((zpow_lt_zpow_iff_right₀ (by norm_num)).mp hlt).le
  -- the next power is a whole number of last places
  obtain ⟨k, hk⟩ := Int.eq_ofNat_of_zero_le (sub_nonneg.mpr hle)
  have hpow : (2 : Rat) ^ (floorLog2 a + 1) = (2 ^ k : Int) * 2 ^ lastPlace a := by
    push_cast
    rw [← zpow_natCast, ← zpow_add₀ (by norm_num), ← hk, sub_add_cancel]
  have hlt : m < 2 ^ k := by
    have hmul : (m : Rat) * 2 ^ lastPlace a < (2 ^ k : Int) * 2 ^ lastPlace a := by
      rw [← hm, ← hpow]
      exact hhi
    exact_mod_cast lt_of_mul_lt_mul_right hmul hpos.le
  have hsucc : ((m : Rat) + 1) ≤ (2 ^ k : Int) := by exact_mod_cast hlt
  rw [hpow]
  nlinarith

/-- A number within one part in 2·10^16 of a double reads as the double. -/
theorem nearestDouble_near {a x : Rat} (ha : 0 < a) (h : nearestDouble a = .finite a)
    (hx : |x - a| ≤ a / (2 * 10 ^ 16)) : nearestDouble x = .finite a := by
  obtain ⟨⟨m, hm⟩, hmax⟩ := double_spec ha h
  obtain ⟨hlo, hhi⟩ := floorLog2_spec ha
  obtain ⟨hx₁, hx₂⟩ := abs_le.mp hx
  have hnext := double_lt_next ha hm
  have hpos := two_zpow_pos (floorLog2 a)
  have he : (2 : Rat) ^ (floorLog2 a + 1) = 2 * 2 ^ floorLog2 a := by
    rw [zpow_add₀ (by norm_num)]
    ring
  have hulp : (2 : Rat) ^ floorLog2 a / 2 ^ 52 ≤ 2 ^ lastPlace a := by
    rw [← two_zpow_sub]
    exact (zpow_le_zpow_iff_right₀ (by norm_num)).mpr (le_max_left _ _)
  rw [he] at hhi hnext
  have hxpos : 0 < x := by linarith
  by_cases hge : (2 : Rat) ^ floorLog2 a ≤ x
  · have hfloor : floorLog2 x = floorLog2 a := floorLog2_unique hge (by rw [he]; linarith)
    have hplace : lastPlace x = lastPlace a := by rw [lastPlace, lastPlace, hfloor]
    rw [← hplace] at hm hulp
    exact nearestDouble_eq hxpos hm hmax (lt_of_le_of_lt hx (by linarith))
  · have hlt := not_le.mp hge
    have hhalf : (2 : Rat) ^ (floorLog2 a - 1) = 2 ^ floorLog2 a / 2 := by
      have := two_zpow_sub (floorLog2 a) 1
      simpa using this
    have hfloor : floorLog2 x = floorLog2 a - 1 :=
      floorLog2_unique (by rw [hhalf]; linarith) (by rw [sub_add_cancel]; exact hlt)
    by_cases hsub : floorLog2 a - 52 ≤ -1074
    · -- the places of the smallest numbers are all alike
      have hplace : lastPlace x = lastPlace a := by
        rw [lastPlace, lastPlace, hfloor, max_eq_right hsub, max_eq_right (by omega)]
      rw [← hplace] at hm hulp
      exact nearestDouble_eq hxpos hm hmax (lt_of_le_of_lt hx (by linarith))
    · -- just below a power of two the places are half as wide
      have hplace : lastPlace x = floorLog2 a - (53 : Nat) := by
        rw [lastPlace, hfloor, max_eq_left (by omega)]
        push_cast
        ring
      have hplace' : lastPlace a = floorLog2 a - (52 : Nat) := by
        rw [lastPlace, max_eq_left (by omega)]
        rfl
      have hm' : a = (2 * m : Int) * 2 ^ lastPlace x := by
        rw [hplace, two_zpow_sub]
        rw [hplace', two_zpow_sub] at hm
        push_cast
        linarith
      refine nearestDouble_eq hxpos hm' hmax (lt_of_le_of_lt hx ?_)
      rw [hplace, two_zpow_sub]
      linarith

/-! ## What was rounded stays -/

theorem nearestDouble_neg {x v : Rat} (hx : 0 < x) :
    nearestDouble (-x) = .finite (-v) ↔ nearestDouble x = .finite v := by
  unfold nearestDouble
  simp only [if_neg hx.ne', if_neg (neg_ne_zero.mpr hx.ne'), abs_neg, abs_of_pos hx,
    not_lt_of_gt hx, if_false, neg_lt_zero, hx, if_true]
  split
  · exact ⟨fun h => (JsNumber.noConfusion h), fun h => (JsNumber.noConfusion h)⟩
  · simp

/-- Rounding does not pass an integer. -/
theorem roundHalfEven_ge {q : Rat} {a : Int} (h : (a : Rat) ≤ q) : a ≤ roundHalfEven q := by
  have hf : a ≤ q.floor := Rat.le_floor_iff.mpr h
  unfold roundHalfEven
  simp only
  split_ifs
  · exact hf
  · omega
  · exact hf
  · omega

theorem roundHalfEven_le {q : Rat} {b : Int} (h : q ≤ b) : roundHalfEven q ≤ b := by
  have hfq : (q.floor : Rat) ≤ q := Int.floor_le q
  have hf : q.floor ≤ b := by exact_mod_cast le_trans hfq h
  by_cases heq : q.floor = b
  · have hq : q = q.floor := le_antisymm (by rw [heq]; exact h) hfq
    unfold roundHalfEven
    simp only
    rw [if_pos (by linarith)]
    exact hf
  · unfold roundHalfEven
    simp only
    split_ifs
    · exact hf
    · omega
    · exact hf
    · omega

/-- A number with 53 significant bits and room for its last place. -/
theorem nearestDouble_normal {v : Rat} {m e : Int} (hv : v = m * 2 ^ (e - (52 : Nat)))
    (h₁ : 2 ^ 52 ≤ m) (h₂ : m < 2 ^ 53) (he : -1074 ≤ e - 52) (hmax : v < 2 ^ (1024 : Nat)) :
    nearestDouble v = .finite v := by
  have hpos := two_zpow_pos e
  have hnext : (2 : Rat) ^ (e + 1) = 2 * 2 ^ e := by
    rw [zpow_add₀ (by norm_num)]
    ring
  have h₁' : (2 : Rat) ^ 52 ≤ m := by exact_mod_cast h₁
  have h₂' : (m : Rat) < 2 ^ 53 := by exact_mod_cast h₂
  have hlo : (2 : Rat) ^ e ≤ v := by
    rw [hv, two_zpow_sub, mul_div_assoc', le_div_iff₀ (by positivity)]
    nlinarith
  have hhi : v < (2 : Rat) ^ (e + 1) := by
    rw [hv, two_zpow_sub, mul_div_assoc', div_lt_iff₀ (by positivity), hnext]
    nlinarith
  have hplace : lastPlace v = e - (52 : Nat) := by
    rw [lastPlace, floorLog2_unique hlo hhi]
    exact max_eq_left he
  rw [← hplace] at hv
  refine nearestDouble_eq (lt_of_lt_of_le hpos hlo) hv hmax ?_
  rw [sub_self, abs_zero]
  exact half_pos (two_zpow_pos _)

theorem least_double_places : (2 : Rat) ^ 52 * 2 ^ (-1074 : Int) = 2 ^ (-1022 : Int) := by
  rw [← zpow_natCast, ← zpow_add₀ (by norm_num)]
  norm_num

/-- A multiple of the least double, below the numbers with 53 bits. -/
theorem nearestDouble_subnormal {v : Rat} {m : Int} (hv : v = m * 2 ^ (-1074 : Int)) (h₀ : 0 < m)
    (h : m ≤ 2 ^ 52) : nearestDouble v = .finite v := by
  have hpos := two_zpow_pos (-1074)
  have h' : (m : Rat) ≤ 2 ^ 52 := by exact_mod_cast h
  have hvpos : 0 < v := by
    rw [hv]
    exact mul_pos (by exact_mod_cast h₀) hpos
  have hle : v ≤ 2 ^ (-1022 : Int) := by
    calc v = m * 2 ^ (-1074 : Int) := hv
      _ ≤ 2 ^ 52 * 2 ^ (-1074 : Int) := mul_le_mul_of_nonneg_right h' hpos.le
      _ = 2 ^ (-1022 : Int) := least_double_places
  have hfloor : floorLog2 v ≤ -1022 := by
    have hlo := le_trans (floorLog2_spec hvpos).1 hle
    exact (zpow_le_zpow_iff_right₀ (by norm_num)).mp hlo
  have hplace : lastPlace v = -1074 := max_eq_right (by omega)
  rw [← hplace] at hv
  refine nearestDouble_eq hvpos hv ?_ ?_
  · refine lt_of_le_of_lt hle ?_
    rw [← zpow_natCast]
    exact (zpow_lt_zpow_iff_right₀ (by norm_num)).mpr (by norm_num)
  · rw [sub_self, abs_zero]
    exact half_pos (two_zpow_pos _)

/-- What was rounded to a double is one. -/
theorem nearestDouble_idem_pos {x v : Rat} (hx : 0 < x) (h : nearestDouble x = .finite v) :
    nearestDouble v = .finite v := by
  rw [nearestDouble_of_pos hx] at h
  split at h
  · cases h
  rename_i hmax
  have hv := (JsNumber.finite.inj h).symm
  rw [← hv, not_le] at hmax
  obtain ⟨hlo, hhi⟩ := floorLog2_spec hx
  have hnext : (2 : Rat) ^ (floorLog2 x + 1) = 2 * 2 ^ floorLog2 x := by
    rw [zpow_add₀ (by norm_num)]
    ring
  by_cases hsub : -1074 ≤ floorLog2 x - 52
  · have hplace : lastPlace x = floorLog2 x - (52 : Nat) := max_eq_left hsub
    have hm₁ : 2 ^ 52 ≤ roundHalfEven (x / 2 ^ lastPlace x) := by
      refine roundHalfEven_ge ?_
      rw [hplace, two_zpow_sub, le_div_iff₀ (by positivity)]
      push_cast
      linarith
    have hm₂ : roundHalfEven (x / 2 ^ lastPlace x) ≤ 2 ^ 53 := by
      refine roundHalfEven_le ?_
      rw [hplace, two_zpow_sub, div_le_iff₀ (by positivity)]
      push_cast
      linarith
    rw [hplace] at hv hm₁ hm₂
    generalize roundHalfEven (x / 2 ^ (floorLog2 x - (52 : Nat))) = m at hv hm₁ hm₂
    by_cases htop : m = 2 ^ 53
    · -- rounded up to the next power of two
      have hv' : v = (2 ^ 52 : Int) * 2 ^ (floorLog2 x + 1 - (52 : Nat)) := by
        rw [hv, htop, two_zpow_sub, two_zpow_sub, hnext]
        push_cast
        ring
      exact nearestDouble_normal hv' (by norm_num) (by norm_num) (by omega) hmax
    · exact nearestDouble_normal hv hm₁ (by omega) hsub hmax
  · have hplace : lastPlace x = -1074 := max_eq_right (by omega)
    rw [hplace] at hv
    have hm₀ : 0 ≤ roundHalfEven (x / 2 ^ (-1074 : Int)) :=
      roundHalfEven_ge (by rw [Int.cast_zero]; positivity)
    have hm : roundHalfEven (x / 2 ^ (-1074 : Int)) ≤ 2 ^ 52 := by
      refine roundHalfEven_le ?_
      rw [div_le_iff₀ (two_zpow_pos _)]
      have htop : (2 : Rat) ^ (floorLog2 x + 1) ≤ 2 ^ (-1022 : Int) :=
        (zpow_le_zpow_iff_right₀ (by norm_num)).mpr (by omega)
      calc x ≤ 2 ^ (-1022 : Int) := le_trans hhi.le htop
        _ = (2 ^ 52 : Int) * 2 ^ (-1074 : Int) := by rw [← least_double_places, Int.cast_pow, Int.cast_ofNat]
    generalize roundHalfEven (x / 2 ^ (-1074 : Int)) = m at hv hm₀ hm
    rcases hm₀.eq_or_lt with rfl | hmpos
    · rw [hv, Int.cast_zero, zero_mul]
      rfl
    · exact nearestDouble_subnormal hv hmpos hm

theorem nearestDouble_nonneg {x v : Rat} (hx : 0 < x) (h : nearestDouble x = .finite v) : 0 ≤ v := by
  have hpos := two_zpow_pos (lastPlace x)
  rw [nearestDouble_of_pos hx] at h
  split at h
  · cases h
  · have hm : 0 ≤ roundHalfEven (x / 2 ^ lastPlace x) :=
      roundHalfEven_ge (by rw [Int.cast_zero]; positivity)
    rw [← JsNumber.finite.inj h]
    exact mul_nonneg (by exact_mod_cast hm) hpos.le

theorem nearestDouble_idem {x v : Rat} (h : nearestDouble x = .finite v) :
    nearestDouble v = .finite v := by
  rcases lt_trichotomy x 0 with hx | rfl | hx
  · have hneg : 0 < -x := neg_pos.mpr hx
    have h' : nearestDouble (-x) = .finite (-v) := by
      rw [← nearestDouble_neg hneg, neg_neg, neg_neg]
      exact h
    have hidem := nearestDouble_idem_pos hneg h'
    rcases (nearestDouble_nonneg hneg h').eq_or_lt with hzero | hv
    · rw [neg_eq_zero.mp hzero.symm]
      rfl
    · rw [← neg_neg v]
      exact (nearestDouble_neg hv).mpr hidem
  · cases h
    rfl
  · exact nearestDouble_idem_pos hx h

/-! ## Decimal positions -/

theorem exponent_range {a : Rat} (ha : 0 < a) (h : nearestDouble a = .finite a) :
    -1074 ≤ floorLog2 a ∧ floorLog2 a < 1024 := by
  obtain ⟨⟨m, hm⟩, hmax⟩ := double_spec ha h
  obtain ⟨hlo, hhi⟩ := floorLog2_spec ha
  have hnext := double_lt_next ha hm
  have hplace : (2 : Rat) ^ (-1074 : Int) ≤ 2 ^ lastPlace a :=
    (zpow_le_zpow_iff_right₀ (by norm_num)).mpr (le_max_right _ _)
  constructor
  · have hlt : (2 : Rat) ^ (-1074 : Int) < 2 ^ (floorLog2 a + 1) := by linarith
    have := (zpow_lt_zpow_iff_right₀ (by norm_num)).mp hlt
    omega
  · rw [← zpow_natCast] at hmax
    have := (zpow_lt_zpow_iff_right₀ (by norm_num)).mp (lt_of_le_of_lt hlo hmax)
    exact_mod_cast this

/-- The powers of two of the doubles against the powers of ten that the guess
from `log 2 ≈ 0.30103` names. -/
theorem ten_two_up : ∀ k < 1024, 10 ^ (k * 30103 / 100000) ≤ 10 * 2 ^ k ∧
    2 * 2 ^ k ≤ 100 * 10 ^ (k * 30103 / 100000) := by
  decide +kernel

theorem ten_two_down : ∀ k < 1075, 2 ^ k ≤ 10 * 10 ^ ((k * 30103 + 99999) / 100000) ∧
    2 * 10 ^ ((k * 30103 + 99999) / 100000) ≤ 100 * 2 ^ k := by
  decide +kernel

theorem guess_between {e : Int} (hlo : -1074 ≤ e) (hhi : e < 1024) :
    (10 : Rat) ^ (e * 30103 / 100000 - 1) ≤ 2 ^ e ∧
      (2 : Rat) ^ (e + 1) ≤ 10 ^ (e * 30103 / 100000 + 2) := by
  have hten : ∀ g : Int, (10 : Rat) ^ (g - 1) = 10 ^ g / 10 ∧ (10 : Rat) ^ (g + 2) = 10 ^ g * 100 := by
    intro g
    rw [zpow_sub₀ (by norm_num), zpow_add₀ (by norm_num)]
    norm_num
  have htwo : (2 : Rat) ^ (e + 1) = 2 ^ e * 2 := by
    rw [zpow_add₀ (by norm_num), zpow_one]
  rw [(hten _).1, (hten _).2, htwo]
  by_cases hneg : 0 ≤ e
  · obtain ⟨k, rfl⟩ := Int.eq_ofNat_of_zero_le hneg
    obtain ⟨h₁, h₂⟩ := ten_two_up k (by omega)
    have hg : (k : Int) * 30103 / 100000 = ((k * 30103 / 100000 : Nat) : Int) := by omega
    have h₁' : (10 : Rat) ^ (k * 30103 / 100000) ≤ 10 * 2 ^ k := by exact_mod_cast h₁
    have h₂' : (2 : Rat) * 2 ^ k ≤ 100 * 10 ^ (k * 30103 / 100000) := by exact_mod_cast h₂
    rw [hg, zpow_natCast, zpow_natCast]
    constructor
    · linarith
    · linarith
  · obtain ⟨k, hk⟩ := Int.eq_ofNat_of_zero_le (show 0 ≤ -e by omega)
    obtain ⟨h₁, h₂⟩ := ten_two_down k (by omega)
    have he : e = -(k : Int) := by omega
    have hg : e * 30103 / 100000 = -(((k * 30103 + 99999) / 100000 : Nat) : Int) := by omega
    have h₁' : (2 : Rat) ^ k ≤ 10 * 10 ^ ((k * 30103 + 99999) / 100000) := by exact_mod_cast h₁
    have h₂' : (2 : Rat) * 10 ^ ((k * 30103 + 99999) / 100000) ≤ 100 * 2 ^ k := by exact_mod_cast h₂
    rw [hg, he, zpow_neg, zpow_neg, zpow_natCast, zpow_natCast]
    generalize (k * 30103 + 99999) / 100000 = g at h₁' h₂'
    have ht : (0 : Rat) < 10 ^ g := by positivity
    have hp : (0 : Rat) < 2 ^ k := by positivity
    constructor
    · rw [inv_eq_one_div, inv_eq_one_div, div_div, div_le_div_iff₀ (by positivity) hp]
      linarith
    · rw [inv_mul_eq_div, inv_mul_eq_div, div_le_div_iff₀ hp ht]
      linarith

/-- The position of the decimal point of a positive double. -/
theorem decimalPoint_spec {a : Rat} (ha : 0 < a) (h : nearestDouble a = .finite a) :
    (10 : Rat) ^ (decimalPoint a - 1) ≤ a ∧ a < 10 ^ decimalPoint a := by
  obtain ⟨hlo, hhi⟩ := exponent_range ha h
  obtain ⟨hg₁, hg₂⟩ := guess_between hlo hhi
  obtain ⟨h₁, h₂⟩ := floorLog2_spec ha
  unfold decimalPoint
  simp only
  split
  · rename_i hlt
    exact ⟨le_trans hg₁ h₁, hlt⟩
  · rename_i hge
    split
    · rename_i hlt
      rw [add_sub_cancel_right]
      exact ⟨not_lt.mp hge, hlt⟩
    · rename_i hge'
      rw [show ∀ g : Int, g + 2 - 1 = g + 1 by intro g; ring]
      exact ⟨not_lt.mp hge', lt_of_lt_of_le h₂ hg₂⟩

/-! ## Digits -/

/-- The number scaled to `k` digits before the point, and its whole part. -/
theorem scaled_between {a : Rat} (ha : 0 < a) (h : nearestDouble a = .finite a) {k : Nat} (hk : 1 ≤ k) :
    (10 : Rat) ^ (k - 1) ≤ a * 10 ^ ((k : Int) - decimalPoint a) ∧
      a * (10 : Rat) ^ ((k : Int) - decimalPoint a) < 10 ^ k := by
  obtain ⟨hlo, hhi⟩ := decimalPoint_spec ha h
  have hpos := ten_zpow_pos ((k : Int) - decimalPoint a)
  constructor
  · calc (10 : Rat) ^ (k - 1) = 10 ^ (decimalPoint a - 1) * 10 ^ ((k : Int) - decimalPoint a) := by
          rw [← zpow_natCast, ← zpow_add₀ (by norm_num)]
          congr 1
          omega
      _ ≤ a * 10 ^ ((k : Int) - decimalPoint a) := mul_le_mul_of_nonneg_right hlo hpos.le
  · calc a * (10 : Rat) ^ ((k : Int) - decimalPoint a)
        < 10 ^ decimalPoint a * 10 ^ ((k : Int) - decimalPoint a) := mul_lt_mul_of_pos_right hhi hpos
      _ = 10 ^ k := by
          rw [← zpow_natCast, ← zpow_add₀ (by norm_num)]
          congr 1
          omega

theorem floor_toNat {q : Rat} (hq : 0 ≤ q) : (q.floor.toNat : Rat) ≤ q ∧ q < q.floor.toNat + 1 := by
  have hnn : 0 ≤ ⌊q⌋ := Int.floor_nonneg.mpr hq
  have hcast : ((q.floor.toNat : Nat) : Rat) = (⌊q⌋ : Rat) := by
    rw [← Int.cast_natCast]
    exact congrArg _ (Int.toNat_of_nonneg hnn)
  rw [hcast]
  exact ⟨Int.floor_le q, Int.lt_floor_add_one q⟩

/-- A whole number of units of the 17th digit, at most half a unit away. -/
theorem reads_near {a : Rat} (ha : 0 < a) (h : nearestDouble a = .finite a) {s k : Nat} (hk : 17 ≤ k)
    (hs : |(s : Rat) - a * 10 ^ ((k : Int) - decimalPoint a)| ≤ 1 / 2) :
    nearestDouble (s * (10 : Rat) ^ (decimalPoint a - (k : Int))) = .finite a := by
  obtain ⟨hlo, _⟩ := decimalPoint_spec ha h
  have hpos := ten_zpow_pos (decimalPoint a - (k : Int))
  apply nearestDouble_near ha h
  have ha' : a = a * 10 ^ ((k : Int) - decimalPoint a) * 10 ^ (decimalPoint a - (k : Int)) := by
    rw [mul_assoc, ← zpow_add₀ (by norm_num), sub_add_sub_cancel, sub_self, zpow_zero, mul_one]
  have hunit : (10 : Rat) ^ (decimalPoint a - 1) = 10 ^ (k - 1) * 10 ^ (decimalPoint a - (k : Int)) := by
    rw [← zpow_natCast, ← zpow_add₀ (by norm_num)]
    congr 1
    omega
  have hdist : |s * (10 : Rat) ^ (decimalPoint a - (k : Int)) - a| ≤
      1 / 2 * 10 ^ (decimalPoint a - (k : Int)) := by
    nth_rewrite 2 [ha']
    rw [← sub_mul, abs_mul, abs_of_pos hpos]
    exact mul_le_mul_of_nonneg_right hs hpos.le
  have hmany : (10 : Rat) ^ 16 ≤ 10 ^ (k - 1) := pow_le_pow_right₀ (by norm_num) (by omega)
  rw [hunit] at hlo
  have hmul := mul_le_mul_of_nonneg_right hmany hpos.le
  linarith

theorem digitsOf_isSome {a : Rat} (ha : 0 < a) (h : nearestDouble a = .finite a) {k : Nat} (hk : 17 ≤ k) :
    (digitsOf a (decimalPoint a) k).isSome = true := by
  obtain ⟨hlo, _⟩ := scaled_between ha h (show 1 ≤ k by omega)
  obtain ⟨hf₁, hf₂⟩ := floor_toNat (le_trans (by positivity) hlo)
  unfold digitsOf
  simp only
  generalize (a * (10 : Rat) ^ ((k : Int) - decimalPoint a)).floor.toNat = below at *
  have hnear : nearestDouble (below * (10 : Rat) ^ (decimalPoint a - (k : Int))) = .finite a ∨
      nearestDouble ((below + 1 : Nat) * (10 : Rat) ^ (decimalPoint a - (k : Int))) = .finite a := by
    by_cases hhalf : a * (10 : Rat) ^ ((k : Int) - decimalPoint a) - below ≤ 1 / 2
    · refine .inl (reads_near ha h hk (abs_le.mpr ⟨?_, ?_⟩))
      · linarith
      · linarith
    · refine .inr (reads_near ha h hk (abs_le.mpr ⟨?_, ?_⟩))
      · push_cast
        linarith
      · push_cast
        linarith
  by_cases habove : nearestDouble ((below + 1 : Nat) * (10 : Rat) ^ (decimalPoint a - (k : Int))) = .finite a
  · simp only [habove, decide_true, if_true]
    split
    · rfl
    · rfl
  · simp only [hnear.resolve_right habove, habove, decide_true, decide_false, Bool.not_false,
      Bool.or_true, Bool.and_true, if_true, Option.isSome_some]

theorem digitsOf_between {a : Rat} (ha : 0 < a) (h : nearestDouble a = .finite a) {k s : Nat} {n : Int}
    (hk : 1 ≤ k) (hd : digitsOf a (decimalPoint a) k = some (s, n)) : 10 ^ (k - 1) ≤ s ∧ s < 10 ^ k := by
  obtain ⟨hlo, hhi⟩ := scaled_between ha h hk
  obtain ⟨hf₁, hf₂⟩ := floor_toNat (le_trans (by positivity) hlo)
  unfold digitsOf at hd
  simp only at hd
  generalize (a * (10 : Rat) ^ ((k : Int) - decimalPoint a)).floor.toNat = below at *
  have hge : 10 ^ (k - 1) < below + 1 := by exact_mod_cast lt_of_le_of_lt hlo hf₂
  have hlt : below < 10 ^ k := by exact_mod_cast lt_of_le_of_lt hf₁ hhi
  have hpow : 10 ^ k = 10 * 10 ^ (k - 1) := by
    rw [← pow_succ', Nat.sub_add_cancel hk]
  have hpos : 0 < 10 ^ (k - 1) := by positivity
  split_ifs at hd with h₁ h₂ h₃
  · cases hd
    exact ⟨by omega, hlt⟩
  · cases hd
    exact ⟨le_refl _, by omega⟩
  · cases hd
    exact ⟨by omega, by omega⟩

/-- The digits that were chosen read back as the number. -/
theorem digitsOf_reads {q : Rat} {n n' : Int} {k s : Nat} (hk : 1 ≤ k)
    (h : digitsOf q n k = some (s, n')) :
    nearestDouble (s * (10 : Rat) ^ (n' - (k : Int))) = .finite q := by
  unfold digitsOf at h
  simp only at h
  generalize (q * (10 : Rat) ^ ((k : Int) - n)).floor.toNat = below at h
  split_ifs at h with h₁ h₂ h₃
  · cases h
    simp only [Bool.and_eq_true, decide_eq_true_eq] at h₁
    exact h₁.1
  · cases h
    -- the digits are all nines and one more
    have hcarry : ((10 ^ (k - 1) : Nat) : Rat) * 10 ^ (n + 1 - (k : Int)) =
        (below + 1 : Nat) * 10 ^ (n - (k : Int)) := by
      obtain ⟨j, rfl⟩ : ∃ j, k = j + 1 := ⟨k - 1, by omega⟩
      rw [h₃, Nat.add_sub_cancel, add_sub_right_comm, zpow_add₀ (by norm_num), pow_succ]
      push_cast
      ring
    rw [hcarry]
    exact of_decide_eq_true h₂
  · cases h
    exact of_decide_eq_true h₂

/-- The search ends at the first number of digits that reads back. -/
theorem shortestFrom_spec {q : Rat} {n : Int} {fuel k : Nat}
    (h : ∃ j, k ≤ j ∧ j < k + fuel ∧ (digitsOf q n j).isSome = true) :
    ∃ s k' n', shortestFrom q n fuel k = (s, k', n') ∧ k ≤ k' ∧ digitsOf q n k' = some (s, n') := by
  induction fuel generalizing k with
  | zero =>
    obtain ⟨j, h₁, h₂, _⟩ := h
    omega
  | succ fuel ih =>
    obtain ⟨j, h₁, h₂, hj⟩ := h
    rw [shortestFrom]
    cases hd : digitsOf q n k with
    | some p => exact ⟨p.1, k, p.2, rfl, le_refl k, hd⟩
    | none =>
      have hne : k ≠ j := by
        intro he
        rw [he] at hd
        rw [hd] at hj
        cases hj
      obtain ⟨s, k', n', hs, hk, hd'⟩ := ih (k := k + 1) ⟨j, by omega, by omega, hj⟩
      exact ⟨s, k', n', hs, by omega, hd'⟩

/-- What the printer lays out for a positive double: `k` digits, none of them a
leading zero, that read back as the double. -/
theorem shortest_double {a : Rat} (ha : 0 < a) (h : nearestDouble a = .finite a) :
    ∃ s k n, shortestFrom a (decimalPoint a) 17 1 = (s, k, n) ∧ 1 ≤ k ∧
      (10 ^ (k - 1) ≤ s ∧ s < 10 ^ k) ∧
      nearestDouble (s * (10 : Rat) ^ (n - (k : Int))) = .finite a := by
  have hlast : ∃ j, 1 ≤ j ∧ j < 1 + 17 ∧ (digitsOf a (decimalPoint a) j).isSome = true :=
    ⟨17, by decide, by decide, digitsOf_isSome ha h (le_refl 17)⟩
  obtain ⟨s, k, n, hs, hk, hd⟩ := shortestFrom_spec hlast
  exact ⟨s, k, n, hs, hk, digitsOf_between ha h hk hd, digitsOf_reads hk hd⟩

/-- The sign of a double is printed apart. -/
theorem isDouble_abs {q : Rat} (h : nearestDouble q = .finite q) : nearestDouble |q| = .finite |q| := by
  by_cases hq : q = 0
  · rw [hq, abs_zero]
    rfl
  · unfold nearestDouble at h ⊢
    simp only [if_neg hq, if_neg (abs_ne_zero.mpr hq), abs_abs] at h ⊢
    generalize (roundHalfEven (|q| / 2 ^ max (floorLog2 |q| - 52) (-1074)) : Rat) *
      2 ^ max (floorLog2 |q| - 52) (-1074) = v at h ⊢
    split at h
    · cases h
    · rename_i hlt
      rw [if_neg hlt, if_neg (not_lt.mpr (abs_nonneg q))]
      have hv := JsNumber.finite.inj h
      split at hv
      · rename_i hneg
        rw [abs_of_neg hneg, ← hv, neg_neg]
      · rename_i hpos
        rw [abs_of_nonneg (not_lt.mp hpos), hv]

end Conductor.Js.Doubles
