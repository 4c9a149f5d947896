import Mathlib.Data.List.DropRight
import Conductor.Lib.Regex

/-! # JavaScript strings

A string is a list of UTF-16 code units; unpaired surrogates are values like
any other. The operations are the ones the standard library documents, on
units and not on characters. -/
namespace Conductor.Js.Text

abbrev JsString := List UInt16

/-- The units of a code point. -/
def encodeCodePoint (c : Nat) : JsString :=
  if c < 0x10000 then [UInt16.ofNat c]
  else [UInt16.ofNat (0xD800 + (c - 0x10000) / 0x400), UInt16.ofNat (0xDC00 + (c - 0x10000) % 0x400)]

/-- A source literal. -/
def js (s : String) : JsString := s.toList.flatMap fun c => encodeCodePoint c.toNat

def isHighSurrogate (u : UInt16) : Bool := 0xD800 ≤ u && u ≤ 0xDBFF
def isLowSurrogate (u : UInt16) : Bool := 0xDC00 ≤ u && u ≤ 0xDFFF

/-- The code point of a surrogate pair. -/
def pairCodePoint (hi lo : UInt16) : Nat :=
  0x10000 + (hi.toNat - 0xD800) * 0x400 + (lo.toNat - 0xDC00)

/-- `WhiteSpace` and `LineTerminator`, what `trim` strips. -/
def isWhiteSpace (u : UInt16) : Bool :=
  (9 ≤ u && u ≤ 13) || u == 0x20 || u == 0xA0 || u == 0x1680 || (0x2000 ≤ u && u ≤ 0x200A) ||
    u == 0x2028 || u == 0x2029 || u == 0x202F || u == 0x205F || u == 0x3000 || u == 0xFEFF

def isDigit (u : UInt16) : Bool := 0x30 ≤ u && u ≤ 0x39

/-- `\w`, the class behind `\b` when neither `i` nor `u` is set. -/
def isWordChar (u : UInt16) : Bool :=
  isDigit u || (0x41 ≤ u && u ≤ 0x5A) || (0x61 ≤ u && u ≤ 0x7A) || u == 0x5F

/-- `\b`. -/
def wordBound : Lib.Regex.Pattern UInt16 := .bound isWordChar

/-- `.` without the `s` flag. -/
def isDot (u : UInt16) : Bool := !(u == 10 || u == 13 || u == 0x2028 || u == 0x2029)

def trimStart (s : JsString) : JsString := s.dropWhile isWhiteSpace
def trimEnd (s : JsString) : JsString := s.rdropWhile isWhiteSpace
def trim (s : JsString) : JsString := trimEnd (trimStart s)

/-- `s.split("\n")`. -/
def lines (s : JsString) : List JsString := s.splitOn 10

/-- `String(n)` of an integer below 10^21. -/
def ofInt (n : Int) : JsString := js (toString n)

theorem js_append (s t : String) : js (s ++ t) = js s ++ js t := by
  simp [js]

theorem lines_of_not_mem {s : JsString} (h : 10 ∉ s) : lines s = [s] := List.splitOn_eq_singleton h

theorem lines_cons {s t : JsString} (h : 10 ∉ s) : lines (s ++ 10 :: t) = s :: lines t :=
  List.splitOn_append_cons_self_of_not_mem h t

theorem length_encodeCodePoint (c : Nat) : (encodeCodePoint c).length ≤ 2 := by
  unfold encodeCodePoint
  split_ifs <;> simp

/-- Each newline ends a line. -/
theorem length_lines (s : JsString) : (lines s).length ≤ s.length + 1 := by
  unfold lines
  induction s with
  | nil => simp
  | cons u s ih =>
    rw [List.splitOn_cons_eq_if_modifyHead]
    split
    · simpa using ih
    · rw [List.length_modifyHead, List.length_cons]
      omega

theorem isWhiteSpace_of_isDigit {u : UInt16} (h : isDigit u = true) : isWhiteSpace u = false := by
  simp only [isDigit, Bool.and_eq_true, decide_eq_true_eq, UInt16.le_iff_toNat_le,
    UInt16.reduceToNat] at h
  simp only [isWhiteSpace, Bool.or_eq_false_iff, Bool.and_eq_false_iff, decide_eq_false_iff_not,
    beq_eq_false_iff_ne, UInt16.le_iff_toNat_le, ne_eq, ← UInt16.toNat_inj, UInt16.reduceToNat]
  omega

theorem trim_eq_nil_iff (s : JsString) : trim s = [] ↔ ∀ u ∈ s, isWhiteSpace u = true := by
  unfold trim trimEnd trimStart
  rw [List.rdropWhile_eq_nil_iff]
  constructor
  · intro h
    have hnil : s.dropWhile isWhiteSpace = [] := by
      by_contra hne
      have hhead := List.head_dropWhile_not isWhiteSpace hne
      rw [h _ (List.head_mem hne)] at hhead
      cases hhead
    exact List.dropWhile_eq_nil_iff.mp hnil
  · intro h u hu
    exact h u (List.dropWhile_subset _ hu)

/-- `trim` takes white space from the two ends. -/
theorem trim_split (s : JsString) : ∃ w w', s = w ++ (trim s ++ w') ∧
    (∀ u ∈ w, isWhiteSpace u = true) ∧ ∀ u ∈ w', isWhiteSpace u = true := by
  refine ⟨s.takeWhile isWhiteSpace, (trimStart s).rtakeWhile isWhiteSpace, ?_,
    fun u hu => List.mem_takeWhile_imp hu, fun u hu => List.mem_rtakeWhile_imp hu⟩
  have hend : trim s ++ (trimStart s).rtakeWhile isWhiteSpace = trimStart s :=
    List.rdropWhile_append_rtakeWhile
  rw [hend]
  exact List.takeWhile_append_dropWhile.symm

/-- It stops at other units. -/
theorem trim_padded {w s w' : JsString} (hw : ∀ u ∈ w, isWhiteSpace u = true)
    (hw' : ∀ u ∈ w', isWhiteSpace u = true) (hhead : ∀ u, s.head? = some u → isWhiteSpace u = false)
    (hlast : ∀ u, s.getLast? = some u → isWhiteSpace u = false) : trim (w ++ (s ++ w')) = s := by
  have hstart : trimStart (w ++ (s ++ w')) = s ++ (if s = [] then [] else w') := by
    unfold trimStart
    rw [List.dropWhile_append_of_pos hw]
    cases s with
    | nil => simpa using hw'
    | cons u s => simp [hhead u rfl]
  have hspace : ∀ u ∈ (if s = [] then [] else w').reverse, isWhiteSpace u = true := by
    intro u hu
    split at hu
    · cases hu
    · exact hw' u (List.mem_reverse.mp hu)
  unfold trim trimEnd
  rw [hstart, List.rdropWhile, List.reverse_append, List.dropWhile_append_of_pos hspace,
    ← List.rdropWhile, List.rdropWhile_eq_self_iff]
  intro hne
  rw [hlast _ (List.getLast?_eq_some_getLast hne)]
  exact Bool.false_ne_true

theorem pairCodePoint_lt {hi lo : UInt16} (hhi : isHighSurrogate hi = true)
    (hlo : isLowSurrogate lo = true) :
    0x10000 ≤ pairCodePoint hi lo ∧ pairCodePoint hi lo < 0x110000 := by
  simp only [isHighSurrogate, isLowSurrogate, Bool.and_eq_true, decide_eq_true_eq,
    UInt16.le_iff_toNat_le, UInt16.reduceToNat] at hhi hlo
  unfold pairCodePoint
  omega

end Conductor.Js.Text
