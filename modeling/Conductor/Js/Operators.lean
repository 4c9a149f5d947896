import Mathlib.Data.List.Sort
import Conductor.Js.JsonText

/-! # Operators on values of any kind

What `+`, `for .. of`, `Object.keys` and the test of a condition do with every
value that `JSON.parse` can return, and where they throw. -/
namespace Conductor.Js.Operators
open Conductor.Js.Text Conductor.Js.Number Conductor.Js.Values Conductor.Js.JsonText

/-- `JSON.parse`, which throws where the text is not JSON. -/
def parseOrThrow (text : JsString) : Except JsError Json :=
  match parse text with
  | some v => pure v
  | none => throw (.error (js "SyntaxError"))

/-- The value as a condition. -/
def isTruthy : Json → Bool
  | .null | .bool false | .str [] | .num .nan => false
  | .num (.finite q) => q != 0
  | _ => true

theorem not_isNull_of_isTruthy {v : Json} (h : isTruthy v = true) : isNull v = false := by
  cases v with
  | null => cases h
  | _ => rfl

/-- `v.key`, on a value that may be undefined. -/
def member : Option Json → JsString → Except JsError (Option Json)
  | some v, key => prop v key
  | none, key => throw (.typeError key)

/-! ## Iteration -/

/-- The code points of a text; a surrogate without its partner is one of its own. -/
def codePoints : JsString → List JsString
  | [] => []
  | [u] => [[u]]
  | hi :: lo :: rest =>
    if isHighSurrogate hi && isLowSurrogate lo then [hi, lo] :: codePoints rest
    else [hi] :: codePoints (lo :: rest)

/-- What `for (const x of v)` goes through. -/
def iterate : Json → Except JsError (List Json)
  | .arr xs => pure xs
  | .str s => pure ((codePoints s).map .str)
  | _ => throw (.typeError (js "Symbol.iterator"))

/-- The number that an array index spells. -/
def arrayIndex? (key : JsString) : Option Nat :=
  let n := digitsValue key
  if key = js (toString n) ∧ n < 2 ^ 32 - 1 then some n else none

def indices (n : Nat) : List JsString := (List.range n).map fun i => js (toString i)

/-- `Object.keys(v)`: the array indices come first, in their order. -/
def objectKeys : Json → Except JsError (List JsString)
  | .null => throw (.typeError (js "Object.keys"))
  | .obj members =>
    let keys := members.map (·.1)
    pure (((keys.filter fun k => (arrayIndex? k).isSome).insertionSort
      fun k l => (arrayIndex? k).getD 0 ≤ (arrayIndex? l).getD 0) ++
        keys.filter fun k => (arrayIndex? k).isNone)
  | .arr xs => pure (indices xs.length)
  | .str s => pure (indices s.length)
  | _ => pure []

/-! ## Addition -/

/-- The sum of two numbers. -/
def add : JsNumber → JsNumber → JsNumber
  | .finite a, .finite b => nearestDouble (a + b)
  | .infinity a, .infinity b => if a = b then .infinity a else .nan
  | .infinity a, .finite _ | .finite _, .infinity a => .infinity a
  | .nan, _ | _, .nan => .nan

mutual

/-- `String(v)`. An own member hides the method that makes a text of an object,
and is no function. -/
def toText : Json → Except JsError JsString
  | .null => pure (js "null")
  | .bool b => pure (js (if b then "true" else "false"))
  | .num n => pure n.toJsString
  | .str s => pure s
  | .arr xs => return commas (← elementTexts xs)
  | .obj members =>
    if (members.lookup (js "toString")).isSome then throw (.typeError (js "toString"))
    else pure (js "[object Object]")

/-- What `join` puts between its commas. -/
def elementTexts : List Json → Except JsError (List JsString)
  | [] => pure []
  | .null :: xs => return [] :: (← elementTexts xs)
  | x :: xs => return (← toText x) :: (← elementTexts xs)

end

/-- Objects become texts before they are added. -/
def toPrimitive : Json → Except JsError Json
  | .arr xs => return .str (← toText (.arr xs))
  | .obj members => return .str (← toText (.obj members))
  | v => pure v

/-- `Number(v)` of a value that is neither a text nor an object. -/
def numberOf : Json → JsNumber
  | .num n => n
  | .bool true => .finite 1
  | _ => .finite 0

/-- What an addition gives. -/
inductive Added where
  | num (n : JsNumber)
  | str (s : JsString)
  deriving DecidableEq

def Added.value : Added → Json
  | .num n => .num n
  | .str s => .str s

def Added.isNumber : Added → Bool
  | .num _ => true
  | .str _ => false

/-- `a + b`: one text makes both texts. -/
def plus (a b : Json) : Except JsError Added := do
  let a ← toPrimitive a
  let b ← toPrimitive b
  match a, b with
  | .str s, b => return .str (s ++ (← toText b))
  | a, .str t => return .str ((← toText a) ++ t)
  | a, b => return .num (add (numberOf a) (numberOf b))

/-- Absent, `null`, a number, or one of the two values that are added as numbers. -/
def isCount : Option Json → Bool
  | none | some .null | some (.bool _) | some (.num _) => true
  | _ => false

theorem plus_added (a b : Added) : ∃ c, plus a.value b.value = .ok c ∧
    c.isNumber = (a.isNumber && b.isNumber) := by
  cases a <;> cases b <;> exact ⟨_, rfl, rfl⟩

/-- A text in an addition leaves no number. -/
theorem plus_text {a b p q : Json} {c : Added} (ha : toPrimitive a = .ok p) (hb : toPrimitive b = .ok q)
    (htext : (∃ s, p = .str s) ∨ ∃ s, q = .str s) (h : plus a b = .ok c) : c.isNumber = false := by
  unfold plus at h
  rw [ha, hb] at h
  simp only [bind, Except.bind] at h
  split at h
  · cases ht : toText q with
    | error e => rw [ht] at h; cases h
    | ok t => rw [ht] at h; cases h; rfl
  · cases ht : toText p with
    | error e => rw [ht] at h; cases h
    | ok t => rw [ht] at h; cases h; rfl
  · rename_i hp hq
    rcases htext with ⟨s, rfl⟩ | ⟨s, rfl⟩
    · exact absurd rfl (hp s)
    · exact absurd rfl (hq s)

theorem toPrimitive_of_not_isCount {v : Option Json} {q : Json} (hv : isCount v = false)
    (h : toPrimitive (orElse v (.num (.finite 0))) = .ok q) : ∃ s, q = .str s := by
  cases v with
  | none => cases hv
  | some v =>
    cases v with
    | str s => cases h; exact ⟨s, rfl⟩
    | arr xs =>
      simp only [orElse, toPrimitive, bind, Except.bind] at h
      split at h
      · cases h
      · cases h; exact ⟨_, rfl⟩
    | obj members =>
      simp only [orElse, toPrimitive, bind, Except.bind] at h
      split at h
      · cases h
      · cases h; exact ⟨_, rfl⟩
    | _ => cases hv

/-- A sum stays a number exactly when what is added to it counts. -/
theorem plus_isNumber_iff (a : Added) (v : Option Json) :
    (∃ c, plus a.value (orElse v (.num (.finite 0))) = .ok c ∧ c.isNumber = true) ↔
      a.isNumber = true ∧ isCount v = true := by
  have ha : toPrimitive a.value = .ok a.value := by cases a <;> rfl
  constructor
  · rintro ⟨c, hc, hnum⟩
    obtain ⟨q, hq⟩ : ∃ q, toPrimitive (orElse v (.num (.finite 0))) = .ok q := by
      cases hq : toPrimitive (orElse v (.num (.finite 0))) with
      | ok q => exact ⟨q, rfl⟩
      | error e =>
        unfold plus at hc
        rw [ha, hq] at hc
        cases hc
    by_contra hneither
    have htext : (∃ s, a.value = .str s) ∨ ∃ s, q = .str s := by
      cases a with
      | str s => exact Or.inl ⟨s, rfl⟩
      | num n =>
        refine Or.inr (toPrimitive_of_not_isCount ?_ hq)
        simpa using fun hv => hneither ⟨rfl, hv⟩
    rw [plus_text ha hq htext hc] at hnum
    cases hnum
  · rintro ⟨hnum, hv⟩
    cases a with
    | str s => cases hnum
    | num n =>
      cases v with
      | none => exact ⟨_, rfl, rfl⟩
      | some v => cases v <;> first | exact ⟨_, rfl, rfl⟩ | cases hv

end Conductor.Js.Operators
