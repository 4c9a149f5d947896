import Mathlib.Data.Rat.Floor
import Conductor.Js.Text

/-! # JavaScript numbers

Doubles by value: the finite ones are the rationals they stand for. The sign
of zero is not kept; nothing in the program can tell the two zeros apart. -/
namespace Conductor.Js.Number
open Conductor.Js.Text

inductive JsNumber where
  | nan
  | infinity (negative : Bool)
  | finite (q : Rat)
  deriving DecidableEq

/-- `Number.isFinite`, with the value. -/
def JsNumber.toRat? : JsNumber → Option Rat
  | .finite q => some q
  | _ => none

def ofInt (n : Int) : JsNumber := .finite n

/-- The exponent `e` with `2^e ≤ q < 2^(e+1)`, for `0 < q`. -/
def floorLog2 (q : Rat) : Int :=
  let e : Int := (Nat.log2 q.num.natAbs : Int) - (Nat.log2 q.den : Int)
  if q < (2 : Rat) ^ e then e - 1 else e

/-- The nearest integer, ties to even. -/
def roundHalfEven (q : Rat) : Int :=
  let f := q.floor
  let d := q - f
  if d < 1 / 2 then f
  else if 1 / 2 < d then f + 1
  else if f % 2 = 0 then f else f + 1

/-- The double nearest to a rational: 53 significant bits, the least exponent
-1074, infinite from the midpoint past the largest double on. -/
def nearestDouble (q : Rat) : JsNumber :=
  if q = 0 then .finite 0
  else
    let ulp := max (floorLog2 |q| - 52) (-1074)
    let v := roundHalfEven (|q| / (2 : Rat) ^ ulp) * (2 : Rat) ^ ulp
    if (2 : Rat) ^ (1024 : Nat) ≤ v then .infinity (decide (q < 0))
    else .finite (if q < 0 then -v else v)

/-- The value of a digit run. -/
def digitsValue (ds : JsString) : Nat := ds.foldl (fun n d => 10 * n + (d.toNat - 0x30)) 0

/-- The value of a decimal literal, before rounding. -/
def decimalValue (negative : Bool) (whole fraction : JsString) (exponent : Int) : Rat :=
  let m : Rat := digitsValue (whole ++ fraction) * (10 : Rat) ^ (exponent - fraction.length)
  if negative then -m else m

/-! ## `Number::toString` -/

/-- The number `n` of `Number::toString`: `10^(n-1) ≤ q < 10^n`, for `0 < q`. -/
def decimalPoint (q : Rat) : Int :=
  let guess : Int := (floorLog2 q * 30103) / 100000
  if q < (10 : Rat) ^ guess then guess
  else if q < (10 : Rat) ^ (guess + 1) then guess + 1 else guess + 2

/-- The `k`-digit decimal closest to `q` among those that read back as `q`:
its digits and the position of the point. -/
def digitsOf (q : Rat) (n : Int) (k : Nat) : Option (Nat × Int) :=
  let scaled := q * (10 : Rat) ^ ((k : Int) - n)
  let reads := fun s : Nat => decide (nearestDouble (s * (10 : Rat) ^ (n - (k : Int))) = .finite q)
  let below := scaled.floor.toNat
  if reads below && (scaled - below < 1 / 2 || !reads (below + 1)) then some (below, n)
  else if reads (below + 1) then
    some (if below + 1 = 10 ^ k then (10 ^ (k - 1), n + 1) else (below + 1, n))
  else none

/-- The fewest digits that read back, searched from `k` on. -/
def shortestFrom (q : Rat) (n : Int) : Nat → Nat → Nat × Nat × Int
  | 0, k => (0, k, n)
  | fuel + 1, k => match digitsOf q n k with
    | some (s, n') => (s, k, n')
    | none => shortestFrom q n fuel (k + 1)

def zeros (n : Nat) : JsString := List.replicate n 0x30

/-- The layout of `k` digits `s` with the point after position `n`. -/
def layout (s : Nat) (k : Nat) (n : Int) : JsString :=
  let ds := js (toString s)
  if (k : Int) ≤ n ∧ n ≤ 21 then ds ++ zeros (n - k).toNat
  else if 0 < n ∧ n ≤ 21 then ds.take n.toNat ++ js "." ++ ds.drop n.toNat
  else if -6 < n ∧ n ≤ 0 then js "0." ++ zeros (-n).toNat ++ ds
  else
    let e := n - 1
    let mantissa := if k = 1 then ds else ds.take 1 ++ js "." ++ ds.drop 1
    mantissa ++ js (if e < 0 then "e-" else "e+") ++ js (toString e.natAbs)

def JsNumber.toJsString : JsNumber → JsString
  | .nan => js "NaN"
  | .infinity negative => js (if negative then "-Infinity" else "Infinity")
  | .finite q =>
    if q = 0 then js "0"
    else
      -- 17 digits identify a double
      let (s, k, n) := shortestFrom |q| (decimalPoint |q|) 17 1
      (if q < 0 then js "-" else []) ++ layout s k n

end Conductor.Js.Number
