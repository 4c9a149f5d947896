import Conductor.Js.Text

/-! # The cwd lock: when two directories conflict

`realpath` and the presence of a `.git` entry are what the check reads from
the file system. -/
namespace Conductor.Sessions.Lock
open Conductor.Js.Text

structure Fs where
  /-- `fs.realpath`, `none` when it rejects. -/
  realpath : JsString → Option JsString
  /-- Whether `fs.stat` of the path resolves. -/
  stat : JsString → Bool

/-- `path.dirname` of a POSIX path. -/
def dirname (path : JsString) : JsString :=
  if path = [] then js "."
  else
    -- the walk from the end leaves the first unit out
    match (path.tail.reverse.dropWhile (· == 0x2F)).dropWhile (· != 0x2F) with
    | [] => if path.head? = some 0x2F then js "/" else js "."
    | _ :: before =>
      if path.head? = some 0x2F ∧ before = [] then js "//" else path.take (before.length + 1)

/-- The walk up from a canonical path, at most `fuel` directories. -/
def walkUp (fs : Fs) : Nat → JsString → Option JsString
  | 0, _ => none
  | fuel + 1, cur =>
    if cur = js "/" ∨ cur = [] then none
    else if fs.stat (cur ++ js "/.git") then some cur
    else if dirname cur = cur then none
    else walkUp fs fuel (dirname cur)

/-- A path has no more ancestors than units, and `.` may come last. -/
def findGitRoot (fs : Fs) (p : JsString) : Option JsString := do
  let cur ← fs.realpath p
  walkUp fs (cur.length + 1) cur

def detectConflict (fs : Fs) (a b : JsString) : Bool :=
  match fs.realpath a, fs.realpath b with
  | some ra, some rb =>
    if ra = rb then true
    else if (rb ++ js "/").isPrefixOf ra || (ra ++ js "/").isPrefixOf rb then
      match findGitRoot fs ra, findGitRoot fs rb with
      | some ga, some gb => decide (ga = gb)
      | _, _ => true
    else false
  | _, _ => false

/-- Two sessions in conflict are so in either order. -/
theorem detectConflict_comm (fs : Fs) (a b : JsString) :
    detectConflict fs a b = detectConflict fs b a := by
  unfold detectConflict
  cases ha : fs.realpath a with
  | none =>
    cases fs.realpath b with
    | none => rfl
    | some rb => rfl
  | some ra =>
    cases hb : fs.realpath b with
    | none => rfl
    | some rb =>
      simp only
      by_cases hab : ra = rb
      · rw [if_pos hab, if_pos hab.symm]
      · rw [if_neg hab, if_neg (Ne.symm hab), Bool.or_comm]
        cases findGitRoot fs ra with
        | none =>
          cases findGitRoot fs rb with
          | none => rfl
          | some gb => rfl
        | some ga =>
          cases findGitRoot fs rb with
          | none => rfl
          | some gb => simp only [eq_comm]

end Conductor.Sessions.Lock
