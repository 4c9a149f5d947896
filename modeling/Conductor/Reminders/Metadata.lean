import Conductor.Js.JsonText
import Conductor.Reminders.Poll

/-! # The metadata line of a todo

The line `pid:<digits> repo:<word> phase:<plan|exec|review>` somewhere in the
notes. Each part of the pattern ends where a unit of another kind begins, so that
its only backtracking is in the trailing white space. -/
namespace Conductor.Reminders.Metadata
open Conductor.Js Conductor.Js.Text Conductor.Js.Number Conductor.Reminders.Poll
open Conductor.Js.JsonText (expect)

def phaseText : TodoPhase → JsString
  | .plan => js "plan"
  | .exec => js "exec"
  | .review => js "review"

/-- The longest non-empty run of units of a kind, and the rest. -/
def run? (kind : UInt16 → Bool) (s : JsString) : Option (JsString × JsString) :=
  let run := s.takeWhile kind
  if run = [] then none else some (run, s.dropWhile kind)

/-- `(plan|exec|review)`. -/
def phase? (s : JsString) : Option (TodoPhase × JsString) :=
  [TodoPhase.plan, .exec, .review].findSome? fun phase =>
    (expect (phaseText phase) s).map fun rest => (phase, rest)

/-- `\s*$` under the `m` flag: white space up to the end of a line. -/
def endsLine (s : JsString) : Bool :=
  (s.takeWhile isWhiteSpace).any (fun u => !isDot u) || (s.dropWhile isWhiteSpace).isEmpty

/-- The pattern at the beginning of a line. -/
def metaAt (s : JsString) : Option TodoMetadata := do
  let s ← expect (js "pid:") s
  let (pid, s) ← run? isDigit s
  let (_, s) ← run? isWhiteSpace s
  let s ← expect (js "repo:") s
  let (repo, s) ← run? (fun u => !isWhiteSpace u) s
  let (_, s) ← run? isWhiteSpace s
  let s ← expect (js "phase:") s
  let (phase, s) ← phase? s
  if endsLine s then
    some ⟨some (nearestDouble (digitsValue pid)), some repo, some phase⟩
  else none

/-- `notes.match(META_LINE)`, from a position that may be the beginning of a line. -/
def matchMetaLine : Bool → JsString → Option TodoMetadata
  | lineStart, [] => if lineStart then metaAt [] else none
  | lineStart, u :: s =>
    (if lineStart then metaAt (u :: s) else none).or (matchMetaLine (!isDot u) s)

def parseTodoMetadata (notes : JsString) : TodoMetadata :=
  (matchMetaLine true notes).getD ⟨none, none, none⟩

def formatTodoMetadata (pid : JsNumber) (repo : JsString) (phase : TodoPhase) : JsString :=
  js "pid:" ++ pid.toJsString ++ js " repo:" ++ repo ++ js " phase:" ++ phaseText phase

example : parseTodoMetadata (js "Call back\n\npid:007 repo:x/y:z phase:review ") =
    ⟨some (.finite 7), some (js "x/y:z"), some .review⟩ := by decide +kernel

end Conductor.Reminders.Metadata
