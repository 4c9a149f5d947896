import Conductor.Discovery.Providers
import Conductor.Sessions.Lock
import Conductor.Tmux.Audit
import Conductor.Tmux.TmuxMap

/-! # The world an inject runs in, and what it does to it -/
namespace Conductor.Tmux.Effects
open Conductor.Js.Text Conductor.Js.Values Conductor.Sessions.Types Conductor.Sessions.Lock
open Conductor.Discovery.Providers Conductor.Tmux.TmuxMap

/-- Everything an inject reads. It holds still while one request is served. -/
structure World where
  host : Host
  fs : Fs
  tmux : TmuxHost
  /-- The message with which `tmux send-keys` fails, if it does. -/
  sendFailure : Option JsString
  /-- `Date.now()`. -/
  now : Int

inductive Effect
  /-- `tmux` is executed with these arguments, whether it succeeds or not. -/
  | sendKeys (args : List JsString)
  | appendAudit (i : Audit.Inject)
  | stdout (text : JsString)
  | stderr (text : JsString)
  /-- The value goes to standard output as indented JSON. -/
  | renderJson (v : Json)

def Effect.isSend : Effect → Bool
  | .sendKeys _ => true
  | _ => false

/-- The effects in order, and the value or the exception at the end. -/
structure Outcome (α : Type) where
  effects : List Effect
  result : Except JsError α

/-- `tmux send-keys` is executed. -/
def Outcome.sends {α : Type} (o : Outcome α) : Bool := o.effects.any Effect.isSend

def refuse {α : Type} (message : JsString) : Outcome α := ⟨[], .error (.error message)⟩

/-- The first other session whose cwd conflicts with the one of `me`. -/
def collision (fs : Fs) (sessions : List LocalSession) (me : LocalSession) : Option LocalSession :=
  sessions.find? fun other => other.pid != me.pid && detectConflict fs me.cwd other.cwd

theorem collision_none {fs : Fs} {sessions : List LocalSession} {me : LocalSession}
    (h : collision fs sessions me = none) {other : LocalSession} (ho : other ∈ sessions)
    (hne : other.pid ≠ me.pid) : detectConflict fs me.cwd other.cwd = false := by
  have hno := List.find?_eq_none.mp h other ho
  simpa [hne] using hno

end Conductor.Tmux.Effects
