import Conductor.Sessions.Types

/-! # From pids to tmux panes -/
namespace Conductor.Tmux.TmuxMap
open Conductor.Js.Text Conductor.Sessions.Types

structure PaneRow where
  pid : Int
  session : JsString
  pane : JsString
  windowIndex : Int
  active : Bool
  deriving DecidableEq

structure Pane where
  session : JsString
  pane : JsString
  deriving DecidableEq

/-- What is read from tmux and `ps`: the rows of `listAllPanes`, and the parent
that `ps -o ppid=` prints for a pid (`none` when it fails or prints no number;
both end the walk without a pane). -/
structure TmuxHost where
  panes : List PaneRow
  ppid : Int → Option Int

/-- The walk up the parents, at most `fuel` levels. -/
def walkParents (panes : List PaneRow) (ppid : Int → Option Int) : Nat → Int → Option Pane
  | 0, _ => none
  | fuel + 1, cur =>
    if cur ≤ 1 then none
    else match panes.find? fun p => p.pid == cur with
      | some hit => some ⟨hit.session, hit.pane⟩
      | none => match ppid cur with
        | none => none
        | some parent =>
          if parent = 0 ∨ parent = cur then none else walkParents panes ppid fuel parent

/-- The rows that a cached map stands for. -/
def cachedRows (cached : PidMap Pane) : List PaneRow :=
  cached.entries.map fun e =>
    { pid := e.1, session := e.2.session, pane := e.2.pane, windowIndex := 0, active := false }

def findPaneForPid (t : TmuxHost) (targetPid : Int) (cachedPanes : Option (PidMap Pane)) : Option Pane :=
  let panes := match cachedPanes with
    | some cached => cachedRows cached
    | none => t.panes
  if panes.isEmpty then none else walkParents panes t.ppid 50 targetPid

/-- The same for a number that need not be a whole one: no pane and no process
has a fractional pid. -/
def findPaneForNumber (t : TmuxHost) (pid : Rat) : Option Pane :=
  if pid.den = 1 then findPaneForPid t pid.num none else none

/-- The arguments of the one `tmux send-keys` invocation. -/
def sendKeys (paneId text : JsString) : List JsString :=
  [js "send-keys", js "-t", paneId, js "--"] ++ (lines text).flatMap fun line => [line, js "Enter"]

end Conductor.Tmux.TmuxMap
