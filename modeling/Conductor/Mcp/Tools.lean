import Conductor.Tmux.Effects

/-! # The MCP `inject` tool

The arguments are whatever JSON value the request carries; a value of the wrong
type counts as missing. -/
namespace Conductor.Mcp.Tools
open Conductor.Js Conductor.Js.Text Conductor.Js.Number Conductor.Js.Values Conductor.Sessions.Types
open Conductor.Sessions.Lock Conductor.Discovery.Providers Conductor.Tmux.TmuxMap
open Conductor.Tmux.Effects

def stringArg (args : Json) (key : JsString) : Option JsString :=
  match optProp (some args) key with
  | some (.str s) => some s
  | _ => none

/-- The value of a finite number. -/
def numberArg (args : Json) (key : JsString) : Option Rat :=
  match optProp (some args) key with
  | some (.num n) => n.toRat?
  | _ => none

def boolArg (args : Json) (key : JsString) : Option Bool :=
  match optProp (some args) key with
  | some (.bool b) => some b
  | _ => none

structure InjectArgs where
  pid : Rat
  text : JsString
  force : Bool
  dryRun : Bool
  source : AuditSource
  deriving DecidableEq

/-- The checks at the head of the handler, in its order. -/
def readInjectArgs (args : Json) : Except JsError InjectArgs :=
  match numberArg args (js "pid") with
  | none => throw (.error (js "missing required arg: pid (number)"))
  | some pid =>
    match stringArg args (js "text") with
    | none => throw (.error (js "missing required arg: text (string)"))
    | some text =>
      if boolArg args (js "approve") ≠ some true then
        throw (.error (js "missing required arg: approve === true (explicit safety gate)"))
      else
        let sourceRaw := stringArg args (js "source")
        pure { pid, text
               force := (boolArg args (js "force")).getD false
               dryRun := (boolArg args (js "dryRun")).getD false
               source := if sourceRaw = some (js "user-approved") then .userApproved
                         else if sourceRaw = some (js "auto") then .auto else .skill }

/-- The session that the handler takes for the target. -/
def targetSession (w : World) (pid : Rat) : Option LocalSession :=
  (claudeCodeDiscover w.host).find? fun s => (s.pid : Rat) == pid

/-- The target and the session that an inject is refused for. -/
def lockConflict (w : World) (force : Bool) (me : Option LocalSession) :
    Option (LocalSession × LocalSession) :=
  if force then none
  else me.bind fun m => (collision w.fs (claudeCodeDiscover w.host) m).map fun other => (m, other)

def repoSlugOf (me : Option LocalSession) : JsString := (me.map (·.repoName)).getD (js "unknown")

/-- The members that every answer starts with. -/
def answerHead (pid : Rat) (pane : Pane) (repoSlug : JsString) : List (JsString × Json) :=
  [(js "ok", .bool true), (js "pid", .num (.finite pid)), (js "pane", .str pane.pane),
   (js "session", .str pane.session), (js "repo", .str repoSlug)]

def injectWith (w : World) (a : InjectArgs) : Outcome Json :=
  let pidText := (JsNumber.finite a.pid).toJsString
  match findPaneForNumber w.tmux a.pid with
  | none => refuse (js "precondition: pid " ++ pidText ++
      js " is not running under tmux (bare TTY sessions are read-only)")
  | some pane =>
    let me := targetSession w a.pid
    let repoSlug := repoSlugOf me
    match lockConflict w a.force me with
    | some (m, other) => refuse (js "precondition: cwd_collision with pid " ++ Text.ofInt other.pid ++
        js " on path " ++ m.cwd ++ js " (use force:true to bypass)")
    | none =>
      if a.dryRun then
        ⟨[], .ok (.obj (answerHead a.pid pane repoSlug ++ [(js "dryRun", .bool true)]))⟩
      else
        let send := Effect.sendKeys (sendKeys pane.pane a.text)
        match w.sendFailure with
        | some message => ⟨[send], .error (.error message)⟩
        | none =>
          let entry : AuditEntry :=
            { ts := .finite w.now, pid := .finite a.pid, repo := repoSlug, action := .inject,
              text := some a.text, source := a.source, confidence := none, reason := none }
          let audit := Json.obj [(js "ts", .num entry.ts), (js "pid", .num entry.pid),
            (js "repo", .str repoSlug), (js "action", .str (js "inject")), (js "text", .str a.text),
            (js "source", .str (Tmux.Audit.sourceText a.source))]
          ⟨[send, .appendAudit ⟨.injectTool, entry⟩],
            .ok (.obj (answerHead a.pid pane repoSlug ++
              [(js "dryRun", .bool false), (js "audit", audit)]))⟩

/-- The handler of the tool. -/
def injectTool (w : World) (args : Json) : Outcome Json :=
  match readInjectArgs args with
  | .error e => ⟨[], .error e⟩
  | .ok a => injectWith w a

/-! ## What passes the lock -/

/-- No Claude Code session other than the target has a conflicting cwd. -/
def LockFree (w : World) (pid : Int) : Prop :=
  ∀ other ∈ claudeCodeDiscover w.host, other.pid ≠ pid →
    detectConflict w.fs (sessionCwd w.host pid) other.cwd = false

theorem claudeCode_cwd {h : Host} {s : LocalSession} (hs : s ∈ claudeCodeDiscover h) :
    s.cwd = sessionCwd h s.pid := (mem_discoverBy hs).2

/-- A pid that discovery reports is found as the target. -/
theorem targetSession_of_mem {w : World} {s : LocalSession} (hs : s ∈ claudeCodeDiscover w.host) :
    ∃ m ∈ claudeCodeDiscover w.host, targetSession w s.pid = some m ∧ m.pid = s.pid := by
  have hsome : (targetSession w s.pid).isSome = true :=
    List.find?_isSome.mpr ⟨s, hs, by simp⟩
  obtain ⟨m, hm⟩ := Option.isSome_iff_exists.mp hsome
  have hpid : ((m.pid : Rat) == (s.pid : Rat)) = true := by
    have hfound := List.find?_some hm
    exact hfound
  refine ⟨m, List.mem_of_find?_eq_some hm, hm, ?_⟩
  have heq : (m.pid : Rat) = (s.pid : Rat) := by simpa using hpid
  exact_mod_cast heq

theorem lockFree_of_lockConflict {w : World} {s : LocalSession}
    (hs : s ∈ claudeCodeDiscover w.host)
    (h : lockConflict w false (targetSession w s.pid) = none) : LockFree w s.pid := by
  obtain ⟨m, hm, htarget, hpid⟩ := targetSession_of_mem hs
  simp only [lockConflict, htarget, Bool.false_eq_true, if_false, Option.bind_some,
    Option.map_eq_none_iff] at h
  intro other ho hne
  rw [← hpid, ← claudeCode_cwd hm]
  exact collision_none h ho (by rw [hpid]; exact hne)

theorem injectWith_sends {w : World} {a : InjectArgs} (h : (injectWith w a).sends = true) :
    lockConflict w a.force (targetSession w a.pid) = none := by
  unfold injectWith at h
  split at h
  · cases h
  · simp only at h
    split at h
    · cases h
    · assumption

end Conductor.Mcp.Tools
