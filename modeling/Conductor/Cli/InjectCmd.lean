import Conductor.Mcp.Tools

/-! # `agent-conductor inject` and the cwd lock

The command and the tool are two copies of one sequence: find the pane, ask for
a conflict, send, write the audit entry. The lock is asked only about a target
that discovery reports as a Claude Code session, and only Claude Code sessions
count as others. -/
namespace Conductor.Cli.InjectCmd
open Conductor.Js Conductor.Js.Text Conductor.Js.Number Conductor.Js.Values Conductor.Sessions.Types
open Conductor.Sessions.Lock Conductor.Discovery.Providers Conductor.Tmux.TmuxMap Conductor.Tmux.Effects
open Conductor.Mcp.Tools

/-- What `flagBool`, `flagInt` and `flagString` return for the flags. -/
structure InjectFlags where
  help : Bool
  pid : Option Int
  text : Option JsString
  source : Option JsString
  force : Bool
  dryRun : Bool
  json : Bool
  deriving DecidableEq

def HELP : JsString := js "Usage: agent-conductor inject --pid <N> --text <string> [flags]

Send keystrokes to the tmux pane owning <pid>. Refuses if the pid isn't
under tmux. Refuses with cwd-collision unless --force is set.

Required:
  --pid <N>           Target session pid
  --text <string>     What to type (Enter is appended automatically)

Optional:
  --source <id>       Audit source label (default: cli)
  --force             Bypass cwd-collision conflict check
  --dry-run           Log what would be sent, no actual send-keys
  --json              JSON output
  -h, --help          Show this help

Examples:
  agent-conductor inject --pid 12345 --text y
  agent-conductor inject --pid 12345 --text \"git status\" --source ci
  agent-conductor inject --pid 12345 --text y --force      # bypass lock
"

/-- An exit code after a message on standard error. -/
def exitWith (code : Nat) (message : JsString) : Outcome Nat := ⟨[.stderr message], .ok code⟩

/-- The command after its flags have been read and found complete. -/
def injectPid (w : World) (f : InjectFlags) (pid : Int) (text : JsString) : Outcome Nat :=
  -- `findPaneForPid` catches every failure, so its own `catch` is never reached
  match findPaneForPid w.tmux pid none with
  | none => exitWith 3 (js "inject: pid " ++ (JsNumber.finite pid).toJsString ++
      js " is not running under tmux (bare TTY sessions are read-only)\n")
  | some pane =>
    let me := targetSession w pid
    match lockConflict w f.force me with
    | some (m, other) => exitWith 3 (js "inject: cwd-collision with pid " ++ Text.ofInt other.pid ++
        js " (shared path: " ++ m.cwd ++ js "). Re-run with --force to bypass.\n")
    | none =>
      let repoSlug := repoSlugOf me
      let source := f.source.getD (js "cli")
      let place := pane.session ++ js ":" ++ pane.pane ++ js " (pid " ++
        (JsNumber.finite pid).toJsString ++ js ")\n"
      if f.dryRun then
        let payload := Json.obj [(js "pid", .num (Number.ofInt pid)), (js "pane", .str pane.pane),
          (js "session", .str pane.session), (js "text", .str text), (js "source", .str source),
          (js "repo", .str repoSlug), (js "dry_run", .bool true)]
        ⟨[if f.json then .renderJson payload
          else .stdout (js "[dry-run] would inject \"" ++ text ++ js "\" → " ++ place)], .ok 0⟩
      else
        let send := Effect.sendKeys (sendKeys pane.pane text)
        match w.sendFailure with
        | some message => ⟨[send], .error (.error message)⟩
        | none =>
          let entry : AuditEntry :=
            { ts := .finite w.now, pid := .finite pid, repo := repoSlug, action := .inject,
              text := some text
              source := if source = js "auto" then .auto
                        else if source = js "skill" then .skill else .userApproved
              confidence := none, reason := none }
          let result := Json.obj [(js "pid", .num (Number.ofInt pid)), (js "pane", .str pane.pane),
            (js "session", .str pane.session), (js "sent", .str text)]
          ⟨[send, .appendAudit ⟨.injectCmd, entry⟩] ++
            (if f.json then [.renderJson result]
             else [.stdout (js "Injected \"" ++ text ++ js "\" → " ++ place),
               .stdout (js "Audit written.\n")]), .ok 0⟩

def injectCmd (w : World) (f : InjectFlags) : Outcome Nat :=
  if f.help then ⟨[.stdout HELP], .ok 0⟩
  else match f.pid, f.text with
    | some pid, some text =>
      if pid = 0 ∨ text = [] then
        ⟨[.stderr (js "inject: --pid and --text are required\n\n"), .stderr HELP], .ok 2⟩
      else injectPid w f pid text
    | _, _ => ⟨[.stderr (js "inject: --pid and --text are required\n\n"), .stderr HELP], .ok 2⟩

/-! ## The lock -/

/-- An inject request, by either way in. -/
inductive InjectRequest
  | tool (args : Json)
  | cmd (flags : InjectFlags)

/-- The pid and the force flag of a request that names a pid. -/
def InjectRequest.target : InjectRequest → Option (Rat × Bool)
  | .tool args => (numberArg args (js "pid")).map fun pid => (pid, (boolArg args (js "force")).getD false)
  | .cmd flags => flags.pid.map fun pid : Int => ((pid : Rat), flags.force)

/-- Serving the request executes `tmux send-keys`. -/
def InjectRequest.sends (w : World) : InjectRequest → Bool
  | .tool args => (injectTool w args).sends
  | .cmd flags => (injectCmd w flags).sends

theorem injectPid_sends {w : World} {f : InjectFlags} {pid : Int} {text : JsString}
    (h : (injectPid w f pid text).sends = true) :
    lockConflict w f.force (targetSession w pid) = none := by
  unfold injectPid at h
  split at h
  · cases h
  · simp only at h
    split at h
    · cases h
    · assumption

theorem injectCmd_sends {w : World} {f : InjectFlags} (h : (injectCmd w f).sends = true) :
    ∃ pid text, f.pid = some pid ∧ (injectPid w f pid text).sends = true := by
  unfold injectCmd at h
  split at h
  · cases h
  · split at h
    · rename_i pid text hpid _
      split at h
      · cases h
      · exact ⟨pid, text, hpid, h⟩
    · cases h

theorem injectTool_sends {w : World} {args : Json} (h : (injectTool w args).sends = true) :
    ∃ a, readInjectArgs args = .ok a ∧ (injectWith w a).sends = true := by
  unfold injectTool at h
  split at h
  · cases h
  · rename_i a ha
    exact ⟨a, ha, h⟩

theorem readInjectArgs_ok {args : Json} {a : InjectArgs} (h : readInjectArgs args = .ok a) :
    numberArg args (js "pid") = some a.pid ∧ a.force = (boolArg args (js "force")).getD false := by
  unfold readInjectArgs at h
  split at h
  · cases h
  · rename_i pid hpid
    split at h
    · cases h
    · split at h
      · cases h
      · cases h
        exact ⟨hpid, rfl⟩

/-- Whichever way a request comes in: keys are sent only past the lock. -/
theorem send_lockConflict {w : World} {r : InjectRequest} {pid : Rat} {force : Bool}
    (hr : r.target = some (pid, force)) (hs : r.sends w = true) :
    lockConflict w force (targetSession w pid) = none := by
  cases r with
  | tool args =>
    obtain ⟨a, ha, hsend⟩ := injectTool_sends hs
    obtain ⟨hpid, hforce⟩ := readInjectArgs_ok ha
    have hnone := injectWith_sends hsend
    simp only [InjectRequest.target, hpid, Option.map_some, Option.some.injEq, Prod.mk.injEq] at hr
    rw [hforce, hr.1, hr.2] at hnone
    exact hnone
  | cmd flags =>
    obtain ⟨pid, text, hpid, hsend⟩ := injectCmd_sends hs
    have hnone := injectPid_sends hsend
    simp only [InjectRequest.target, hpid, Option.map_some, Option.some.injEq, Prod.mk.injEq] at hr
    rw [hr.1, hr.2] at hnone
    exact hnone

/-- Keys sent without force to a Claude Code session find no other Claude Code
session in a conflicting cwd. -/
theorem unforced_send_lockFree {w : World} {r : InjectRequest} {me : LocalSession}
    (hme : me ∈ claudeCodeDiscover w.host) (hr : r.target = some ((me.pid : Rat), false))
    (hs : r.sends w = true) : LockFree w me.pid :=
  lockFree_of_lockConflict hme (send_lockConflict hr hs)

/-! ## Two processes, one with a pane -/

/-- Process 100 runs in `/w` and owns a pane; process 200 runs in the given
directory. -/
def twoProcesses (command otherCommand otherDir : JsString) : World :=
  { host := { processes := [⟨100, 1, command⟩, ⟨200, 1, otherCommand⟩]
              lsof := fun pid => some (js "fcwd\nn" ++ if pid = 100 then js "/w" else otherDir)
              processCwd := js "/", git := fun _ => none, projectsRoot := js "/home/.claude/projects"
              readdir := fun _ => none, mtimeMs := fun _ => none }
    fs := { realpath := some, stat := fun _ => false }
    tmux := { panes := [⟨100, js "main", js "%1", 0, true⟩], ppid := fun _ => none }
    sendFailure := none, now := 0 }

def claudeCommand : JsString := js "/usr/local/bin/claude"
def aiderCommand : JsString := js "python /usr/bin/aider"

def approveArgs : Json :=
  .obj [(js "pid", .num (.finite 100)), (js "text", .str (js "y")), (js "approve", .bool true)]

def approveFlags : InjectFlags :=
  { help := false, pid := some 100, text := some (js "y"), source := none, force := false,
    dryRun := false, json := false }

theorem unforced_send_lockFree_apart :
    let w := twoProcesses claudeCommand claudeCommand (js "/v")
    (InjectRequest.tool approveArgs).sends w = true ∧ LockFree w 100 := by
  intro w
  have hme : ⟨100, js "/w", js "w", none, none⟩ ∈ claudeCodeDiscover w.host := by decide +kernel
  have hs : (InjectRequest.tool approveArgs).sends w = true := by decide +kernel
  exact ⟨hs, unforced_send_lockFree hme (by decide +kernel) hs⟩

/-- A request that the lock lets through although a session of the registered
provider `p` sits in the directory of the target. -/
def SendsBeside (w : World) (r : InjectRequest) (p : AgentProvider) : Prop :=
  r.target = some (100, false) ∧ r.sends w = true ∧ p ∈ allProviders ∧
    ∃ other ∈ p.discover w.host,
      other.pid ≠ 100 ∧ detectConflict w.fs (sessionCwd w.host 100) other.cwd = true

/-- By either way in: an aider session types into the checkout of a Claude Code
session, and a Claude Code session into that of an aider session. -/
theorem unforced_send_beside_other_provider :
    (SendsBeside (twoProcesses aiderCommand claudeCommand (js "/w")) (.tool approveArgs)
        ⟨js "claude-code", claudeCodeDiscover⟩ ∧
      SendsBeside (twoProcesses aiderCommand claudeCommand (js "/w")) (.cmd approveFlags)
        ⟨js "claude-code", claudeCodeDiscover⟩) ∧
    SendsBeside (twoProcesses claudeCommand aiderCommand (js "/w")) (.tool approveArgs)
        ⟨js "aider", aiderDiscover⟩ ∧
      SendsBeside (twoProcesses claudeCommand aiderCommand (js "/w")) (.cmd approveFlags)
        ⟨js "aider", aiderDiscover⟩ := by
  have hclaude : (⟨200, js "/w", js "w", none, none⟩ : LocalSession) ∈
      claudeCodeDiscover (twoProcesses aiderCommand claudeCommand (js "/w")).host := by decide +kernel
  have haider : (⟨200, js "/w", js "w", none, none⟩ : LocalSession) ∈
      aiderDiscover (twoProcesses claudeCommand aiderCommand (js "/w")).host := by decide +kernel
  refine ⟨⟨?_, ?_⟩, ?_, ?_⟩
  · exact ⟨by decide +kernel, by decide +kernel, .head _, _, hclaude, by decide, by decide +kernel⟩
  · exact ⟨by decide +kernel, by decide +kernel, .head _, _, hclaude, by decide, by decide +kernel⟩
  · exact ⟨by decide +kernel, by decide +kernel, .tail _ (.head _), _, haider, by decide,
      by decide +kernel⟩
  · exact ⟨by decide +kernel, by decide +kernel, .tail _ (.head _), _, haider, by decide,
      by decide +kernel⟩

end Conductor.Cli.InjectCmd
