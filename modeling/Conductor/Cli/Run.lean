import Conductor.Cli.Commands

/-! # What an invocation can do

Every run of the binary ends with an exit code from 0 to 3 or serves, and what it
changes of its surroundings is one of these: a line typed into a pane, with its
audit entry when the typing succeeded; one execution of `remindctl`; what the lines
of an MCP session ask for; a daemon that listens. A usage error and a failed
precondition change nothing. -/
namespace Conductor.Cli.Run
open Conductor.Js Conductor.Js.Text Conductor.Js.Number Conductor.Js.Values Conductor.Lib.Traces
open Conductor.Sessions.Types Conductor.Tmux.TmuxMap Conductor.Tmux.Effects Conductor.Tmux.Audit
open Conductor.Reminders.Cli Conductor.Mcp.Tools Conductor.Mcp.Handlers Conductor.Cli.Args
open Conductor.Cli.InjectCmd Conductor.Cli.RepeatedFlags Conductor.Cli.Commands
open Conductor.Cli.AuditReaders (Printed auditCmd)
open Conductor.Mcp.SessionEffects (Accounted given good_run served_run)

/-- Keys are sent, the log is appended to, a reminder is added or completed, or a
server serves. -/
def CliEffect.changes : CliEffect → Bool
  | .world (.sendKeys _) | .world (.appendAudit _) | .mcpServer _ | .daemon _ _ => true
  | .remindctl args => args.head? != some (js "status") && Reminders.Cli.changes args
  | _ => false

def changesOf (effects : List CliEffect) : List CliEffect := effects.filter CliEffect.changes

/-- What an invocation with these arguments has changed, and its exit code. -/
inductive Did (w : CliWorld) (args : ParsedArgs) : List CliEffect → Option Nat → Prop
  | nothing {code : Nat} (known : code ≤ 3) : Did w args [] (some code)
  /-- The keys arrived in the pane of the pid, and the entry says so. -/
  | sent {pid : Int} {text : JsString} {pane : Pane} {i : Inject}
      (word : args.positional.head? = some (js "inject")) (asked : flagInt args [js "pid"] = some pid)
      (said : flagString args [js "text"] = some text)
      (wet : flagBool args [js "dry-run", js "n"] = false)
      (found : findPaneForPid w.tmux pid none = some pane)
      (free : lockConflict w.toWorld (flagBool args [js "force"]) (targetSession w.toWorld pid) = none)
      (arrived : w.sendFailure = none) (entry : i.entry.pid = .finite pid ∧ i.entry.text = some text) :
      Did w args [.world (.sendKeys (sendKeys pane.pane text)), .world (.appendAudit i)] (some 0)
  | unsent {pid : Int} {text : JsString} {pane : Pane}
      (word : args.positional.head? = some (js "inject")) (asked : flagInt args [js "pid"] = some pid)
      (said : flagString args [js "text"] = some text)
      (wet : flagBool args [js "dry-run", js "n"] = false)
      (found : findPaneForPid w.tmux pid none = some pane)
      (free : lockConflict w.toWorld (flagBool args [js "force"]) (targetSession w.toWorld pid) = none)
      (failed : w.sendFailure.isSome = true) :
      Did w args [.world (.sendKeys (sendKeys pane.pane text))] (some 1)
  | reminder {execArgs : List JsString} {code : Nat}
      (word : args.positional.head? = some (js "todos"))
      (authorized : (probeAuth w.shell).result = .ok true) (ended : code ≤ 1) :
      Did w args [.remindctl execArgs] (some code)
  /-- Whatever the tools of the stdio server did, they did for one of its lines, and as that
  line asked. The command returns when the input has ended. -/
  | session (word : args.positional.head? = some (js "mcp"))
      (lines : ∀ x ∈ w.mcp.state.log, x.1 < (w.mcp.steps.filterMap given).length)
      (asked : ∀ i text world, (w.mcp.steps.filterMap given)[i]? = some (text, world) →
        Accounted w.mcp.state i text world) :
      Did w args [.mcpServer w.mcp.state.log] (if w.mcp.state.server.resolved then some 0 else none)
  | daemon (word : args.positional.head? = some (js "serve"))
      (listens : w.daemonError (flagInt args [js "port"]) = none) :
      Did w args [.daemon (flagInt args [js "port"]) (flagBool args [js "timeseries"])] none

/-! ## Commands that change nothing -/

abbrev Harmless (e : CliEffect) : Prop := CliEffect.changes e = false

def Known (r : Except JsError (Option Nat)) : Prop := ∀ code, r = .ok code → ∃ c ≤ 3, code = some c

/-- The command changes nothing, and knows its exit code. -/
def Plain (c : Command) : Prop :=
  Ensures (fun ws r => (∀ e ∈ ws, Harmless e) ∧ Known r) c

theorem plain_pure {code : Nat} (h : code ≤ 3) : Plain (pure (some code)) :=
  ⟨fun _ he => (by cases he), fun _ hc => ⟨code, h, (Except.ok.inj hc).symm⟩⟩

theorem plain_eval_error (e : JsError) : Plain (eval (.error e)) :=
  ⟨fun _ he => (by cases he), fun _ hc => (by cases hc)⟩

theorem plain_bind {α : Type} {c : Traced CliEffect JsError α} {f : α → Command}
    (hc : Only Harmless c) (hf : ∀ a, c.result = .ok a → Plain (f a)) : Plain (c >>= f) :=
  ensures_bind (fun a ha => (hf a ha).imp fun _ _ h => ⟨List.forall_mem_append.mpr ⟨hc, h.1⟩, h.2⟩)
    fun _ _ => ⟨hc, fun _ h => (by cases h)⟩

theorem only_stdout (text : JsString) : Only Harmless (stdout text) := only_emit.mpr rfl

theorem only_stderr (text : JsString) : Only Harmless (stderr text) := only_emit.mpr rfl

theorem only_help (onStderr : Bool) (command : String) : Only Harmless (help onStderr command) :=
  only_emit.mpr rfl

theorem only_print (w : CliWorld) (v : Shown) : Only Harmless (print w v) := by
  refine only_bind (only_emit.mpr rfl) fun _ _ => ?_
  cases w.printError v with
  | none => exact only_pure _
  | some e => exact only_eval _

theorem only_jsonOr {args : ParsedArgs} {v : Shown} {text : Traced CliEffect JsError Unit}
    (h : Only Harmless text) : Only Harmless (jsonOr args v text) := by
  unfold jsonOr
  split
  · exact only_emit.mpr rfl
  · exact h

/-- A help text, and then a code. -/
theorem plain_help (onStderr : Bool) (command : String) {code : Nat} (h : code ≤ 3) :
    Plain (do help onStderr command; return some code) :=
  plain_bind (only_help onStderr command) fun _ _ => plain_pure h

theorem plain_stderr (text : JsString) {code : Nat} (h : code ≤ 3) :
    Plain (do stderr text; return some code) :=
  plain_bind (only_stderr text) fun _ _ => plain_pure h

theorem plain_usage (text : JsString) (command : String) {code : Nat} (h : code ≤ 3) :
    Plain (do stderr text; help true command; return some code) :=
  plain_bind (only_stderr text) fun _ _ => plain_help true command h

/-- Something harmless, and then success. -/
theorem plain_success {c : Traced CliEffect JsError Unit} (hc : Only Harmless c) :
    Plain (do c; return some 0) :=
  plain_bind hc fun _ _ => plain_pure (Nat.zero_le 3)

theorem plain_unknownProvider (args : ParsedArgs) : Plain (unknownProvider args) :=
  plain_stderr _ (by decide)

theorem plain_snapshotCmd (w : CliWorld) (args : ParsedArgs) : Plain (snapshotCmd w args) := by
  unfold snapshotCmd
  split
  · exact plain_help false "snapshot" (by decide)
  · split
    · exact plain_unknownProvider args
    · exact plain_success (only_jsonOr (only_bind (only_stdout _) fun _ _ => only_stdout _))
    · exact plain_bind (only_eval _) fun snap _ => plain_success (only_jsonOr (only_print w _))

theorem plain_sessionsCmd (w : CliWorld) (args : ParsedArgs) : Plain (sessionsCmd w args) := by
  unfold sessionsCmd
  split
  · exact plain_help false "sessions" (by decide)
  · split
    · exact plain_unknownProvider args
    · refine plain_success (only_jsonOr ?_)
      split
      · exact only_stdout _
      · exact only_print w _

theorem plain_transcriptCmd (w : CliWorld) (args : ParsedArgs) : Plain (transcriptCmd w args) := by
  unfold transcriptCmd
  split
  · exact plain_help false "transcript" (by decide)
  · split
    · exact plain_usage _ "transcript" (by decide)
    · exact plain_usage _ "transcript" (by decide)
    · refine plain_success (only_jsonOr ?_)
      split
      · exact only_stdout _
      · exact only_print w _

theorem plain_tmuxCmd (w : CliWorld) (args : ParsedArgs) : Plain (tmuxCmd w args) := by
  have hpanes : Plain (runPanes w args) := by
    refine plain_success (only_jsonOr ?_)
    split
    · exact only_stdout _
    · exact only_print w _
  have hfind : Plain (runFind w args) := by
    unfold runFind
    split
    · exact plain_stderr _ (by decide)
    · refine plain_success (only_jsonOr ?_)
      split
      · exact only_stdout _
      · exact only_stdout _
  unfold tmuxCmd
  split
  · exact plain_help false "tmux" (by decide)
  · simp only
    split
    · exact hpanes
    · split
      · exact hfind
      · exact plain_usage _ "tmux" (by decide)

theorem plain_providersCmd (w : CliWorld) (args : ParsedArgs) : Plain (providersCmd w args) := by
  have hlist : Plain (runProviderList w args) :=
    plain_success (only_jsonOr (only_bind (only_print w _) fun _ _ => only_stdout _))
  have hinfo : Plain (runProviderInfo w args) := by
    unfold runProviderInfo
    split
    · exact plain_stderr _ (by decide)
    · exact plain_stderr _ (by decide)
    · split
      · exact plain_stderr _ (by decide)
      · exact plain_success (only_jsonOr (only_print w _))
  unfold providersCmd
  split
  · exact plain_help false "providers" (by decide)
  · simp only
    split
    · exact hlist
    · split
      · exact hinfo
      · exact plain_usage _ "providers" (by decide)

theorem only_printed (output : List Printed) : Only Harmless (printed output) := by
  induction output with
  | nil => exact only_pure _
  | cons p rest ih => cases p with
    | stdout text => exact only_bind (only_stdout text) fun _ _ => ih
    | stderr text => exact only_bind (only_stderr text) fun _ _ => ih
    | renderJson v => exact only_bind (only_emit.mpr rfl) fun _ _ => ih
    | renderTable rows | brokenTable rows => exact only_bind (only_emit.mpr rfl) fun _ _ => ih

/-- `audit` ends with 0 or 1, or with what its table throws. -/
theorem plain_auditCommand (w : CliWorld) (args : ParsedArgs) : Plain (auditCommand w args) := by
  have hcode : ∀ code, (auditCmd w.auditTable w.AUDIT_FILE_PATH w.auditLog args).2 = .ok code → code ≤ 3 := by
    intro code hr
    unfold auditCmd at hr
    split at hr
    · cases hr
      decide
    · simp only at hr
      split at hr
      · cases hr
        decide
      · cases hr
        decide
      · split at hr
        · cases hr
          decide
        · split at hr
          · cases hr
            decide
          · split at hr
            · cases hr
              decide
            · cases hr
  refine plain_bind (only_printed _) fun _ _ => plain_bind (only_eval _) fun code hr => ?_
  exact plain_pure (hcode code hr)

theorem plain_topUsage : Plain usage := plain_success (only_emit.mpr rfl)

/-! ## Todos -/

/-- Nothing is changed, or `remindctl` was executed once, which is allowed. -/
structure Reminds (allowed : Prop) (ws : List CliEffect) (r : Except JsError (Option Nat)) : Prop where
  known : Known r
  once : changesOf ws = [] ∨ allowed ∧ ∃ execArgs, changesOf ws = [.remindctl execArgs] ∧
    ∀ code, r = .ok code → ∃ c ≤ 1, code = some c

theorem changesOf_append (ws ws' : List CliEffect) : changesOf (ws ++ ws') = changesOf ws ++ changesOf ws' :=
  List.filter_append ws ws'

theorem changesOf_harmless {ws : List CliEffect} (h : ∀ e ∈ ws, Harmless e) : changesOf ws = [] :=
  List.filter_eq_nil_iff.mpr fun e he => by simp [h e he]

theorem Reminds.after {allowed : Prop} {ws ws' : List CliEffect} {r : Except JsError (Option Nat)}
    (h : Reminds allowed ws' r) (hws : ∀ e ∈ ws, Harmless e) : Reminds allowed (ws ++ ws') r := by
  refine ⟨h.known, ?_⟩
  rw [changesOf_append, changesOf_harmless hws]
  exact h.once

theorem Plain.reminds {c : Command} (h : Plain c) (allowed : Prop) : Ensures (Reminds allowed) c :=
  h.imp fun _ _ h => ⟨h.2, .inl (changesOf_harmless h.1)⟩

/-- One execution of `remindctl`, and then a command that changes nothing and ends with 0 or 1. -/
theorem reminds_executed {α : Type} {e : Executed α} {f : α → Command}
    (hf : ∀ a, Plain (f a) ∧ ∀ code, (f a).result = .ok code → ∃ c ≤ 1, code = some c) :
    Ensures (Reminds True) (executed e >>= f) := by
  have heffects : (executed e : Traced CliEffect JsError α).effects = [.remindctl e.args] := by
    show [CliEffect.remindctl e.args] ++ [] = _
    rw [List.append_nil]
  have hone : ∀ ws, (∀ w ∈ ws, Harmless w) → changesOf ([.remindctl e.args] ++ ws) = [] ∨
      changesOf ([.remindctl e.args] ++ ws) = [.remindctl e.args] := by
    intro ws hws
    rw [changesOf_append, changesOf_harmless hws, List.append_nil, changesOf, List.filter_singleton]
    cases CliEffect.changes (.remindctl e.args) with
    | true => exact .inr rfl
    | false => exact .inl rfl
  refine ensures_bind (fun a _ => ?_) fun err _ => ?_
  · rw [heffects]
    obtain ⟨⟨hws, hknown⟩, hcode⟩ := hf a
    exact ⟨hknown, (hone _ hws).imp_right fun h => ⟨trivial, _, h, hcode⟩⟩
  · rw [heffects]
    exact ⟨fun _ h => (by cases h), (hone [] fun _ h => (by cases h)).imp_right fun h =>
      ⟨trivial, _, h, fun _ h => (by cases h)⟩⟩

/-- Something harmless, and then a code that says whether it went well. -/
theorem plain_ended {c : Traced CliEffect JsError Unit} (hc : Only Harmless c) {code : Nat}
    (h : code ≤ 1) : Plain (do c; return some code) ∧
      ∀ r, (c >>= fun _ => (pure (some code) : Command)).result = .ok r → ∃ c ≤ 1, r = some c := by
  refine ⟨plain_bind hc fun _ _ => plain_pure (by omega), fun r hr => ?_⟩
  · have hresult : Ensures (fun _ r => ∀ v, r = .ok v → v = some code)
        (c >>= fun _ => (pure (some code) : Command)) :=
      ensures_bind (fun _ _ _ hv => (Except.ok.inj hv).symm) fun _ _ _ hv => (by cases hv)
    exact ⟨code, h, hresult r hr⟩

theorem reminds_list (w : CliWorld) (args : ParsedArgs) (list : JsString) :
    Ensures (Reminds True) (runList w args list) := by
  refine reminds_executed fun todos => plain_ended (only_jsonOr ?_) (Nat.zero_le 1)
  split
  · exact only_stdout _
  · exact only_print w _

theorem reminds_add (w : CliWorld) (args : ParsedArgs) (list : JsString) :
    Ensures (Reminds True) (runAdd w args list) := by
  unfold runAdd
  split
  · exact (plain_stderr _ (by decide)).reminds True
  · exact (plain_stderr _ (by decide)).reminds True
  · refine reminds_executed fun created => plain_ended (only_jsonOr ?_) (Nat.zero_le 1)
    refine only_bind (only_stdout _) fun _ _ => ?_
    split
    · exact only_stdout _
    · exact only_pure _

theorem reminds_complete (w : CliWorld) (args : ParsedArgs) :
    Ensures (Reminds True) (runComplete w args) := by
  unfold runComplete
  split
  · exact (plain_stderr _ (by decide)).reminds True
  · exact (plain_stderr _ (by decide)).reminds True
  · refine reminds_executed fun result => plain_ended (only_jsonOr (only_stdout _)) ?_
    split
    · exact Nat.zero_le 1
    · exact Nat.le_refl 1

/-- `remindctl` is asked for a change only after `probeAuth` has allowed it. -/
theorem reminds_todosCmd (w : CliWorld) (args : ParsedArgs) :
    Ensures (Reminds ((probeAuth w.shell).result = .ok true)) (todosCmd w args) := by
  unfold todosCmd
  split
  · exact (plain_help false "todos" (by decide)).reminds _
  · simp only
    have hprobe : Only Harmless (executed (probeAuth w.shell) : Traced CliEffect JsError Bool) :=
      only_bind (only_emit.mpr rfl) fun _ _ => only_eval _
    refine ensures_bind (fun authorized hauth => ?_) fun _ _ =>
      ⟨fun _ h => (by cases h), .inl (changesOf_harmless hprobe)⟩
    cases authorized with
    | false =>
      have hrefused : Plain (do
          stderr (js "agent-conductor: Reminders CLI not authorized (active=remindctl). Run `tccutil reset Reminders` then retry, or install `brew install steipete/tap/remindctl` and grant Calendars access.\n")
          return some 3) := plain_stderr _ (by decide)
      exact (hrefused.reminds _).imp fun _ _ h => h.after hprobe
    | true =>
      have hallowed : ∀ {c : Command}, Ensures (Reminds True) c → Ensures (fun ws r =>
          Reminds ((probeAuth w.shell).result = .ok true)
            ((executed (probeAuth w.shell) : Traced CliEffect JsError Bool).effects ++ ws) r) c :=
        fun h => h.imp fun _ _ h =>
          Reminds.after ⟨h.known, h.once.imp_right fun h => ⟨hauth, h.2⟩⟩ hprobe
      simp only [Bool.not_true, Bool.false_eq_true, if_false]
      split
      · exact hallowed (reminds_list w args _)
      · split
        · exact hallowed (reminds_add w args _)
        · split
          · exact hallowed (reminds_complete w args)
          · exact hallowed ((plain_usage _ "todos" (by decide)).reminds True)

/-! ## Injects -/

/-- The exit code, after `run` has caught what was thrown. -/
def codeOf : Except JsError (Option Nat) → Option Nat
  | .ok code => code
  | .error _ => some 1

theorem Plain.did {c : Command} (h : Plain c) (w : CliWorld) (args : ParsedArgs) :
    Ensures (fun ws r => Did w args (changesOf ws) (codeOf r)) c := by
  refine h.imp fun ws r h => ?_
  rw [changesOf_harmless h.1]
  cases r with
  | ok code =>
    obtain ⟨c, hc, rfl⟩ := h.2 code rfl
    exact .nothing hc
  | error e => exact .nothing (by decide)

theorem Reminds.did {w : CliWorld} {args : ParsedArgs} {ws : List CliEffect}
    {r : Except JsError (Option Nat)} (hword : args.positional.head? = some (js "todos"))
    (h : Reminds ((probeAuth w.shell).result = .ok true) ws r) : Did w args (changesOf ws) (codeOf r) := by
  rcases h.once with hnone | ⟨hauth, execArgs, hone, hcode⟩
  · rw [hnone]
    cases r with
    | ok code =>
      obtain ⟨c, hc, rfl⟩ := h.known code rfl
      exact .nothing hc
    | error e => exact .nothing (by decide)
  · rw [hone]
    cases r with
    | ok code =>
      obtain ⟨c, hle, rfl⟩ := hcode code rfl
      exact .reminder hword hauth hle
    | error e => exact .reminder hword hauth (Nat.le_refl 1)

theorem changesOf_world (effects : List Effect) : changesOf (effects.map .world) =
    (effects.filter fun e => CliEffect.changes (.world e)).map .world := by
  rw [changesOf, List.filter_map]
  rfl

/-- A command that only prints. -/
theorem did_printed {w : CliWorld} {args : ParsedArgs} {effects : List Effect} {code : Nat}
    (h : ∀ e ∈ effects, CliEffect.changes (.world e) = false) (hcode : code ≤ 3) :
    Did w args (changesOf (effects.map .world)) (some code) := by
  have hnone : effects.filter (fun e => CliEffect.changes (.world e)) = [] :=
    List.filter_eq_nil_iff.mpr fun e he => by simp [h e he]
  rw [changesOf_world, hnone]
  exact .nothing hcode

theorem changesOf_sent (args : List JsString) (i : Inject) {output : List Effect}
    (h : ∀ e ∈ output, CliEffect.changes (.world e) = false) :
    changesOf (([Effect.sendKeys args, .appendAudit i] ++ output).map .world) =
      [.world (.sendKeys args), .world (.appendAudit i)] := by
  have hnone : output.filter (fun e => CliEffect.changes (.world e)) = [] :=
    List.filter_eq_nil_iff.mpr fun e he => by simp [h e he]
  rw [changesOf_world, List.filter_append, hnone]
  rfl

theorem injectPid_did {w : CliWorld} {args : ParsedArgs}
    (hword : args.positional.head? = some (js "inject")) {pid : Int} {text : JsString}
    (hpid : flagInt args [js "pid"] = some pid) (htext : flagString args [js "text"] = some text) :
    Did w args
      (changesOf ((injectPid w.toWorld (injectFlags args) pid text).effects.map .world))
      (codeOf ((injectPid w.toWorld (injectFlags args) pid text).result.map some)) := by
  unfold injectPid
  split
  · exact did_printed (by simp [CliEffect.changes, exitWith]) (by decide)
  · rename_i pane hpane
    simp only
    split
    · exact did_printed (by simp [CliEffect.changes, exitWith]) (by decide)
    · rename_i hfree
      split
      · refine did_printed (fun e he => ?_) (Nat.zero_le 3)
        rw [List.mem_singleton.mp he]
        split
        · rfl
        · rfl
      · rename_i hdry
        have hwet : flagBool args [js "dry-run", js "n"] = false := by simpa [injectFlags] using hdry
        split
        · rename_i message hfail
          exact .unsent hword hpid htext hwet hpane hfree (by rw [hfail]; rfl)
        · rename_i hsent
          rw [changesOf_sent]
          · exact .sent hword hpid htext hwet hpane hfree hsent ⟨rfl, rfl⟩
          · split
            · simp [CliEffect.changes]
            · simp [CliEffect.changes]

theorem injectCommand_did {w : CliWorld} {args : ParsedArgs}
    (hword : args.positional.head? = some (js "inject")) :
    Ensures (fun ws r => Did w args (changesOf ws) (codeOf r)) (injectCommand w args) := by
  show Did w args (changesOf ((injectCmd w.toWorld (injectFlags args)).effects.map .world))
    (codeOf ((injectCmd w.toWorld (injectFlags args)).result.map some))
  unfold injectCmd
  split
  · exact did_printed (by simp [CliEffect.changes]) (Nat.zero_le 3)
  · split
    · rename_i pid text hpid htext
      split
      · exact did_printed (by simp [CliEffect.changes]) (by decide)
      · exact injectPid_did hword hpid htext
    · exact did_printed (by simp [CliEffect.changes]) (by decide)

/-! ## The two that serve -/

/-- A command that serves has that one effect, after which nothing throws. -/
theorem changesOf_serving {e : CliEffect} (h : CliEffect.changes e = true) (code : Option Nat) :
    Ensures (fun ws r => changesOf ws = [e] ∧ r = .ok code) (do emit e; return code : Command) := by
  refine ⟨?_, rfl⟩
  show changesOf ([e] ++ []) = [e]
  rw [List.append_nil, changesOf, List.filter_cons_of_pos h]
  rfl

theorem mcpCmd_did {w : CliWorld} {args : ParsedArgs} (hword : args.positional.head? = some (js "mcp"))
    {rest : ParsedArgs} : Ensures (fun ws r => Did w args (changesOf ws) (codeOf r)) (mcpCmd w rest) := by
  unfold mcpCmd
  split
  · exact (plain_help false "mcp" (by decide)).did w args
  · refine (changesOf_serving rfl _).imp fun ws r h => ?_
    have hserved := served_run w.mcp.ran
    rw [h.1, h.2]
    refine .session hword ?_ ?_
    · rw [← hserved]
      exact fun _ hx => (good_run w.mcp.ran).log_served hx
    · rw [← hserved]
      exact fun _ _ _ hi => (good_run w.mcp.ran).accounted hi

theorem serveCmd_did {w : CliWorld} {args : ParsedArgs} (hword : args.positional.head? = some (js "serve"))
    (rest : List JsString) :
    Ensures (fun ws r => Did w args (changesOf ws) (codeOf r)) (serveCmd w ⟨rest, args.flags⟩) := by
  unfold serveCmd
  split
  · exact (plain_help false "serve" (by decide)).did w args
  · simp only
    split
    · exact (plain_eval_error _).did w args
    · rename_i hlistens
      refine (changesOf_serving rfl _).imp fun ws r h => ?_
      rw [h.1, h.2]
      exact .daemon hword hlistens

/-! ## The whole binary -/

theorem ofWord_eq_some {word : JsString} {sub : Sub} (h : Sub.ofWord word = some sub) : sub.word = word := by
  simpa using List.find?_some h

theorem runSub_did {w : CliWorld} {args : ParsedArgs} {word : JsString} {rest : List JsString}
    (hargs : args.positional = word :: rest) {sub : Sub} (hsub : sub.word = word) :
    Ensures (fun ws r => Did w args (changesOf ws) (codeOf r)) (runSub w ⟨rest, args.flags⟩ sub) := by
  have hhead : args.positional.head? = some sub.word := by rw [hargs, hsub]; rfl
  cases sub with
  | snapshot => exact (plain_snapshotCmd w _).did w args
  | sessions => exact (plain_sessionsCmd w _).did w args
  | transcript => exact (plain_transcriptCmd w _).did w args
  | todos => exact (reminds_todosCmd w _).imp fun _ _ h => h.did hhead
  | tmux => exact (plain_tmuxCmd w _).did w args
  | inject =>
    have hsame : injectCommand w ⟨rest, args.flags⟩ = injectCommand w args := rfl
    show Ensures _ (injectCommand w ⟨rest, args.flags⟩)
    rw [hsame]
    exact injectCommand_did hhead
  | audit => exact (plain_auditCommand w _).did w args
  | providers => exact (plain_providersCmd w _).did w args
  | mcp => exact mcpCmd_did hhead
  | serve => exact serveCmd_did hhead rest
  | help => exact plain_topUsage.did w args

end Conductor.Cli.Run
