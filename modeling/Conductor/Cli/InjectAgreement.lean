import Conductor.Cli.InjectCmd
import Conductor.Js.Numerals

/-! # The tool and the command do the same

One request asked of the MCP tool and of the command: what each does to the world
and how each ends, as its caller sees it. The two ways in read the clock apart. -/
namespace Conductor.Cli.InjectAgreement
open Conductor.Js Conductor.Js.Text Conductor.Js.Number Conductor.Js.Values Conductor.Js.JsonText
open Conductor.Js.Numerals Conductor.Sessions.Types
open Conductor.Discovery.Providers Conductor.Tmux.Audit Conductor.Tmux.TmuxMap Conductor.Tmux.Effects
open Conductor.Mcp.Tools Conductor.Cli.InjectCmd

/-! ## One request, two ways in -/

structure Ask where
  pid : Int
  text : JsString
  source : AuditSource
  force : Bool
  dryRun : Bool

/-- The source that the tool notes for its argument: any third label is its own one, as is none. -/
def toolSource (label : Option JsString) : AuditSource :=
  if label = some (js "user-approved") then .userApproved
  else if label = some (js "auto") then .auto else .skill

/-- The source that the command notes for its flag. -/
def cmdSource (label : Option JsString) : AuditSource :=
  if label = some (js "auto") then .auto
  else if label = some (js "skill") then .skill else .userApproved

/-- Each source has a label that is taken for it. -/
@[simp] theorem toolSource_sourceText (source : AuditSource) : toolSource (some (sourceText source)) = source := by
  cases source with
  | userApproved => rfl
  | auto => rfl
  | skill => rfl

@[simp] theorem cmdSource_sourceText (source : AuditSource) : cmdSource (some (sourceText source)) = source := by
  cases source with
  | userApproved => rfl
  | auto => rfl
  | skill => rfl

/-- The arguments ask for it, with `approve: true`; a flag may be left out for `false`,
and a label for the tool's own source. -/
structure AskedOfTool (args : Json) (a : Ask) : Prop where
  pid : numberArg args (js "pid") = some (a.pid : Rat)
  text : stringArg args (js "text") = some a.text
  approve : boolArg args (js "approve") = some true
  source : toolSource (stringArg args (js "source")) = a.source
  force : (boolArg args (js "force")).getD false = a.force
  dryRun : (boolArg args (js "dryRun")).getD false = a.dryRun

structure AskedOfCmd (f : InjectFlags) (a : Ask) : Prop where
  help : f.help = false
  pid : f.pid = some a.pid
  text : f.text = some a.text
  source : cmdSource f.source = a.source
  force : f.force = a.force
  dryRun : f.dryRun = a.dryRun

/-! ## Traces and endings -/

/-- What an effect leaves in the world; an audit entry without its time. -/
inductive Trace
  | keys (args : List JsString)
  | audit (entry : AuditEntry)
  deriving DecidableEq

def traceOf : Effect → Option Trace
  | .sendKeys args => some (.keys args)
  | .appendAudit i => some (.audit { i.entry with ts := .finite 0 })
  | .stdout _ | .stderr _ | .renderJson _ => none

def traces (effects : List Effect) : List Trace := effects.filterMap traceOf

def Trace.isAudit : Trace → Bool
  | .audit _ => true
  | .keys _ => false

inductive Ending
  | noPane
  /-- Refused for the session of this pid. -/
  | collision (pid : Int)
  | dryRun
  | sendFailed
  | sent
  deriving DecidableEq

/-- How the call of the tool for `pid` ended: an exception with its message, or an answer. -/
def ToolEnds (pid : Int) (o : Outcome Json) : Ending → Prop
  | .noPane => o = refuse (js "precondition: pid " ++ (JsNumber.finite pid).toJsString ++
      js " is not running under tmux (bare TTY sessions are read-only)")
  | .collision other => ∃ path, o = refuse (js "precondition: cwd_collision with pid " ++
      Text.ofInt other ++ js " on path " ++ path ++ js " (use force:true to bypass)")
  | .dryRun => ∃ ms, o = ⟨[], .ok (.obj ms)⟩ ∧ ms.lookup (js "dryRun") = some (.bool true)
  | .sendFailed => ∃ args message, o = ⟨[.sendKeys args], .error (.error message)⟩
  | .sent => ∃ args i ms, o = ⟨[.sendKeys args, .appendAudit i], .ok (.obj ms)⟩ ∧
      ms.lookup (js "dryRun") = some (.bool false)

/-- How the command for `pid` ended: its exit code and its output, or an exception. -/
def CmdEnds (pid : Int) (o : Outcome Nat) : Ending → Prop
  | .noPane => o = exitWith 3 (js "inject: pid " ++ (JsNumber.finite pid).toJsString ++
      js " is not running under tmux (bare TTY sessions are read-only)\n")
  | .collision other => ∃ path, o = exitWith 3 (js "inject: cwd-collision with pid " ++
      Text.ofInt other ++ js " (shared path: " ++ path ++ js "). Re-run with --force to bypass.\n")
  | .dryRun => ∃ e, o = ⟨[e], .ok 0⟩ ∧ traceOf e = none
  | .sendFailed => ∃ args message, o = ⟨[.sendKeys args], .error (.error message)⟩
  | .sent => ∃ args i output, o = ⟨.sendKeys args :: .appendAudit i :: output, .ok 0⟩ ∧
      ∀ e ∈ output, traceOf e = none

/-! ## An outcome has one ending -/

theorem ofInt_negSucc (n : Nat) : Text.ofInt (.negSucc n) = 0x2D :: js (toString (n + 1)) := by
  have h : toString (Int.negSucc n) = "-" ++ toString (n + 1) := rfl
  rw [Text.ofInt, h, js_append]
  rfl

theorem not_digit_minus {n : Nat} {s : JsString} : js (toString n) ≠ 0x2D :: s := by
  intro h
  have hd := digits_toString n 0x2D (by rw [h]; exact List.mem_cons_self)
  cases hd

/-- Numbers that read the same are the same. -/
theorem ofInt_injective {m n : Int} (h : Text.ofInt m = Text.ofInt n) : m = n := by
  have hnat : ∀ {i j : Nat}, js (toString i) = js (toString j) → i = j := by
    intro i j hij
    rw [← digitsValue_toString i, hij, digitsValue_toString]
  cases m with
  | ofNat i => cases n with
    | ofNat j => exact congrArg Int.ofNat (hnat h)
    | negSucc j => exact absurd (h.trans (ofInt_negSucc j)) not_digit_minus
  | negSucc i => cases n with
    | ofNat j => exact absurd (h.symm.trans (ofInt_negSucc i)) not_digit_minus
    | negSucc j =>
      rw [ofInt_negSucc, ofInt_negSucc] at h
      have hsucc := hnat (List.cons.inj h).2
      exact congrArg Int.negSucc (Nat.succ.inj hsucc)

theorem space_not_mem_ofInt (n : Int) : 0x20 ∉ Text.ofInt n := by
  intro h
  cases n with
  | ofNat i => cases digits_toString i _ h
  | negSucc i =>
    rw [ofInt_negSucc] at h
    rcases List.mem_cons.mp h with h | h
    · cases h
    · cases digits_toString (i + 1) _ h

/-- A number in front of a space is read back. -/
theorem ofInt_before_space {m n : Int} {s t : JsString}
    (h : Text.ofInt m ++ 0x20 :: s = Text.ofInt n ++ 0x20 :: t) : m = n := by
  have hspan : ∀ (k : Int) (r : JsString), (Text.ofInt k ++ 0x20 :: r).takeWhile (· != 0x20) =
      Text.ofInt k := by
    intro k r
    rw [List.takeWhile_append_of_pos fun u hu => by
      simpa using fun he : u = 0x20 => space_not_mem_ofInt k (he ▸ hu)]
    simp
  apply ofInt_injective
  rw [← hspan m s, h, hspan]

/-- How many effects there are, and whether the call returns. -/
def Ending.shape : Ending → Nat × Bool
  | .noPane | .collision _ => (0, false)
  | .dryRun => (0, true)
  | .sendFailed => (1, false)
  | .sent => (2, true)

theorem toolEnds_shape {pid : Int} {o : Outcome Json} {e : Ending} (h : ToolEnds pid o e) :
    (o.effects.length, o.result.isOk) = e.shape := by
  cases e with
  | noPane => rw [show o = _ from h]; rfl
  | collision other => obtain ⟨path, rfl⟩ := h; rfl
  | dryRun => obtain ⟨ms, rfl, _⟩ := h; rfl
  | sendFailed => obtain ⟨args, message, rfl⟩ := h; rfl
  | sent => obtain ⟨args, i, ms, rfl, _⟩ := h; rfl

/-- Only the refusals have one shape. What tells these apart tells all endings apart. -/
theorem eq_of_shape {P : Ending → Prop} {e e' : Ending} (h : P e) (h' : P e')
    (hshape : e.shape = e'.shape) (hpane : ∀ other, P .noPane → ¬ P (.collision other))
    (hpid : ∀ other other', P (.collision other) → P (.collision other') → other = other') :
    e = e' := by
  cases e with
  | noPane => cases e' with
    | noPane => rfl
    | collision other => exact absurd h' (hpane other h)
    | dryRun => cases hshape
    | sendFailed => cases hshape
    | sent => cases hshape
  | collision other => cases e' with
    | noPane => exact absurd h (hpane other h')
    | collision other' => rw [hpid other other' h h']
    | dryRun => cases hshape
    | sendFailed => cases hshape
    | sent => cases hshape
  | dryRun => cases e' with
    | dryRun => rfl
    | _ => cases hshape
  | sendFailed => cases e' with
    | sendFailed => rfl
    | _ => cases hshape
  | sent => cases e' with
    | sent => rfl
    | _ => cases hshape

theorem toolEnds_unique {pid : Int} {o : Outcome Json} {e e' : Ending} (h : ToolEnds pid o e)
    (h' : ToolEnds pid o e') : e = e' := by
  refine eq_of_shape h h' ((toolEnds_shape h).symm.trans (toolEnds_shape h')) ?_ ?_
  · intro other hpane ⟨path, hcollision⟩
    have hsame := hpane.symm.trans hcollision
    simp only [refuse, Outcome.mk.injEq, Except.error.injEq, JsError.error.injEq, true_and] at hsame
    -- `precondition: pid` against `precondition: cwd_collision`
    have hunit : some (0x70 : UInt16) = some 0x63 := congrArg (·[14]?) hsame
    cases hunit
  · intro other other' ⟨path, hone⟩ ⟨path', hother⟩
    have hsame := hone.symm.trans hother
    simp only [refuse, Outcome.mk.injEq, Except.error.injEq, JsError.error.injEq, List.append_assoc,
      List.append_cancel_left_eq, true_and] at hsame
    exact ofInt_before_space hsame

/-- The exit code, if the command returns, and how many effects are traced. -/
def Ending.exit : Ending → Option Nat × Nat
  | .noPane | .collision _ => (some 3, 0)
  | .dryRun => (some 0, 0)
  | .sendFailed => (none, 1)
  | .sent => (some 0, 2)

theorem traces_sent {args : List JsString} {i : Inject} {output : List Effect}
    (h : ∀ e ∈ output, traceOf e = none) :
    traces (.sendKeys args :: .appendAudit i :: output) =
      [.keys args, .audit { i.entry with ts := .finite 0 }] := by
  have hnone : traces output = [] := List.filterMap_eq_nil_iff.mpr h
  show .keys args :: .audit { i.entry with ts := .finite 0 } :: traces output = _
  rw [hnone]

theorem cmdEnds_exit {pid : Int} {o : Outcome Nat} {e : Ending} (h : CmdEnds pid o e) :
    (o.result.toOption, (traces o.effects).length) = e.exit := by
  cases e with
  | noPane => rw [show o = _ from h]; rfl
  | collision other => obtain ⟨path, rfl⟩ := h; rfl
  | dryRun =>
    obtain ⟨e, rfl, he⟩ := h
    have hnone : traces [e] = [] := by simp [traces, he]
    rw [hnone]
    rfl
  | sendFailed => obtain ⟨args, message, rfl⟩ := h; rfl
  | sent =>
    obtain ⟨args, i, output, rfl, ho⟩ := h
    rw [traces_sent ho]
    rfl

theorem shape_of_exit {e e' : Ending} (h : e.exit = e'.exit) : e.shape = e'.shape := by
  have hshape : ∀ e : Ending, e.shape = (e.exit.2, e.exit.1 == some 0) := by
    intro e
    cases e with
    | noPane => rfl
    | collision _ => rfl
    | dryRun => rfl
    | sendFailed => rfl
    | sent => rfl
  rw [hshape, hshape, h]

theorem cmdEnds_unique {pid : Int} {o : Outcome Nat} {e e' : Ending} (h : CmdEnds pid o e)
    (h' : CmdEnds pid o e') : e = e' := by
  refine eq_of_shape h h' (shape_of_exit ((cmdEnds_exit h).symm.trans (cmdEnds_exit h'))) ?_ ?_
  · intro other hpane ⟨path, hcollision⟩
    have hsame := hpane.symm.trans hcollision
    simp only [exitWith, Outcome.mk.injEq, List.cons.injEq, Effect.stderr.injEq, and_true] at hsame
    -- `inject: pid` against `inject: cwd-collision`
    have hunit : some (0x70 : UInt16) = some 0x63 := congrArg (·[8]?) hsame
    cases hunit
  · intro other other' ⟨path, hone⟩ ⟨path', hother⟩
    have hsame := hone.symm.trans hother
    simp only [exitWith, Outcome.mk.injEq, List.cons.injEq, Effect.stderr.injEq, List.append_assoc,
      List.append_cancel_left_eq, and_true] at hsame
    exact ofInt_before_space hsame

/-! ## What both do -/

/-- The steps that the two ways in have in common: how they end, and what they leave. -/
def injectAsked (w : World) (a : Ask) : Ending × List Trace :=
  match findPaneForPid w.tmux a.pid none with
  | none => (.noPane, [])
  | some pane => match lockConflict w a.force (targetSession w a.pid) with
    | some (_, other) => (.collision other.pid, [])
    | none =>
      if a.dryRun then (.dryRun, [])
      else match w.sendFailure with
        | some _ => (.sendFailed, [.keys (sendKeys pane.pane a.text)])
        | none => (.sent, [.keys (sendKeys pane.pane a.text), .audit
            { ts := .finite 0, pid := .finite a.pid, repo := repoSlugOf (targetSession w a.pid)
              action := .inject, text := some a.text, source := a.source, confidence := none
              reason := none }])

/-- What is left in the world by a request with the given ending. -/
def Leaves (w : World) (a : Ask) (left : List Trace) : Ending → Prop
  | .noPane | .collision _ | .dryRun => left = []
  | .sendFailed => ∃ pane, findPaneForPid w.tmux a.pid none = some pane ∧
      left = [.keys (sendKeys pane.pane a.text)]
  | .sent => ∃ pane repo, findPaneForPid w.tmux a.pid none = some pane ∧
      left = [.keys (sendKeys pane.pane a.text), .audit
        { ts := .finite 0, pid := .finite a.pid, repo, action := .inject, text := some a.text
          source := a.source, confidence := none, reason := none }]

variable {w : World} {a : Ask}

theorem readInjectArgs_asked {args : Json} (h : AskedOfTool args a) :
    readInjectArgs args = .ok ⟨a.pid, a.text, a.force, a.dryRun, a.source⟩ := by
  have hsource : (if stringArg args (js "source") = some (js "user-approved") then AuditSource.userApproved
      else if stringArg args (js "source") = some (js "auto") then .auto else .skill) = a.source := h.source
  unfold readInjectArgs
  simp only [h.pid, h.text, h.approve, h.force, h.dryRun, hsource]
  rfl

theorem tool_asked {args : Json} (h : AskedOfTool args a) :
    ToolEnds a.pid (injectTool w args) (injectAsked w a).1 ∧
      traces (injectTool w args).effects = (injectAsked w a).2 := by
  have hpane : findPaneForNumber w.tmux (a.pid : Rat) = findPaneForPid w.tmux a.pid none := by
    unfold findPaneForNumber
    rw [if_pos (Rat.den_intCast a.pid)]
    rfl
  unfold injectTool injectWith injectAsked
  rw [readInjectArgs_asked h]
  simp only [hpane]
  cases findPaneForPid w.tmux a.pid none with
  | none => exact ⟨rfl, rfl⟩
  | some pane =>
    cases lockConflict w a.force (targetSession w a.pid) with
    | some both =>
      obtain ⟨m, other⟩ := both
      exact ⟨⟨m.cwd, rfl⟩, rfl⟩
    | none =>
      cases a.dryRun with
      | true => exact ⟨⟨_, rfl, rfl⟩, rfl⟩
      | false =>
        cases w.sendFailure with
        | some message => exact ⟨⟨_, message, rfl⟩, rfl⟩
        | none => exact ⟨⟨_, _, _, rfl, rfl⟩, rfl⟩

/-- The clock that the command reads makes no difference. -/
theorem cmd_asked {f : InjectFlags} (hpid : a.pid ≠ 0) (htext : a.text ≠ []) (h : AskedOfCmd f a)
    (now : Int) :
    CmdEnds a.pid (injectCmd { w with now := now } f) (injectAsked w a).1 ∧
      traces (injectCmd { w with now := now } f).effects = (injectAsked w a).2 := by
  have hsource : (if f.source.getD (js "cli") = js "auto" then AuditSource.auto
      else if f.source.getD (js "cli") = js "skill" then .skill else .userApproved) = a.source := by
    rw [← h.source]
    cases f.source with
    | none => rfl
    | some label => simp only [cmdSource, Option.getD_some, Option.some.injEq]
  have hcomplete : ¬ (a.pid = 0 ∨ a.text = []) := not_or.mpr ⟨hpid, htext⟩
  have hlock : ∀ me, lockConflict { w with now := now } a.force me = lockConflict w a.force me :=
    fun _ => rfl
  have htarget : ∀ pid, targetSession { w with now := now } pid = targetSession w pid := fun _ => rfl
  unfold injectCmd injectPid injectAsked
  simp only [h.help, h.pid, h.text, h.force, h.dryRun, if_neg hcomplete, hlock, htarget,
    Bool.false_eq_true, if_false, hsource]
  cases findPaneForPid w.tmux a.pid none with
  | none => exact ⟨rfl, rfl⟩
  | some pane =>
    cases lockConflict w a.force (targetSession w a.pid) with
    | some both =>
      obtain ⟨m, other⟩ := both
      exact ⟨⟨m.cwd, rfl⟩, rfl⟩
    | none =>
      cases a.dryRun with
      | true =>
        cases f.json with
        | true => exact ⟨⟨_, rfl, rfl⟩, rfl⟩
        | false => exact ⟨⟨_, rfl, rfl⟩, rfl⟩
      | false =>
        cases w.sendFailure with
        | some message => exact ⟨⟨_, message, rfl⟩, rfl⟩
        | none =>
          cases f.json with
          | true => exact ⟨⟨_, _, _, rfl, by simp [traceOf]⟩, rfl⟩
          | false => exact ⟨⟨_, _, _, rfl, by simp [traceOf]⟩, rfl⟩

theorem asked_leaves (w : World) (a : Ask) : Leaves w a (injectAsked w a).2 (injectAsked w a).1 := by
  unfold injectAsked
  cases hpane : findPaneForPid w.tmux a.pid none with
  | none => rfl
  | some pane =>
    cases lockConflict w a.force (targetSession w a.pid) with
    | some both => rfl
    | none =>
      cases a.dryRun with
      | true => rfl
      | false =>
        cases w.sendFailure with
        | some message => exact ⟨pane, hpane, rfl⟩
        | none => exact ⟨pane, _, hpane, rfl⟩

theorem Leaves.unaudited {left : List Trace} {e : Ending} (h : Leaves w a left e) (hne : e ≠ .sent) :
    ∀ t ∈ left, t.isAudit = false := by
  cases e with
  | noPane => rw [show left = [] from h]; simp
  | collision other => rw [show left = [] from h]; simp
  | dryRun => rw [show left = [] from h]; simp
  | sendFailed =>
    obtain ⟨pane, -, rfl⟩ := h
    simp [Trace.isAudit]
  | sent => exact absurd rfl hne

/-- Asked for the same thing, the tool and the command end in the same way and leave
the same trace: the keys and then the entry, the keys that tmux refused, or nothing. -/
theorem inject_agrees {w : World} {now : Int} {a : Ask} {args : Json} {f : InjectFlags}
    (hpid : a.pid ≠ 0) (htext : a.text ≠ []) (htool : AskedOfTool args a) (hcmd : AskedOfCmd f a) :
    ∃ ending,
      (∀ e, ToolEnds a.pid (injectTool w args) e ↔ e = ending) ∧
      (∀ e, CmdEnds a.pid (injectCmd { w with now := now } f) e ↔ e = ending) ∧
      traces (injectTool w args).effects = traces (injectCmd { w with now := now } f).effects ∧
      Leaves w a (traces (injectTool w args).effects) ending ∧
      (ending ≠ .sent → ∀ t ∈ traces (injectTool w args).effects, t.isAudit = false) := by
  obtain ⟨htoolEnds, htoolTrace⟩ := tool_asked (w := w) htool
  obtain ⟨hcmdEnds, hcmdTrace⟩ := cmd_asked (w := w) hpid htext hcmd now
  have hleaves := asked_leaves w a
  rw [← htoolTrace] at hleaves
  exact ⟨(injectAsked w a).1,
    fun e => ⟨fun h => toolEnds_unique h htoolEnds, fun h => h ▸ htoolEnds⟩,
    fun e => ⟨fun h => cmdEnds_unique h hcmdEnds, fun h => h ▸ hcmdEnds⟩,
    htoolTrace.trans hcmdTrace.symm, hleaves, hleaves.unaudited⟩

/-- `y`, approved by the user, for process 100. -/
def approval : Ask := ⟨100, js "y", .userApproved, false, false⟩

def approvalArgs : Json :=
  .obj [(js "pid", .num (.finite 100)), (js "text", .str (js "y")), (js "approve", .bool true),
    (js "source", .str (js "user-approved"))]

/-- Two sessions in one directory: both ways in name the other one. -/
theorem inject_agrees_shared :
    let w := twoProcesses claudeCommand claudeCommand (js "/w")
    ToolEnds 100 (injectTool w approvalArgs) (.collision 200) ∧
      CmdEnds 100 (injectCmd { w with now := 1 } { approveFlags with source := some (js "user-approved") })
        (.collision 200) := by
  intro w
  have hlabel : stringArg approvalArgs (js "source") = some (sourceText .userApproved) := by decide +kernel
  have htool : AskedOfTool approvalArgs approval :=
    ⟨by decide +kernel, by decide +kernel, by decide +kernel, hlabel ▸ toolSource_sourceText .userApproved, by decide +kernel,
      by decide +kernel⟩
  have hcmd : AskedOfCmd { approveFlags with source := some (js "user-approved") } approval :=
    ⟨rfl, rfl, rfl, cmdSource_sourceText .userApproved, rfl, rfl⟩
  have hasked : (injectAsked w approval).1 = .collision 200 := by decide +kernel
  have hends := (tool_asked (w := w) htool).1
  rw [hasked] at hends
  obtain ⟨ending, ht, hc, -⟩ :=
    @inject_agrees w 1 approval _ _ (by decide) (by decide) htool hcmd
  exact ⟨hends, (hc _).mpr ((ht _).mp hends)⟩

end Conductor.Cli.InjectAgreement
