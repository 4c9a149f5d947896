import Conductor.Cli.InjectCmd
import Conductor.Sessions.ConflictScan

/-! # The conflict a snapshot shows is the one an inject is refused for

`buildSnapshot` looks for conflicts by position, the tool and the command by pid.
Over a list without repeated pids the two scans stop at the same session. -/
namespace Conductor.Cli.ConflictAgreement
open Conductor.Js Conductor.Js.Text Conductor.Js.Values Conductor.Sessions.Types Conductor.Sessions.Lock
open Conductor.Sessions.RefinedStatus Conductor.Sessions.Snapshot Conductor.Sessions.ConflictScan
open Conductor.Discovery.Providers Conductor.Tmux.TmuxMap Conductor.Tmux.Effects
open Conductor.Mcp.Tools Conductor.Cli.InjectCmd

/-! ## The requests -/

/-- The request comes as far as the collision check, for the pid and without force. -/
def Checked (w : World) (pid : Int) : InjectRequest → Prop
  | .tool args => ∃ a, readInjectArgs args = .ok a ∧ a.pid = pid ∧ a.force = false ∧
      (findPaneForNumber w.tmux a.pid).isSome = true
  | .cmd flags => flags.help = false ∧ flags.pid = some pid ∧ pid ≠ 0 ∧ flags.force = false ∧
      (∃ text, flags.text = some text ∧ text ≠ []) ∧ (findPaneForPid w.tmux pid none).isSome = true

/-- The request leads to what it leads to with force. -/
def Passes (w : World) : InjectRequest → Prop
  | .tool args => ∃ a, readInjectArgs args = .ok a ∧ injectTool w args = injectWith w { a with force := true }
  | .cmd flags => injectCmd w flags = injectCmd w { flags with force := true }

/-- The request is refused for session `other`; nothing else happens. -/
def RefusedFor (w : World) (other : Int) (path : JsString) : InjectRequest → Prop
  | .tool args => injectTool w args = refuse (js "precondition: cwd_collision with pid " ++
      Text.ofInt other ++ js " on path " ++ path ++ js " (use force:true to bypass)")
  | .cmd flags => injectCmd w flags = exitWith 3 (js "inject: cwd-collision with pid " ++
      Text.ofInt other ++ js " (shared path: " ++ path ++ js "). Re-run with --force to bypass.\n")

section Request

variable {w : World} {s : LocalSession}

theorem targetSession_eq (hpids : DistinctPids (claudeCodeDiscover w.host))
    (hs : s ∈ claudeCodeDiscover w.host) : targetSession w s.pid = some s := by
  obtain ⟨m, hm, htarget, hpid⟩ := targetSession_of_mem hs
  rw [htarget, eq_of_pid hpids hm hs hpid]

theorem lockConflict_eq (hpids : DistinctPids (claudeCodeDiscover w.host))
    (hs : s ∈ claudeCodeDiscover w.host) :
    lockConflict w false (targetSession w s.pid) =
      (collision w.fs (claudeCodeDiscover w.host) s).map fun other => (s, other) := by
  rw [targetSession_eq hpids hs]
  rfl

/-- What is done about a target whose pane was found, by the session in conflict with it. -/
theorem injectWith_checked {a : InjectArgs} (hforce : a.force = false)
    (hpane : (findPaneForNumber w.tmux a.pid).isSome = true)
    (hpids : DistinctPids (claudeCodeDiscover w.host)) (hs : s ∈ claudeCodeDiscover w.host)
    (hpid : a.pid = s.pid) :
    (collision w.fs (claudeCodeDiscover w.host) s = none →
      injectWith w a = injectWith w { a with force := true }) ∧
    ∀ other, collision w.fs (claudeCodeDiscover w.host) s = some other →
      injectWith w a = refuse (js "precondition: cwd_collision with pid " ++ Text.ofInt other.pid ++
        js " on path " ++ s.cwd ++ js " (use force:true to bypass)") := by
  obtain ⟨pane, hpane⟩ := Option.isSome_iff_exists.mp hpane
  have hlock := lockConflict_eq hpids hs
  rw [← hpid] at hlock
  refine ⟨fun hnone => ?_, fun other hsome => ?_⟩
  · rw [hnone] at hlock
    simp only [injectWith, hpane, hforce, hlock, Option.map_none]
    rfl
  · rw [hsome] at hlock
    simp only [injectWith, hpane, hforce, hlock, Option.map_some]

/-- With force a target whose pane was found is not refused. -/
theorem injectWith_force {a : InjectArgs} (hpane : (findPaneForNumber w.tmux a.pid).isSome = true)
    (message : JsString) : injectWith w { a with force := true } ≠ refuse message := by
  obtain ⟨pane, hpane⟩ := Option.isSome_iff_exists.mp hpane
  have hlock : lockConflict w true (targetSession w a.pid) = none := rfl
  intro h
  simp only [injectWith, hpane, hlock] at h
  split at h
  · cases h
  · split at h
    · cases h
    · cases h

theorem injectPid_checked {flags : InjectFlags} (hforce : flags.force = false) (text : JsString)
    (hpane : (findPaneForPid w.tmux s.pid none).isSome = true)
    (hpids : DistinctPids (claudeCodeDiscover w.host)) (hs : s ∈ claudeCodeDiscover w.host) :
    (collision w.fs (claudeCodeDiscover w.host) s = none →
      injectPid w flags s.pid text = injectPid w { flags with force := true } s.pid text) ∧
    ∀ other, collision w.fs (claudeCodeDiscover w.host) s = some other →
      injectPid w flags s.pid text = exitWith 3 (js "inject: cwd-collision with pid " ++
        Text.ofInt other.pid ++ js " (shared path: " ++ s.cwd ++
        js "). Re-run with --force to bypass.\n") := by
  obtain ⟨pane, hpane⟩ := Option.isSome_iff_exists.mp hpane
  have hlock := lockConflict_eq hpids hs
  refine ⟨fun hnone => ?_, fun other hsome => ?_⟩
  · rw [hnone] at hlock
    simp only [injectPid, hpane, hforce, hlock, Option.map_none]
    rfl
  · rw [hsome] at hlock
    simp only [injectPid, hpane, hforce, hlock, Option.map_some]

/-- With force the command writes nothing to standard error. -/
theorem injectPid_force {flags : InjectFlags} {pid : Int} (text : JsString)
    (hpane : (findPaneForPid w.tmux pid none).isSome = true) (code : Nat) (message : JsString) :
    injectPid w { flags with force := true } pid text ≠ exitWith code message := by
  obtain ⟨pane, hpane⟩ := Option.isSome_iff_exists.mp hpane
  have hlock : lockConflict w true (targetSession w pid) = none := rfl
  intro h
  simp only [injectPid, hpane, hlock, exitWith] at h
  split at h
  · split at h
    · cases h
    · cases h
  · split at h
    · cases h
    · cases h

/-- A request that reads its flags gets to `injectPid`. -/
theorem injectCmd_checked {flags : InjectFlags} {pid : Int} {text : JsString}
    (hhelp : flags.help = false) (hpid : flags.pid = some pid) (htext : flags.text = some text)
    (hne : ¬ (pid = 0 ∨ text = [])) : injectCmd w flags = injectPid w flags pid text := by
  unfold injectCmd
  rw [hhelp, hpid, htext]
  exact if_neg hne

theorem passes_iff {r : InjectRequest} (hpids : DistinctPids (claudeCodeDiscover w.host))
    (hs : s ∈ claudeCodeDiscover w.host) (hr : Checked w s.pid r) :
    (collision w.fs (claudeCodeDiscover w.host) s = none ↔ Passes w r) ∧
      ∀ other, collision w.fs (claudeCodeDiscover w.host) s = some other →
        RefusedFor w other.pid s.cwd r := by
  cases r with
  | tool args =>
    obtain ⟨a, ha, hpid, hforce, hpane⟩ := hr
    have htool : injectTool w args = injectWith w a := by
      unfold injectTool
      rw [ha]
    obtain ⟨hpass, hrefused⟩ := injectWith_checked hforce hpane hpids hs hpid
    refine ⟨⟨fun hnone => ⟨a, ha, htool.trans (hpass hnone)⟩, fun h => ?_⟩, fun other hsome =>
      htool.trans (hrefused other hsome)⟩
    obtain ⟨a', ha', hsame⟩ := h
    cases ha.symm.trans ha'
    cases hc : collision w.fs (claudeCodeDiscover w.host) s with
    | none => rfl
    | some other =>
      rw [htool, hrefused other hc] at hsame
      exact absurd hsame.symm (injectWith_force hpane _)
  | cmd flags =>
    obtain ⟨hhelp, hpid, hzero, hforce, ⟨text, htext, hne⟩, hpane⟩ := hr
    have hcomplete : ¬ (s.pid = 0 ∨ text = []) := not_or.mpr ⟨hzero, hne⟩
    have hcmd := injectCmd_checked (w := w) hhelp hpid htext hcomplete
    have hcmdForce : injectCmd w { flags with force := true } =
        injectPid w { flags with force := true } s.pid text :=
      injectCmd_checked hhelp hpid htext hcomplete
    obtain ⟨hpass, hrefused⟩ := injectPid_checked hforce text hpane hpids hs
    refine ⟨⟨fun hnone => (hcmd.trans (hpass hnone)).trans hcmdForce.symm, fun h => ?_⟩,
      fun other hsome => hcmd.trans (hrefused other hsome)⟩
    have hsame : injectCmd w flags = injectCmd w { flags with force := true } := h
    cases hc : collision w.fs (claudeCodeDiscover w.host) s with
    | none => rfl
    | some other =>
      rw [hcmd, hcmdForce, hrefused other hc] at hsame
      exact absurd hsame.symm (injectPid_force text hpane _ _)

end Request

/-! ## The agreement -/

section Agreement

variable {w : World} {env : Env} {disk : Disk} {E : List SnapshotEntry}

theorem collides_not_sent {s o : LocalSession} (hs : s ∈ claudeCodeDiscover w.host)
    (ho : o ∈ claudeCodeDiscover w.host) (hne : o.pid ≠ s.pid)
    (hc : detectConflict w.fs s.cwd o.cwd = true) {r : InjectRequest}
    (hr : r.target = some ((s.pid : Rat), false)) : r.sends w = false := by
  cases hsend : r.sends w with
  | false => rfl
  | true =>
    have hfree := lockFree_of_lockConflict hs (send_lockConflict hr hsend) o ho hne
    rw [← claudeCode_cwd hs, hc] at hfree
    cases hfree

/-- Snapshot, tool and command agree on every list of Claude Code sessions with
distinct pids; a conflict is mutual, and stops every unforced inject on both sides. -/
theorem conflict_iff_refused (hfs : env.fs = w.fs) (hpids : DistinctPids (claudeCodeDiscover w.host))
    (hE : buildSnapshot env disk (claudeCodeDiscover w.host) = .ok E) :
    (∀ e ∈ E, ∀ r, Checked w e.pid r →
      (e.conflict = none ↔ Passes w r) ∧
        ∀ other, e.conflict = some other → RefusedFor w other e.cwd r) ∧
    (∀ e ∈ E, ∀ other, e.conflict = some other → ∃ e' ∈ E, e'.pid = other ∧ e'.conflict ≠ none) ∧
    ∀ s ∈ claudeCodeDiscover w.host, ∀ o ∈ claudeCodeDiscover w.host, o.pid ≠ s.pid →
      detectConflict w.fs s.cwd o.cwd = true → ∀ r : InjectRequest,
        r.target = some ((s.pid : Rat), false) ∨ r.target = some ((o.pid : Rat), false) →
          r.sends w = false := by
  refine ⟨fun e he r hr => ?_, fun e he other hc => ?_, fun s hs o ho hne hc r hr => ?_⟩
  · obtain ⟨s, hs, hpid, hcwd, hconflict⟩ := entry_conflict hpids hE he
    rw [hpid] at hr
    obtain ⟨hpass, hrefused⟩ := passes_iff hpids hs hr
    rw [hconflict, hcwd, hfs, Option.map_eq_none_iff]
    refine ⟨hpass, fun other hother => ?_⟩
    obtain ⟨o, ho, rfl⟩ := Option.map_eq_some_iff.mp hother
    exact hrefused o ho
  · obtain ⟨s, hs, -, -, hconflict⟩ := entry_conflict hpids hE he
    rw [hconflict] at hc
    obtain ⟨o, ho, rfl⟩ := Option.map_eq_some_iff.mp hc
    obtain ⟨homem, -, o', ho'⟩ := collision_symm hs ho
    obtain ⟨e', he', hentry⟩ := entry_of_mem hE homem
    refine ⟨e', he', hentry.pid, ?_⟩
    obtain ⟨s', hs', hpid', -, hconflict'⟩ := entry_conflict hpids hE he'
    have hsame : s' = o := eq_of_pid hpids hs' homem (by rw [← hpid', hentry.pid])
    subst hsame
    rw [hconflict', ho']
    exact Option.some_ne_none _
  · rcases hr with hr | hr
    · exact collides_not_sent hs ho hne hc hr
    · exact collides_not_sent ho hs (Ne.symm hne) (by rw [detectConflict_comm]; exact hc) hr

end Agreement

/-- Two sessions in one directory: the first is shown in conflict with the second,
and refused for it. -/
theorem shared_directory_refused :
    let w := twoProcesses claudeCommand claudeCommand (js "/w")
    ∃ E, buildSnapshot ⟨w.fs, w.tmux, w.now, none⟩ (fun _ => none) (claudeCodeDiscover w.host) = .ok E ∧
      ∃ e ∈ E, e.pid = 100 ∧ e.conflict = some 200 ∧ RefusedFor w 200 e.cwd (.tool approveArgs) ∧
        ¬ Passes w (.tool approveArgs) := by
  intro w
  have hlist : claudeCodeDiscover w.host =
      [⟨100, js "/w", js "w", none, none⟩, ⟨200, js "/w", js "w", none, none⟩] := by decide +kernel
  have hpids : DistinctPids (claudeCodeDiscover w.host) := by
    rw [hlist]
    exact List.nodup_cons.mpr ⟨by decide, List.nodup_singleton _⟩
  have hbuilt : ∃ E, buildSnapshot ⟨w.fs, w.tmux, w.now, none⟩ (fun _ => none)
      (claudeCodeDiscover w.host) = .ok E := by
    rw [hlist]
    exact ⟨_, rfl⟩
  obtain ⟨E, hE⟩ := hbuilt
  have hs : (⟨100, js "/w", js "w", none, none⟩ : LocalSession) ∈ claudeCodeDiscover w.host := by
    rw [hlist]
    exact List.mem_cons_self
  obtain ⟨e, he, hentry⟩ := entry_of_mem hE hs
  have hpid : e.pid = 100 := hentry.pid
  have hconflict : e.conflict = some 200 := by
    rw [hentry.conflict, hlist]
    decide +kernel
  have hchecked : Checked w e.pid (.tool approveArgs) := by
    rw [hpid]
    exact ⟨⟨100, js "y", false, false, .skill⟩, by rfl, by norm_num, rfl, by decide +kernel⟩
  obtain ⟨hpass, hrefused⟩ := (conflict_iff_refused rfl hpids hE).1 e he _ hchecked
  refine ⟨E, hE, e, he, hpid, hconflict, hrefused 200 hconflict, fun h => ?_⟩
  rw [hpass.mpr h] at hconflict
  cases hconflict

end Conductor.Cli.ConflictAgreement
