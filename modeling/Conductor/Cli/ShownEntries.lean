import Conductor.Cli.ConflictAgreement
import Conductor.Cli.InjectAgreement
import Conductor.Sessions.CachedPanes

/-! # An entry says what an inject would do

The pane and the conflict of a snapshot entry come from a cached map and from a scan
by position, those of an inject from a fresh list of panes and a scan by pid. On the
same machine they decide alike: from the entry alone one knows how an inject for its
pid ends, which keys are typed into which pane, and what is written to the audit log. -/
namespace Conductor.Cli.ShownEntries
open Conductor.Lib.Walk Conductor.Js Conductor.Js.Text Conductor.Js.Values Conductor.Sessions.Types
open Conductor.Sessions.Lock Conductor.Sessions.Snapshot Conductor.Sessions.ConflictScan
open Conductor.Sessions.RefinedStatus Conductor.Sessions.CachedPanes
open Conductor.Discovery.Providers Conductor.Tmux.TmuxMap Conductor.Tmux.PaneWalk Conductor.Tmux.Effects
open Conductor.Mcp.Tools Conductor.Cli.InjectCmd Conductor.Cli.ConflictAgreement Conductor.Cli.InjectAgreement

/-- The snapshot is taken on the machine that the inject runs on. -/
structure SameMachine (w : World) (env : Env) : Prop where
  fs : env.fs = w.fs
  tmux : env.tmux = w.tmux

/-- The process whose pane is shown for `pid` has one session and pane. -/
def OnePane (t : TmuxHost) (pid : Int) : Prop :=
  ∀ q, NearestOwner t pid q → firstPane t.panes q = lastPane t.panes q

/-- What the entry promises of an inject for its pid. -/
def promised (sendFails : Bool) (e : SnapshotEntry) (a : Ask) : Ending × List Trace :=
  match e.tmux with
  | none => (.noPane, [])
  | some pane => match if a.force then none else e.conflict with
    | some other => (.collision other, [])
    | none =>
      if a.dryRun then (.dryRun, [])
      else if sendFails then (.sendFailed, [.keys (sendKeys pane.pane a.text)])
      else (.sent, [.keys (sendKeys pane.pane a.text), .audit
        { ts := .finite 0, pid := .finite e.pid, repo := e.repo, action := .inject
          text := some a.text, source := a.source, confidence := none, reason := none }])

variable {w : World} {env : Env} {disk : Disk} {E : List SnapshotEntry} {e : SnapshotEntry} {a : Ask}

theorem cachedPane_eq_findPane {t : TmuxHost} {pid : Int} (hone : OnePane t pid) (h : 1 < pid) :
    cachedPane t pid = findPaneForPid t pid none := by
  have hsome : ∀ c, (lastPane t.panes c).isSome = (firstPane t.panes c).isSome := by
    intro c
    rw [Bool.eq_iff_iff, lastPane_isSome, firstPane_isSome]
  rw [cachedPane_eq h, findPaneForPid_eq h, walk_eq_walk_iff hsome]
  intro q hq
  exact (hone q ((stops_iff fun c => lastPane_isSome).mp hq)).symm

/-- The pane of an entry is the one that an inject finds. -/
theorem entry_pane {sessions : List LocalSession} {s : LocalSession} (hs : s ∈ sessions)
    (hentry : EntryOf env disk sessions s e) (hone : OnePane env.tmux e.pid) (h : 1 < e.pid) :
    e.tmux = findPaneForPid env.tmux e.pid none := by
  rw [hentry.pid] at hone h ⊢
  rw [hentry.tmux, tmuxByPidOf_get? hs, Option.join_some, cachedPane_eq_findPane hone h]

/-- The lock stops an inject for the session of an entry at the conflict of the entry. -/
theorem entry_lock {s : LocalSession} (hfs : env.fs = w.fs)
    (hpids : DistinctPids (claudeCodeDiscover w.host)) (hs : s ∈ claudeCodeDiscover w.host)
    (hconflict : e.conflict = (collision env.fs (claudeCodeDiscover w.host) s).map (·.pid)) (force : Bool) :
    (lockConflict w force (targetSession w s.pid)).map (fun both => both.2.pid) =
      if force then none else e.conflict := by
  cases force with
  | true => rfl
  | false =>
    rw [lockConflict_eq hpids hs, hconflict, hfs, Option.map_map]
    rfl

/-- An inject for the pid of an entry does what the entry promises. -/
theorem injectAsked_eq (hsame : SameMachine w env) (hpids : DistinctPids (claudeCodeDiscover w.host))
    (hE : buildSnapshot env disk (claudeCodeDiscover w.host) = .ok E) (he : e ∈ E)
    (hone : OnePane w.tmux e.pid) (h : 1 < e.pid) (ha : a.pid = e.pid) :
    injectAsked w a = promised w.sendFailure.isSome e a := by
  obtain ⟨i, s, hi, hentry⟩ := session_of_entry hE he
  have hs : s ∈ claudeCodeDiscover w.host := List.mem_of_getElem? hi
  have hpane : findPaneForPid w.tmux a.pid none = e.tmux := by
    rw [← hsame.tmux] at hone ⊢
    rw [ha]
    exact (entry_pane hs hentry hone h).symm
  have hconflict : e.conflict = (collision env.fs (claudeCodeDiscover w.host) s).map (·.pid) := by
    rw [hentry.conflict, conflictMap_get? hpids hi, Option.join_some]
  have htarget : targetSession w a.pid = targetSession w s.pid := by rw [ha, hentry.pid]
  have hlock := entry_lock hsame.fs hpids hs hconflict a.force
  have hrepo : repoSlugOf (targetSession w s.pid) = e.repo := by
    rw [targetSession_eq hpids hs, hentry.repo]
    rfl
  unfold injectAsked promised
  rw [hpane, htarget]
  cases e.tmux with
  | none => rfl
  | some pane =>
    cases hl : lockConflict w a.force (targetSession w s.pid) with
    | some both =>
      rw [hl, Option.map_some] at hlock
      simp only [← hlock]
    | none =>
      rw [hl, Option.map_none] at hlock
      simp only [← hlock, hrepo, ha]
      cases a.dryRun with
      | true => rfl
      | false =>
        cases w.sendFailure with
        | some message => rfl
        | none => rfl

/-- A call of the tool or of the command ends as what is asked decides, and leaves that. -/
theorem inject_decided {d : Ending × List Trace} (hd : injectAsked w a = d) (h : 1 < a.pid) :
    (∀ args, AskedOfTool args a →
      (∀ ending, ToolEnds a.pid (injectTool w args) ending ↔ ending = d.1) ∧
      traces (injectTool w args).effects = d.2) ∧
    ∀ f now, a.text ≠ [] → AskedOfCmd f a →
      (∀ ending, CmdEnds a.pid (injectCmd { w with now := now } f) ending ↔ ending = d.1) ∧
      traces (injectCmd { w with now := now } f).effects = d.2 := by
  subst hd
  refine ⟨fun args hargs => ?_, fun f now htext hf => ?_⟩
  · obtain ⟨hends, hleft⟩ := tool_asked (w := w) hargs
    exact ⟨fun ending => ⟨fun hending => toolEnds_unique hending hends, fun hending => hending ▸ hends⟩, hleft⟩
  · obtain ⟨hends, hleft⟩ := cmd_asked (w := w) (by omega) htext hf now
    exact ⟨fun ending => ⟨fun hending => cmdEnds_unique hending hends, fun hending => hending ▸ hends⟩, hleft⟩

/-- Two sessions in one directory, the first one in a pane. -/
def sharedDirectory : World := twoProcesses claudeCommand claudeCommand (js "/w")

def sharedEnv : Env := ⟨sharedDirectory.fs, sharedDirectory.tmux, sharedDirectory.now, none⟩

end Conductor.Cli.ShownEntries
