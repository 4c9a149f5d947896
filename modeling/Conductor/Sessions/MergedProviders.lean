import Conductor.Discovery.Providers
import Conductor.Lib.Merge
import Conductor.Sessions.ConflictScan

/-! # The snapshot over all providers

Every provider scans the process table with patterns of its own, and the lists
are put together as they are. -/
namespace Conductor.Sessions.MergedProviders
open Conductor.Lib.Merge Conductor.Js.Text Conductor.Sessions.Types
open Conductor.Sessions.RefinedStatus Conductor.Sessions.Snapshot Conductor.Sessions.ConflictScan
open Conductor.Discovery.Providers

/-- The tests of the three providers, on a row of the process table. -/
def tests : List (PsRow → Bool) :=
  [fun p => looksLikeClaude p.command, fun p => AIDER_PATTERN.test p.command,
   fun p => CURSOR_PATTERN.test p.command]

/-- No command is taken by two providers, and of two rows with one pid at most one by any. -/
def MatchedOnce (h : Host) : Prop := KeptOnce (·.pid) tests h.processes

theorem discovered_pids (m : JsString → Bool) (enrich : JsString → Option JsString × Option JsString)
    (h : Host) : (discoverBy m enrich h).map (·.pid) =
      (h.processes.filter fun p => m p.command).map (·.pid) := by
  unfold discoverBy
  rw [List.map_map]
  rfl

theorem merged_pids (h : Host) :
    (allProviders.flatMap fun p => p.discover h).map (·.pid) = merged (·.pid) tests h.processes := by
  simp only [allProviders, tests, merged, List.flatMap_cons, List.flatMap_nil, List.map_append,
    claudeCodeDiscover, aiderDiscover, cursorCliDiscover, discovered_pids, List.map_nil]

theorem discover_all (h : Host) :
    discoverSessions h (js "all") = .ok (allProviders.flatMap fun p => p.discover h) := if_pos rfl

/-- The entries have the pids of the list. -/
theorem entry_pids {env : Env} {disk : Disk} {sessions : List LocalSession} {E : List SnapshotEntry}
    (hE : buildSnapshot env disk sessions = .ok E) : E.map (·.pid) = sessions.map (·.pid) := by
  have hmap : ∀ {l : List LocalSession} {E' : List SnapshotEntry},
      List.Forall₂ (EntryOf env disk sessions) l E' → E'.map (·.pid) = l.map (·.pid) := by
    intro l E' hall
    induction hall with
    | nil => rfl
    | cons hentry _ ih => rw [List.map_cons, List.map_cons, ih, hentry.pid]
  exact hmap (buildSnapshot_entries hE)

/-- The snapshot over all providers names each pid once, and no pid as its own
conflict, exactly when no process is matched twice. -/
theorem merged_snapshot_iff {h : Host} {env : Env} {disk : Disk} {sessions : List LocalSession}
    {E : List SnapshotEntry} (hall : discoverSessions h (js "all") = .ok sessions)
    (hE : buildSnapshot env disk sessions = .ok E) :
    ((E.map (·.pid)).Nodup ∧ ∀ e ∈ E, e.conflict ≠ some e.pid) ↔ MatchedOnce h := by
  have hsessions : sessions = allProviders.flatMap fun p => p.discover h :=
    (Except.ok.inj ((discover_all h).symm.trans hall)).symm
  have hpids : (E.map (·.pid)).Nodup ↔ MatchedOnce h := by
    rw [entry_pids hE, hsessions, merged_pids]
    exact merged_nodup_iff
  refine ⟨fun hd => hpids.mp hd.1, fun hm => ⟨hpids.mpr hm, fun e he hself => ?_⟩⟩
  have hdistinct : DistinctPids sessions := by
    unfold DistinctPids
    rw [← entry_pids hE]
    exact hpids.mpr hm
  obtain ⟨s, hs, hpid, -, hconflict⟩ := entry_conflict hdistinct hE he
  rw [hconflict, hpid] at hself
  obtain ⟨o, ho, hopid⟩ := Option.map_eq_some_iff.mp hself
  exact (collision_symm hs ho).2.1 hopid

/-! ## A prompt that names another agent -/

/-- Processes in one directory, without a transcript. -/
def hostOf (processes : List PsRow) : Host :=
  { processes, lsof := fun _ => some (js "fcwd\nn/w"), processCwd := js "/", git := fun _ => none
    projectsRoot := js "/home/.claude/projects", readdir := fun _ => none, mtimeMs := fun _ => none }

def env : Env := ⟨⟨some, fun _ => false⟩, ⟨[], fun _ => none⟩, 0, none⟩

def sessionAt (pid : Int) : LocalSession := ⟨pid, js "/w", js "w", none, none⟩

/-- Two agents in one directory are in conflict with each other, not with themselves. -/
theorem two_agents_once :
    let h := hostOf [⟨100, 1, js "/usr/local/bin/claude"⟩, ⟨200, 1, js "python /usr/bin/aider"⟩]
    ∃ sessions E, discoverSessions h (js "all") = .ok sessions ∧
      buildSnapshot env (fun _ => none) sessions = .ok E ∧
      (E.map (·.pid)).Nodup ∧ ∀ e ∈ E, e.conflict ≠ some e.pid := by
  intro h
  have hlist : (allProviders.flatMap fun p => p.discover h) = [sessionAt 100, sessionAt 200] := by
    decide +kernel
  have hbuilt : ∃ E, buildSnapshot env (fun _ => none) [sessionAt 100, sessionAt 200] = .ok E :=
    ⟨_, rfl⟩
  obtain ⟨E, hE⟩ := hbuilt
  have hall : discoverSessions h (js "all") = .ok [sessionAt 100, sessionAt 200] :=
    (discover_all h).trans (congrArg _ hlist)
  have hmatched : MatchedOnce h := by
    refine ⟨List.forall_mem_cons.mpr ⟨by decide +kernel, List.forall_mem_singleton.mpr (by decide +kernel)⟩,
      List.pairwise_pair.mpr fun hkey => ?_⟩
    cases hkey
  exact ⟨_, E, hall, hE, (merged_snapshot_iff hall hE).mpr hmatched⟩

/-- A Claude Code session whose prompt mentions aider is listed twice, each entry
in conflict with its own pid. -/
theorem prompt_names_aider :
    let h := hostOf [⟨100, 1, js "/usr/local/bin/claude fix the aider config"⟩]
    ∃ sessions E, discoverSessions h (js "all") = .ok sessions ∧
      buildSnapshot env (fun _ => none) sessions = .ok E ∧
      E.map (·.pid) = [100, 100] ∧ ¬ (E.map (·.pid)).Nodup ∧ ∀ e ∈ E, e.conflict = some e.pid := by
  intro h
  have hlist : (allProviders.flatMap fun p => p.discover h) = [sessionAt 100, sessionAt 100] := by
    decide +kernel
  have hbuilt : ∃ E, buildSnapshot env (fun _ => none) [sessionAt 100, sessionAt 100] = .ok E :=
    ⟨_, rfl⟩
  obtain ⟨E, hE⟩ := hbuilt
  have hpids : E.map (·.pid) = [100, 100] := entry_pids hE
  refine ⟨_, E, (discover_all h).trans (congrArg _ hlist), hE, hpids, fun hdup => ?_, fun e he => ?_⟩
  · rw [hpids] at hdup
    exact (List.nodup_cons.mp hdup).1 List.mem_cons_self
  · obtain ⟨i, s, hi, hentry⟩ := session_of_entry hE he
    have hs : s = sessionAt 100 := by
      have hmem := List.mem_of_getElem? hi
      simp only [List.mem_cons, List.not_mem_nil, or_false, or_self] at hmem
      exact hmem
    rw [hentry.conflict, hentry.pid, hs]
    decide +kernel

end Conductor.Sessions.MergedProviders
