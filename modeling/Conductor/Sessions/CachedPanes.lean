import Conductor.Sessions.Snapshot
import Conductor.Tmux.PaneWalk

/-! # Panes from the cached map

The snapshot asks tmux once and keeps the rows in a map from pids. A pid that tmux
lists more than once has the last of its rows in the map, and a search through the
rows themselves finds the first. -/
namespace Conductor.Sessions.CachedPanes
open Conductor.Lib.Walk Conductor.Js.Text Conductor.Sessions.Types Conductor.Sessions.Snapshot
open Conductor.Tmux.TmuxMap Conductor.Tmux.PaneWalk

variable {t : TmuxHost} {panes : List PaneRow} {pid q : Int}

def lastPane (panes : List PaneRow) (pid : Int) : Option Pane :=
  (panes.reverse.find? fun p => p.pid == pid).map paneOf

theorem lastPane_isSome : (lastPane panes pid).isSome = true ↔ Owned panes pid := by
  simp [lastPane, Owned]

/-! ## The map -/

theorem getTmuxPanesOnce_get? : (getTmuxPanesOnce t).get? pid = lastPane t.panes pid :=
  PidMap.get?_map t.panes PaneRow.pid paneOf pid

/-- The rows that stand for a map have its values. -/
theorem firstPane_cachedRows {m : PidMap Pane} : firstPane (cachedRows m) pid = m.get? pid := by
  have hkeys : ((cachedRows m).map PaneRow.pid).Nodup := by
    have hmap : (cachedRows m).map PaneRow.pid = m.entries.map Prod.fst := by
      rw [cachedRows, List.map_map]
      rfl
    rw [hmap, PidMap.entries_keys]
    exact nodup_eraseDups _
  ext pane
  rw [firstPane_eq_some hkeys]
  constructor
  · intro h
    obtain ⟨row, hrow, rfl, rfl⟩ := h
    obtain ⟨e, he, rfl⟩ := List.mem_map.mp hrow
    exact PidMap.mem_entries.mp he
  · intro h
    exact ⟨_, List.mem_map.mpr ⟨(pid, pane), PidMap.mem_entries.mpr h, rfl⟩, rfl, rfl⟩

theorem findPaneForPid_cached {m : PidMap Pane} (h : 1 < pid) :
    findPaneForPid t pid (some m) = walk m.get? (nextOf t.ppid) 50 pid := by
  have hhost : findPaneForPid t pid (some m) = findPaneForPid ⟨cachedRows m, t.ppid⟩ pid none := rfl
  rw [hhost, findPaneForPid_eq h]
  exact congrArg (fun hit => walk hit (nextOf t.ppid) 50 pid) (funext fun q => firstPane_cachedRows)

/-! ## The fast path -/

/-- The pane of one session, by the map or by the walk over it. -/
def cachedPane (t : TmuxHost) (pid : Int) : Option Pane :=
  match (getTmuxPanesOnce t).get? pid with
  | some direct => some direct
  | none => findPaneForPid t pid (some (getTmuxPanesOnce t))

theorem cachedPane_eq (h : 1 < pid) : cachedPane t pid = walk (lastPane t.panes) (nextOf t.ppid) 50 pid := by
  have hget : PidMap.get? (getTmuxPanesOnce t) = lastPane t.panes := funext fun q => getTmuxPanesOnce_get?
  unfold cachedPane
  rw [findPaneForPid_cached h, hget]
  -- a direct hit is where the walk would stop at once
  cases hpid : lastPane t.panes pid with
  | some direct => rw [walk, hpid]
  | none => rfl

theorem tmuxByPidOf_get? {sessions : List LocalSession} {s : LocalSession} (hs : s ∈ sessions) :
    (tmuxByPidOf t sessions).get? s.pid = some (cachedPane t s.pid) := by
  obtain ⟨o, ho⟩ := Option.isSome_iff_exists.mp
    (List.find?_isSome.mpr ⟨s, List.mem_reverse.mpr hs, by simp⟩ :
      (sessions.reverse.find? fun b => b.pid == s.pid).isSome)
  have hpid : o.pid = s.pid := by simpa using List.find?_some ho
  have hmap : tmuxByPidOf t sessions = sessions.map fun b => (b.pid, cachedPane t b.pid) := rfl
  rw [hmap, PidMap.get?_map, ho, Option.map_some, hpid]

/-- Both ways give the same pane when the nearest process that owns one has the same
session and pane in its first and in its last row. -/
theorem cached_iff {sessions : List LocalSession} {s : LocalSession} (hs : s ∈ sessions) (h : 1 < s.pid) :
    (tmuxByPidOf t sessions).get? s.pid = some (findPaneForPid t s.pid none) ↔
      ∀ q, NearestOwner t s.pid q → firstPane t.panes q = lastPane t.panes q := by
  have hsame : ∀ c, (lastPane t.panes c).isSome = (firstPane t.panes c).isSome := by
    intro c
    rw [Bool.eq_iff_iff, lastPane_isSome, firstPane_isSome]
  rw [tmuxByPidOf_get? hs, Option.some_inj, cachedPane_eq h, findPaneForPid_eq h, walk_eq_walk_iff hsame]
  simp only [stops_iff fun q => lastPane_isSome]
  exact forall_congr' fun q => imp_congr_right fun _ => eq_comm

def shellSession : LocalSession := ⟨7, js "/a", js "a", none, none⟩

/-- Two grouped sessions show one window, and tmux lists its pane for each of them. -/
def groupedSessions : TmuxHost :=
  { panes := [rowAt 7 (js "main") (js "%1"), rowAt 7 (js "phone") (js "%1")], ppid := fun _ => some 1 }

/-- The window of a shell is linked twice into one session, and the agent runs under the shell. -/
def linkedWindow : TmuxHost :=
  { panes := [rowAt 7 (js "work") (js "%1"), rowAt 8 (js "work") (js "%2"), rowAt 7 (js "work") (js "%1")]
    ppid := fun pid => if pid = 9 then some 7 else some 1 }

def agentSession : LocalSession := ⟨9, js "/a", js "a", none, none⟩

theorem cached_iff_shell :
    (∀ q, NearestOwner linkedWindow 9 q → firstPane linkedWindow.panes q = lastPane linkedWindow.panes q) ∧
      (tmuxByPidOf linkedWindow [agentSession]).get? 9 = some (findPaneForPid linkedWindow 9 none) ∧
      findPaneForPid linkedWindow 9 none = some ⟨js "work", js "%1"⟩ := by
  have hagree : ∀ q, NearestOwner linkedWindow 9 q →
      firstPane linkedWindow.panes q = lastPane linkedWindow.panes q := by
    intro q hq
    obtain ⟨-, -, -, howned, -⟩ := hq
    have hq : q = 7 ∨ q = 8 ∨ q = 7 := by simpa [Owned, linkedWindow, rowAt, eq_comm] using howned
    rcases hq with rfl | rfl | rfl <;> rfl
  exact ⟨hagree, (@cached_iff linkedWindow _ _ (List.mem_singleton_self agentSession) (by decide)).mpr hagree,
    by decide +kernel⟩

/-- The map says `phone`, the rows say `main`. -/
theorem grouped_sessions_differ :
    (tmuxByPidOf groupedSessions [shellSession]).get? 7 = some (some ⟨js "phone", js "%1"⟩) ∧
      findPaneForPid groupedSessions 7 none = some ⟨js "main", js "%1"⟩ := by
  decide +kernel

end Conductor.Sessions.CachedPanes
