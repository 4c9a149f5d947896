import Mathlib.Data.List.Find
import Conductor.Sessions.Snapshot
import Conductor.Tmux.Effects

/-! # The conflict of a session, by position and by pid

`buildSnapshot` looks for another position, the inject paths for another pid. -/
namespace Conductor.Sessions.ConflictScan
open Conductor.Sessions.Types Conductor.Sessions.Lock Conductor.Sessions.RefinedStatus
open Conductor.Sessions.Snapshot
open Conductor.Tmux.Effects (collision)

def DistinctPids (sessions : List LocalSession) : Prop := (sessions.map (·.pid)).Nodup

section Scan

variable {fs : Fs} {sessions : List LocalSession} {i : Nat} {s o : LocalSession}

theorem eq_of_pid (hpids : DistinctPids sessions) (hs : s ∈ sessions) (ho : o ∈ sessions)
    (hpid : s.pid = o.pid) : s = o := List.inj_on_of_nodup_map hpids hs ho hpid

theorem position_eq_iff (hpids : DistinctPids sessions) (hi : sessions[i]? = some s) {j : Nat}
    (hj : sessions[j]? = some o) : j = i ↔ o.pid = s.pid := by
  constructor
  · intro h
    subst h
    rw [hi] at hj
    cases hj
    rfl
  · intro h
    have hs : (sessions.map (·.pid))[i]? = some s.pid := by rw [List.getElem?_map, hi, Option.map_some]
    have ho : (sessions.map (·.pid))[j]? = some o.pid := by rw [List.getElem?_map, hj, Option.map_some]
    have hlt : j < (sessions.map (·.pid)).length := (List.getElem?_eq_some_iff.mp ho).1
    exact (List.getElem?_inj hlt hpids).mp (by rw [ho, hs, h])

/-- The scan by position finds what the scan by pid finds. -/
theorem conflictOf_eq (hpids : DistinctPids sessions) (hi : sessions[i]? = some s) :
    conflictOf fs sessions s i = (collision fs sessions s).map (·.pid) := by
  have hcongr : ∀ p ∈ sessions.zipIdx, (p.2 != i && detectConflict fs s.cwd p.1.cwd) =
      ((fun other => other.pid != s.pid && detectConflict fs s.cwd other.cwd) ∘ Prod.fst) p := by
    intro p hp
    have hj : sessions[p.2]? = some p.1 := List.mem_zipIdx_iff_getElem?.mp hp
    have hiff := position_eq_iff hpids hi hj
    have hbne : (p.2 != i) = (p.1.pid != s.pid) := by
      rw [Bool.eq_iff_iff, bne_iff_ne, bne_iff_ne]
      exact not_congr hiff
    rw [Function.comp_apply, hbne]
  have hlist : sessions = sessions.zipIdx.map Prod.fst := (List.zipIdx_map_fst 0 sessions).symm
  unfold conflictOf collision
  rw [List.find?_congr hcongr]
  conv_rhs => rw [hlist, List.find?_map, Option.map_map]
  rfl

theorem conflictMap_get? (hpids : DistinctPids sessions) (hi : sessions[i]? = some s) :
    (conflictMapOf fs sessions).get? s.pid = some ((collision fs sessions s).map (·.pid)) := by
  have hkeys : (conflictMapOf fs sessions).map Prod.fst = sessions.map (·.pid) := by
    unfold conflictMapOf
    rw [List.map_map]
    conv_rhs => rw [← List.zipIdx_map_fst 0 sessions, List.map_map]
    rfl
  rw [← conflictOf_eq hpids hi]
  refine PidMap.get?_of_mem (by rw [hkeys]; exact hpids) ?_
  exact List.mem_map.mpr ⟨(s, i), List.mem_zipIdx_iff_getElem?.mpr hi, rfl⟩

/-- A session in conflict is itself one that the other is in conflict with. -/
theorem collision_symm (hs : s ∈ sessions) (h : collision fs sessions s = some o) :
    o ∈ sessions ∧ o.pid ≠ s.pid ∧ ∃ o', collision fs sessions o = some o' := by
  have ho := List.mem_of_find?_eq_some h
  have hfound := List.find?_some h
  simp only [Bool.and_eq_true, bne_iff_ne] at hfound
  refine ⟨ho, hfound.1, Option.isSome_iff_exists.mp (List.find?_isSome.mpr ⟨s, hs, ?_⟩)⟩
  simp only [Bool.and_eq_true, bne_iff_ne]
  exact ⟨Ne.symm hfound.1, by rw [detectConflict_comm]; exact hfound.2⟩

end Scan

/-- Over distinct pids the conflict of an entry is what the scan by pid finds. -/
theorem entry_conflict {env : Env} {disk : Disk} {sessions : List LocalSession}
    {E : List SnapshotEntry} (hpids : DistinctPids sessions)
    (hE : buildSnapshot env disk sessions = .ok E) {e : SnapshotEntry} (he : e ∈ E) :
    ∃ s ∈ sessions, e.pid = s.pid ∧ e.cwd = s.cwd ∧
      e.conflict = (collision env.fs sessions s).map (·.pid) := by
  obtain ⟨i, s, hi, hentry⟩ := session_of_entry hE he
  refine ⟨s, List.mem_of_getElem? hi, hentry.pid, hentry.cwd, ?_⟩
  rw [hentry.conflict, conflictMap_get? hpids hi, Option.join_some]

end Conductor.Sessions.ConflictScan
