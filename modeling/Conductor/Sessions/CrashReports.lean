import Conductor.Sessions.Schedule

/-! # Sessions that crashed

`deriveRefinedStatus` reports a crash when it is told that the process is gone.
None of its callers tells it, so what they return, and what the cache keeps of it,
is never a crash. -/
namespace Conductor.Sessions.CrashReports
open Conductor.Lib.Runs Conductor.Js.Text Conductor.Js.Values Conductor.Js.JsonText Conductor.Js.Utf8
open Conductor.Jsonl.Parser Conductor.Sessions.Types Conductor.Sessions.Lock
open Conductor.Sessions.RefinedStatus Conductor.Sessions.Suggest Conductor.Sessions.Snapshot
open Conductor.Sessions.Schedule Conductor.Tmux.TmuxMap

/-- The process is gone, its last turn has no stop reason, and no tool is pending. -/
def Crashed (disk : Disk) (alive : Int → Bool) (s : LocalSession) : Prop :=
  alive s.pid = false ∧ ∃ path turn, transcriptOf s = some path ∧
    extractLastAssistantTurn (disk.bytes path) = some turn ∧ isNull turn.stop_reason = true ∧
    extractPendingToolUses (disk.bytes path) = []

/-- The sessions of the list that the statuses call crashed are those that did. -/
structure MapReports (disk : Disk) (alive : Int → Bool) (sessions : List LocalSession)
    (statuses : PidMap RefinedStatus) : Prop where
  crashed : ∀ s ∈ sessions, Crashed disk alive s → statuses.get? s.pid = some .crashed
  running : ∀ s ∈ sessions, alive s.pid = true → statuses.get? s.pid ≠ some .crashed

/-- So do the entries of the snapshot, which suggest a restart. -/
structure SnapshotReports (disk : Disk) (alive : Int → Bool) (sessions : List LocalSession)
    (built : Except JsError (List SnapshotEntry)) : Prop where
  crashed : ∀ s ∈ sessions, Crashed disk alive s →
    ∃ E, built = .ok E ∧ ∃ e ∈ E, e.pid = s.pid ∧ e.status = .crashed ∧ e.action = .restart
  running : ∀ E, built = .ok E → ∀ e ∈ E, alive e.pid = true → e.status ≠ .crashed

theorem statusFrom_crashed {last : Option AssistantTurn} {pending : List ToolUse}
    {mtimeMs : Option Rat} {now : Int} {pidAlive : Option Bool} :
    statusFrom last pending mtimeMs now pidAlive = .crashed ↔
      pidAlive = some false ∧ pending = [] ∧ ∃ turn, last = some turn ∧ isNull turn.stop_reason = true := by
  have hcond : (decide (pidAlive = some false) && last.any fun turn => isNull turn.stop_reason) = true ↔
      pidAlive = some false ∧ ∃ turn, last = some turn ∧ isNull turn.stop_reason = true := by
    rw [Bool.and_eq_true, decide_eq_true_eq, Option.any_eq_true]
  unfold statusFrom
  cases pending with
  | cons u us => simp
  | nil =>
    by_cases h : (decide (pidAlive = some false) && last.any fun turn => isNull turn.stop_reason) = true
    · obtain ⟨hgone, hopen⟩ := hcond.mp h
      rw [if_neg (by simp), if_pos h]
      exact ⟨fun _ => ⟨hgone, rfl, hopen⟩, fun _ => rfl⟩
    · rw [if_neg (by simp), if_neg h]
      refine ⟨fun hstatus => ?_, fun hall => absurd (hcond.mpr ⟨hall.1, hall.2.2⟩) h⟩
      simp only at hstatus
      split at hstatus
      · cases hstatus
      · split at hstatus
        · cases hstatus
        · cases hstatus

/-- Told what became of the process, the derivation finds the sessions that crashed. -/
theorem deriveRefinedStatus_crashed (disk : Disk) (now : Int) (alive : Int → Bool) (s : LocalSession) :
    deriveRefinedStatus disk now s (some (alive s.pid)) = .crashed ↔ Crashed disk alive s := by
  unfold deriveRefinedStatus Crashed
  cases transcriptOf s with
  | none =>
    refine ⟨fun h => (by cases h), fun h => ?_⟩
    obtain ⟨-, path, turn, hpath, -⟩ := h
    cases hpath
  | some path =>
    simp only
    rw [statusFrom_crashed, Option.some.injEq]
    constructor
    · intro h
      obtain ⟨hgone, hpending, turn, hlast, hopen⟩ := h
      exact ⟨hgone, path, turn, rfl, hlast, hopen, hpending⟩
    · intro h
      obtain ⟨hgone, path', turn, hpath, hlast, hopen, hpending⟩ := h
      cases hpath
      exact ⟨hgone, hpending, turn, hlast, hopen⟩

/-! ## No path to a crash -/

/-- Told nothing, it finds none. -/
theorem statusFrom_ne_crashed (last : Option AssistantTurn) (pending : List ToolUse)
    (mtimeMs : Option Rat) (now : Int) : statusFrom last pending mtimeMs now none ≠ .crashed := by
  intro h
  cases (statusFrom_crashed.mp h).1

theorem deriveRefinedStatus_ne_crashed (disk : Disk) (now : Int) (s : LocalSession) :
    deriveRefinedStatus disk now s none ≠ .crashed := by
  unfold deriveRefinedStatus
  cases transcriptOf s with
  | none => exact fun h => by cases h
  | some path => exact statusFrom_ne_crashed _ _ _ _

theorem derived_ne_crashed {start : State} {es : List Event} {lo hi : Int} {o : LocalSession}
    {status : RefinedStatus} (h : Derived start es lo hi o status) : status ≠ .crashed := by
  unfold Derived at h
  cases hpath : transcriptOf o with
  | none =>
    rw [hpath] at h
    rw [show status = .idle from h]
    exact fun he => by cases he
  | some path =>
    rw [hpath] at h
    obtain ⟨u₁, u₂, u₃, u₄, -, -, -, -, rfl⟩ := h
    exact statusFrom_ne_crashed _ _ _ _

section Run

variable {now : Int} {disk : Disk} {es : List Event} {st : State}

/-- Whatever calls came before, the cache holds no crash. -/
theorem cache_ne_crashed (h : exec step (init now disk) es = some st) {c : Cache}
    (hc : st.cache = some c) : ∀ p ∈ c.statuses, p.2 ≠ .crashed := by
  have hinv : Inv False (init now disk) es st := inv_run h fun hf => hf.elim
  obtain ⟨began, hderivation, -⟩ := hinv.cache c hc
  intro p hp
  obtain ⟨i, hi, rfl⟩ := List.getElem_of_mem hp
  have hlt : i < st.filledFrom.length := by
    rw [hderivation.pairs.length_eq]
    exact hi
  exact derived_ne_crashed ((List.forall₂_iff_get.mp hderivation.pairs).2 i hlt hi).2

theorem refinedStatusFor_ne_crashed (h : exec step (init now disk) es = some st)
    (sessions : List LocalSession) (pid : Int) :
    (refinedStatusFor st.disk st.cache st.now sessions).get? pid ≠ some .crashed := by
  intro hget
  have hmem := PidMap.mem_of_get? hget
  unfold refinedStatusFor at hmem
  cases hfresh : fresh st.cache st.now with
  | some c =>
    rw [hfresh] at hmem
    exact cache_ne_crashed h (fresh_some hfresh).1 _ hmem rfl
  | none =>
    rw [hfresh] at hmem
    obtain ⟨s, -, hs⟩ := List.mem_map.mp hmem
    exact deriveRefinedStatus_ne_crashed _ _ _ (Prod.mk.inj hs).2

theorem entry_ne_crashed (h : exec step (init now disk) es = some st) {fs : Fs} {tmux : TmuxHost}
    {sessions : List LocalSession} {E : List SnapshotEntry}
    (hE : buildSnapshot ⟨fs, tmux, st.now, st.cache⟩ st.disk sessions = .ok E) {e : SnapshotEntry}
    (he : e ∈ E) : e.status ≠ .crashed := by
  obtain ⟨i, s, -, hentry⟩ := session_of_entry hE he
  intro hcrashed
  have hstatus := hentry.status.symm.trans hcrashed
  unfold statusAt at hstatus
  cases hget : (refinedStatusFor st.disk st.cache st.now sessions).get? s.pid with
  | none =>
    rw [hget] at hstatus
    cases hstatus
  | some status =>
    rw [hget] at hstatus
    exact refinedStatusFor_ne_crashed h sessions s.pid (hget.trans (congrArg some hstatus))

/-- After every run of calls: the statuses and the snapshot of a list report the crashes
among its sessions, exactly when there are none. -/
theorem crashes_reported_iff (h : exec step (init now disk) es = some st) (alive : Int → Bool)
    (fs : Fs) (tmux : TmuxHost) (sessions : List LocalSession) :
    (MapReports st.disk alive sessions (refinedStatusFor st.disk st.cache st.now sessions) ∧
      SnapshotReports st.disk alive sessions
        (buildSnapshot ⟨fs, tmux, st.now, st.cache⟩ st.disk sessions)) ↔
      ∀ s ∈ sessions, ¬ Crashed st.disk alive s := by
  constructor
  · intro hreports s hs hcrashed
    exact refinedStatusFor_ne_crashed h sessions s.pid (hreports.1.crashed s hs hcrashed)
  · intro hnone
    refine ⟨⟨fun s hs hcrashed => absurd hcrashed (hnone s hs), fun s _ _ => ?_⟩,
      ⟨fun s hs hcrashed => absurd hcrashed (hnone s hs), fun E hE e he _ => entry_ne_crashed h hE he⟩⟩
    exact refinedStatusFor_ne_crashed h sessions s.pid

end Run

/-- The last row of a turn that was cut off. -/
def openTurn : TranscriptFile :=
  ⟨encode (stringify (.obj [(js "type", .str (js "assistant")),
    (js "message", .obj [(js "role", .str (js "assistant")), (js "content", .arr []),
      (js "stop_reason", .null)])])) ++ [10], 0⟩

def cutOffDisk : Disk := fun path => if path = js "/a.jsonl" then some openTurn else none

theorem sessionA_crashed (alive : Int → Bool) : Crashed cutOffDisk alive sessionA ↔ alive 100 = false := by
  have hlast : (extractLastAssistantTurn (cutOffDisk.bytes (js "/a.jsonl"))).any
      (fun turn => isNull turn.stop_reason) = true := by decide +kernel
  have hpending : (extractPendingToolUses (cutOffDisk.bytes (js "/a.jsonl"))).isEmpty = true := by
    decide +kernel
  rw [Option.any_eq_true] at hlast
  obtain ⟨turn, hturn, hopen⟩ := hlast
  exact ⟨fun h => h.1, fun h => ⟨h, js "/a.jsonl", turn, rfl, hturn, hopen, List.isEmpty_iff.mp hpending⟩⟩

/-- While its process runs, nothing has to be reported of the session. -/
theorem running_reported :
    MapReports cutOffDisk (fun _ => true) [sessionA] (refinedStatusFor cutOffDisk none 100000 [sessionA]) ∧
      SnapshotReports cutOffDisk (fun _ => true) [sessionA]
        (buildSnapshot ⟨⟨some, fun _ => false⟩, ⟨[], fun _ => none⟩, 100000, none⟩ cutOffDisk [sessionA]) := by
  have hrun : exec step (init 100000 cutOffDisk) [] = some (init 100000 cutOffDisk) := rfl
  refine (crashes_reported_iff hrun (fun _ => true) _ _ [sessionA]).mpr fun s hs hcrashed => ?_
  cases hcrashed.1

/-- When it is gone, the session that it left is called idle. -/
theorem crash_called_idle :
    let alive : Int → Bool := fun _ => false
    Crashed cutOffDisk alive sessionA ∧
      deriveRefinedStatus cutOffDisk 100000 sessionA (some (alive 100)) = .crashed ∧
      (refinedStatusFor cutOffDisk none 100000 [sessionA]).get? 100 = some .idle ∧
      ∃ E, buildSnapshot ⟨⟨some, fun _ => false⟩, ⟨[], fun _ => none⟩, 100000, none⟩ cutOffDisk [sessionA] =
        .ok E ∧ ∃ e ∈ E, e.pid = 100 ∧ e.status = .idle := by
  intro alive
  have hcrashed : Crashed cutOffDisk alive sessionA := (sessionA_crashed alive).mpr rfl
  refine ⟨hcrashed, (deriveRefinedStatus_crashed cutOffDisk 100000 alive sessionA).mpr hcrashed,
    by decide +kernel, ?_⟩
  have hbuilt : (buildSnapshot ⟨⟨some, fun _ => false⟩, ⟨[], fun _ => none⟩, 100000, none⟩ cutOffDisk
      [sessionA]).toBool = true := by decide +kernel
  obtain ⟨E, hE⟩ := exists_of_toBool hbuilt
  obtain ⟨e, he, hentry⟩ := entry_of_mem hE List.mem_cons_self
  refine ⟨E, hE, e, he, hentry.pid, ?_⟩
  rw [hentry.status]
  decide +kernel

end Conductor.Sessions.CrashReports
