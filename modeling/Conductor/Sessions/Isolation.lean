import Mathlib.Data.List.Nodup
import Conductor.Sessions.Snapshot

/-! # What one transcript can do to the entries of the others

Two calls of `buildSnapshot` that differ in the content of one file. -/
namespace Conductor.Sessions.Isolation
open Conductor.Js.Text Conductor.Js.Values Conductor.Jsonl.Parser
open Conductor.Sessions.Types Conductor.Sessions.RefinedStatus Conductor.Sessions.Snapshot

/-- One entry per session, in list order. -/
def OnePerSession (sessions : List LocalSession) (E : List SnapshotEntry) : Prop :=
  E.map (fun e => (e.pid, e.repo, e.branch, e.cwd)) =
    sessions.map fun s => (s.pid, s.repoName, s.branch, s.cwd)

/-- The disk after the transcript at `path` is replaced. -/
def replaced (disk : Disk) (path : JsString) (content : Option TranscriptFile) : Disk :=
  Function.update disk path content

/-- Both calls resolve, and every session of another file keeps its entry. -/
def Isolated (env : Env) (disk : Disk) (sessions : List LocalSession) (path : JsString)
    (content : Option TranscriptFile) : Prop :=
  ∃ E E', buildSnapshot env disk sessions = .ok E ∧
    buildSnapshot env (replaced disk path content) sessions = .ok E' ∧
    OnePerSession sessions E ∧ OnePerSession sessions E' ∧
    ∀ (i : Nat) (s : LocalSession), sessions[i]? = some s → s.transcriptPath ≠ some path → E[i]? = E'[i]?

/-- The file of `o` reads the same: the same summary, and the same status unless
statuses come from the cache anyway. -/
def SameReading (env : Env) (disk disk' : Disk) (o : LocalSession) : Prop :=
  ((fresh env.cache env.now).isSome = true ∨
    deriveRefinedStatus disk env.now o none = deriveRefinedStatus disk' env.now o none) ∧
  summaryOf (lastTurnOf disk o) = summaryOf (lastTurnOf disk' o)

/-- No session of another file answers to the pid of a session of this one, or
the two contents read the same. -/
def Unshared (env : Env) (disk disk' : Disk) (sessions : List LocalSession) (path : JsString) : Prop :=
  ∀ s ∈ sessions, s.transcriptPath ≠ some path → ∀ o, owner sessions s.pid = some o →
    o.transcriptPath = some path → SameReading env disk disk' o

/-! ## Sessions of other files -/

theorem replaced_ne {disk : Disk} {path other : JsString} {content : Option TranscriptFile}
    (h : other ≠ path) : replaced disk path content other = disk other := by
  unfold replaced
  rw [Function.update_of_ne h]

theorem transcriptOf_ne {o : LocalSession} {path p : JsString} (ho : o.transcriptPath ≠ some path)
    (hp : transcriptOf o = some p) : p ≠ path := by
  unfold transcriptOf at hp
  obtain ⟨hsome, -⟩ := Option.filter_eq_some_iff.mp hp
  intro he
  rw [he] at hsome
  exact ho hsome

theorem sameReading_of_ne {env : Env} {disk : Disk} {path : JsString}
    {content : Option TranscriptFile} {o : LocalSession} (ho : o.transcriptPath ≠ some path) :
    SameReading env disk (replaced disk path content) o := by
  unfold SameReading deriveRefinedStatus lastTurnOf Disk.bytes
  cases hp : transcriptOf o with
  | none => exact ⟨Or.inr rfl, rfl⟩
  | some p =>
    have hd : replaced disk path content p = disk p := replaced_ne (transcriptOf_ne ho hp)
    simp [hd]

/-! ## The status and the summary of a pid -/

theorem statusAt_fresh {env : Env} {disk disk' : Disk} {sessions : List LocalSession} {pid : Int}
    (h : (fresh env.cache env.now).isSome = true) :
    statusAt env disk sessions pid = statusAt env disk' sessions pid := by
  obtain ⟨c, hc⟩ := Option.isSome_iff_exists.mp h
  unfold statusAt refinedStatusFor
  rw [hc]

theorem statusAt_derived {env : Env} {disk : Disk} {sessions : List LocalSession} {pid : Int}
    {o : LocalSession} (h : fresh env.cache env.now = none) (ho : owner sessions pid = some o) :
    statusAt env disk sessions pid = deriveRefinedStatus disk env.now o none := by
  unfold statusAt refinedStatusFor
  simp only [h]
  rw [PidMap.get?_map, show sessions.reverse.find? (fun b => b.pid == pid) = some o from ho]
  rfl

/-- Equal readings of the owner are what equal statuses and summaries of a pid
come from. -/
theorem sameReading_iff {env : Env} {disk disk' : Disk} {sessions : List LocalSession} {pid : Int}
    {o : LocalSession} (ho : owner sessions pid = some o)
    (hr : readableTurn (lastTurnOf disk o) = true) (hr' : readableTurn (lastTurnOf disk' o) = true) :
    SameReading env disk disk' o ↔
      statusAt env disk sessions pid = statusAt env disk' sessions pid ∧
        summaryAt disk sessions pid = summaryAt disk' sessions pid := by
  obtain ⟨w, hw⟩ := summaryOf_ok.mpr hr
  obtain ⟨w', hw'⟩ := summaryOf_ok.mpr hr'
  have hsum : summaryOf (lastTurnOf disk o) = summaryOf (lastTurnOf disk' o) ↔
      summaryAt disk sessions pid = summaryAt disk' sessions pid := by
    simp [summaryAt, ho, hw, hw', Except.toOption]
  unfold SameReading
  rw [hsum]
  cases hf : fresh env.cache env.now with
  | none =>
    rw [statusAt_derived hf ho, statusAt_derived hf ho]
    simp
  | some c =>
    have hs : statusAt env disk sessions pid = statusAt env disk' sessions pid :=
      statusAt_fresh (by rw [hf]; rfl)
    simp [hs]

/-! ## Entries -/

theorem onePerSession_of_entries {env : Env} {disk : Disk} {sessions l : List LocalSession}
    {E : List SnapshotEntry} (h : List.Forall₂ (EntryOf env disk sessions) l E) :
    OnePerSession l E := by
  unfold OnePerSession
  induction h with
  | nil => rfl
  | cons he _ ih =>
    rw [List.map_cons, List.map_cons, ih, he.pid, he.repo, he.branch, he.cwd]

/-- The entry of a session is a function of the status and the summary of its pid. -/
theorem entry_eq_iff {env : Env} {disk disk' : Disk} {sessions : List LocalSession}
    {s : LocalSession} {e e' : SnapshotEntry} (he : EntryOf env disk sessions s e)
    (he' : EntryOf env disk' sessions s e') :
    e = e' ↔ statusAt env disk sessions s.pid = statusAt env disk' sessions s.pid ∧
      summaryAt disk sessions s.pid = summaryAt disk' sessions s.pid := by
  refine ⟨fun h => ?_, fun h => ?_⟩
  · subst h
    exact ⟨he.status.symm.trans he'.status, he.summary.trans he'.summary.symm⟩
  · have hstatus : e.status = e'.status := by rw [he.status, he'.status, h.1]
    have hsummary : e.last_assistant_summary = e'.last_assistant_summary := by
      have hs := he.summary
      rw [h.2, he'.summary] at hs
      exact (Option.some.inj hs).symm
    obtain ⟨sug, hsug, h1, h2, h3⟩ := he.suggestion
    obtain ⟨sug', hsug', h1', h2', h3'⟩ := he'.suggestion
    rw [hstatus, hsummary, hsug'] at hsug
    cases hsug
    cases e
    cases e'
    simp only [SnapshotEntry.mk.injEq]
    exact ⟨he.pid.trans he'.pid.symm, he.repo.trans he'.repo.symm, he.branch.trans he'.branch.symm,
      he.cwd.trans he'.cwd.symm, hstatus, hsummary, h1.trans h1'.symm, h2.trans h2'.symm,
      h3.trans h3'.symm, he.tmux.trans he'.tmux.symm, he.conflict.trans he'.conflict.symm⟩

theorem entries_at {env : Env} {disk : Disk} {sessions : List LocalSession} {E : List SnapshotEntry}
    (h : buildSnapshot env disk sessions = .ok E) {i : Nat} {s : LocalSession}
    (hs : sessions[i]? = some s) : ∃ e, E[i]? = some e ∧ EntryOf env disk sessions s e := by
  have hall := buildSnapshot_entries h
  obtain ⟨hi, rfl⟩ := List.getElem?_eq_some_iff.mp hs
  have hE : i < E.length := by rw [← hall.length_eq]; exact hi
  exact ⟨E[i], List.getElem?_eq_getElem hE, (List.forall₂_iff_get.mp hall).2 i hi hE⟩

/-- Replacing a transcript leaves the entries of the other files alone exactly
when both contents can be read and no pid is shared across files. -/
theorem snapshot_isolated_iff (env : Env) (disk : Disk) (sessions : List LocalSession)
    (path : JsString) (content : Option TranscriptFile) :
    Isolated env disk sessions path content ↔
      Readable env disk sessions ∧ Readable env (replaced disk path content) sessions ∧
        Unshared env disk (replaced disk path content) sessions path := by
  refine ⟨fun h => ?_, fun h => ?_⟩
  · obtain ⟨E, E', hE, hE', -, -, heq⟩ := h
    have hread := buildSnapshot_ok_iff.mp ⟨E, hE⟩
    have hread' := buildSnapshot_ok_iff.mp ⟨E', hE'⟩
    refine ⟨hread, hread', fun s hs hne o ho hpath => ?_⟩
    obtain ⟨i, hi⟩ := List.mem_iff_getElem?.mp hs
    obtain ⟨e, hei, he⟩ := entries_at hE hi
    obtain ⟨e', hei', he'⟩ := entries_at hE' hi
    have hsame : e = e' := by
      have := heq i s hi hne
      rw [hei, hei'] at this
      exact Option.some.inj this
    have hmem := (owner_mem ho).1
    exact (sameReading_iff ho (hread.turns o hmem) (hread'.turns o hmem)).mpr
      ((entry_eq_iff he he').mp hsame)
  · obtain ⟨hread, hread', hun⟩ := h
    obtain ⟨E, hE⟩ := buildSnapshot_ok_iff.mpr hread
    obtain ⟨E', hE'⟩ := buildSnapshot_ok_iff.mpr hread'
    refine ⟨E, E', hE, hE', onePerSession_of_entries (buildSnapshot_entries hE),
      onePerSession_of_entries (buildSnapshot_entries hE'), fun i s hi hne => ?_⟩
    obtain ⟨e, hei, he⟩ := entries_at hE hi
    obtain ⟨e', hei', he'⟩ := entries_at hE' hi
    have hs := List.mem_of_getElem? hi
    obtain ⟨o, ho⟩ := owner_isSome hs
    have hmem := (owner_mem ho).1
    have hsame : SameReading env disk (replaced disk path content) o := by
      by_cases hpath : o.transcriptPath = some path
      · exact hun s hs hne o ho hpath
      · exact sameReading_of_ne hpath
    rw [hei, hei', (entry_eq_iff he he').mpr
      ((sameReading_iff ho (hread.turns o hmem) (hread'.turns o hmem)).mp hsame)]

/-! ## One transcript that takes the others down -/

def sessionB : LocalSession := ⟨200, js "/b", js "b", none, some (js "/b.jsonl")⟩
def twoSessions : List LocalSession := [sessionA, sessionB]

/-- Both transcripts hold a turn with a text block. -/
def twoTranscripts : Disk := fun p =>
  if p = js "/a.jsonl" ∨ p = js "/b.jsonl" then some (oneRow (.arr [textBlock (.str (js "done"))]) 0)
  else none

def quietEnv : Env :=
  { fs := { realpath := some, stat := fun _ => false }
    tmux := { panes := [], ppid := fun _ => none }, now := 100000, cache := none }

/-- A plain string as the content of the last row of one session, and there is
no snapshot of either. -/
theorem string_content_rejects :
    (buildSnapshot quietEnv twoTranscripts twoSessions).toBool = true ∧
      (buildSnapshot quietEnv (replaced twoTranscripts (js "/b.jsonl")
        (some (oneRow (.str (js "done")) 0))) twoSessions).toBool = false ∧
      ¬ Isolated quietEnv twoTranscripts twoSessions (js "/b.jsonl")
        (some (oneRow (.str (js "done")) 0)) := by
  have hfail : (buildSnapshot quietEnv (replaced twoTranscripts (js "/b.jsonl")
      (some (oneRow (.str (js "done")) 0))) twoSessions).toBool = false := by decide +kernel
  refine ⟨by decide +kernel, hfail, fun h => ?_⟩
  obtain ⟨E, E', -, hE', -⟩ := h
  rw [hE'] at hfail
  cases hfail

end Conductor.Sessions.Isolation
