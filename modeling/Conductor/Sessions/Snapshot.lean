import Mathlib.Logic.Function.Basic
import Conductor.Sessions.Lock
import Conductor.Sessions.RefinedStatus
import Conductor.Sessions.Suggest
import Conductor.Tmux.TmuxMap

/-! # The orchestrator snapshot

`buildSnapshot` collects a status, a summary, a conflict and a pane for every
pid of the list and hands them to the pure `composeSnapshot`. The reads of the
summary expression are not guarded: whatever JSON a transcript holds, they
either find a value or throw. `generated_at` and the constant `todo_link` are
left out. -/
namespace Conductor.Sessions.Snapshot
open Conductor.Js.Text Conductor.Js.Values Conductor.Js.JsonText Conductor.Js.Utf8 Conductor.Jsonl.Parser
open Conductor.Sessions.Types Conductor.Sessions.Lock Conductor.Sessions.RefinedStatus
open Conductor.Sessions.Suggest Conductor.Tmux.TmuxMap

structure SnapshotEntry where
  pid : Int
  repo : JsString
  branch : Option JsString
  cwd : JsString
  status : RefinedStatus
  last_assistant_summary : Json
  suggestion : JsString
  action : Action
  confidence : Confidence
  tmux : Option Pane
  conflict : Option Int

/-! ## The summary -/

/-- `blocks.find(b => b.type === "text")`. -/
def findText : List Json → Except JsError (Option Json)
  | [] => pure none
  | b :: bs => do
    let type ← prop b (js "type")
    if isText type (js "text") then pure (some b) else findText bs

/-- `blocks.find(b => b.type === "text")?.text`. -/
def textOfBlocks (blocks : List Json) : Except JsError (Option Json) := do
  match ← findText blocks with
  | none => pure none
  | some b => prop b (js "text")

/-- `last?.content?.find(b => b.type === "text")?.text`. -/
def firstText : Option AssistantTurn → Except JsError (Option Json)
  | none => pure none
  | some turn => match turn.content with
    | .null => pure none
    | .arr blocks => textOfBlocks blocks
    | _ => throw (.typeError (js "find"))

/-- `v?.slice(0, 200) ?? null`: strings and arrays have a `slice`. -/
def slice200 : Option Json → Except JsError Json
  | none | some .null => pure .null
  | some (.str s) => pure (.str (s.take 200))
  | some (.arr xs) => pure (.arr (xs.take 200))
  | some _ => throw (.typeError (js "slice"))

def summaryOf (last : Option AssistantTurn) : Except JsError Json := do
  let text ← firstText last
  slice200 text

def lastTurnOf (disk : Disk) (s : LocalSession) : Option AssistantTurn := do
  let path ← transcriptOf s
  extractLastAssistantTurn (disk.bytes path)

/-- The value that the loop over the sessions stores for one of them. -/
def summaryFor (disk : Disk) (s : LocalSession) : Except JsError Json :=
  match transcriptOf s with
  | none => pure .null
  | some path => summaryOf (extractLastAssistantTurn (disk.bytes path))

/-! ## Conflicts and panes -/

/-- The pid of the first session at another position whose cwd conflicts. -/
def conflictOf (fs : Fs) (sessions : List LocalSession) (s : LocalSession) (i : Nat) : Option Int :=
  (sessions.zipIdx.find? fun p => p.2 != i && detectConflict fs s.cwd p.1.cwd).map fun p => p.1.pid

def conflictMapOf (fs : Fs) (sessions : List LocalSession) : PidMap (Option Int) :=
  sessions.zipIdx.map fun p => (p.1.pid, conflictOf fs sessions p.1 p.2)

def getTmuxPanesOnce (t : TmuxHost) : PidMap Pane :=
  t.panes.map fun r => (r.pid, ⟨r.session, r.pane⟩)

def tmuxByPidOf (t : TmuxHost) (sessions : List LocalSession) : PidMap (Option Pane) :=
  let tmuxCache := getTmuxPanesOnce t
  sessions.map fun s =>
    (s.pid, match tmuxCache.get? s.pid with
      | some direct => some direct
      | none => findPaneForPid t s.pid (some tmuxCache))

/-! ## The composition -/

/-- The entry of one session. -/
def entryFor (statusMap : PidMap RefinedStatus) (lastByPid : PidMap Json)
    (conflictMap : PidMap (Option Int)) (tmuxByPid : Option (PidMap (Option Pane)))
    (s : LocalSession) : Except JsError SnapshotEntry := do
  let status := (statusMap.get? s.pid).getD .idle
  let lastSummary := (lastByPid.get? s.pid).getD .null
  let sug ← suggestNext status lastSummary
  return { pid := s.pid, repo := s.repoName, branch := s.branch, cwd := s.cwd, status
           last_assistant_summary := lastSummary, suggestion := sug.text, action := sug.action
           confidence := sug.confidence
           tmux := (tmuxByPid.bind fun m => m.get? s.pid).join
           conflict := (conflictMap.get? s.pid).join }

def composeSnapshot (sessions : List LocalSession) (statusMap : PidMap RefinedStatus)
    (lastByPid : PidMap Json) (conflictMap : PidMap (Option Int))
    (tmuxByPid : Option (PidMap (Option Pane))) : Except JsError (List SnapshotEntry) :=
  sessions.mapM (entryFor statusMap lastByPid conflictMap tmuxByPid)

/-- What a call reads besides the transcripts. -/
structure Env where
  fs : Fs
  tmux : TmuxHost
  now : Int
  cache : Option Cache

def buildSnapshot (env : Env) (disk : Disk) (sessions : List LocalSession) :
    Except JsError (List SnapshotEntry) := do
  let statusMap := refinedStatusFor disk env.cache env.now sessions
  let lastByPid ← sessions.mapM fun s => do
    let summary ← summaryFor disk s
    return (s.pid, summary)
  composeSnapshot sessions statusMap lastByPid (conflictMapOf env.fs sessions)
    (some (tmuxByPidOf env.tmux sessions))

/-! ## Which turns can be summarised -/

/-- Values that `slice200` accepts. -/
def sliceable : Option Json → Bool
  | none | some .null | some (.str _) | some (.arr _) => true
  | some _ => false

/-- No null stands before the first text block, and that block can be cut. -/
def readableBlocks : List Json → Bool
  | [] => true
  | b :: bs => !isNull b &&
      if isText (optProp (some b) (js "type")) (js "text") then sliceable (optProp (some b) (js "text"))
      else readableBlocks bs

def readableTurn : Option AssistantTurn → Bool
  | none => true
  | some turn => match turn.content with
    | .null => true
    | .arr blocks => readableBlocks blocks
    | _ => false

/-- The first text block holds an array instead of a string. -/
def listText (last : Option AssistantTurn) : Bool :=
  match firstText last with
  | .ok (some (.arr _)) => true
  | _ => false

theorem slice200_ok {v : Option Json} : (∃ w, slice200 v = .ok w) ↔ sliceable v = true := by
  have throws : ∀ {e : JsError}, ¬ ∃ w : Json, (throw e : Except JsError Json) = .ok w := by
    intro e h
    obtain ⟨w, hw⟩ := h
    cases hw
  cases v with
  | none => exact ⟨fun _ => rfl, fun _ => ⟨_, rfl⟩⟩
  | some v =>
    cases v with
    | null => exact ⟨fun _ => rfl, fun _ => ⟨_, rfl⟩⟩
    | str s => exact ⟨fun _ => rfl, fun _ => ⟨_, rfl⟩⟩
    | arr xs => exact ⟨fun _ => rfl, fun _ => ⟨_, rfl⟩⟩
    | bool b => exact ⟨fun h => absurd h throws, fun h => by cases h⟩
    | num n => exact ⟨fun h => absurd h throws, fun h => by cases h⟩
    | obj ms => exact ⟨fun h => absurd h throws, fun h => by cases h⟩

theorem textOfBlocks_cons {b : Json} (hb : isNull b = false) (bs : List Json) :
    textOfBlocks (b :: bs) =
      if isText (optProp (some b) (js "type")) (js "text") then .ok (optProp (some b) (js "text"))
      else textOfBlocks bs := by
  unfold textOfBlocks
  rw [findText, prop_of_ne_null hb]
  by_cases ht : isText (optProp (some b) (js "type")) (js "text") = true
  · rw [if_pos ht]
    show (do
      match ← (if isText (optProp (some b) (js "type")) (js "text") then pure (some b) else findText bs) with
      | none => pure none
      | some b => prop b (js "text")) = _
    rw [if_pos ht]
    exact prop_of_ne_null hb _
  · rw [if_neg ht]
    show (do
      match ← (if isText (optProp (some b) (js "type")) (js "text") then pure (some b) else findText bs) with
      | none => pure none
      | some b => prop b (js "text")) = _
    rw [if_neg ht]

theorem readableBlocks_iff {bs : List Json} :
    readableBlocks bs = true ↔ ∃ t, textOfBlocks bs = .ok t ∧ sliceable t = true := by
  induction bs with
  | nil => exact ⟨fun _ => ⟨none, rfl, rfl⟩, fun _ => rfl⟩
  | cons b bs ih =>
    cases hb : isNull b with
    | true =>
      cases b with
      | null =>
        refine ⟨fun h => ?_, fun h => ?_⟩
        · cases h
        · obtain ⟨t, ht, -⟩ := h
          cases ht
      | _ => cases hb
    | false =>
      rw [textOfBlocks_cons hb, readableBlocks, hb]
      by_cases ht : isText (optProp (some b) (js "type")) (js "text") = true
      · rw [if_pos ht, if_pos ht]
        refine ⟨fun h => ⟨_, rfl, h⟩, fun h => ?_⟩
        obtain ⟨t, he, hs⟩ := h
        cases he
        exact hs
      · rw [if_neg ht, if_neg ht]
        exact ih

theorem summaryOf_ok {last : Option AssistantTurn} :
    (∃ w, summaryOf last = .ok w) ↔ readableTurn last = true := by
  have split : (∃ w, summaryOf last = .ok w) ↔
      ∃ t, firstText last = .ok t ∧ sliceable t = true := by
    unfold summaryOf
    cases firstText last with
    | error e =>
      refine ⟨fun h => ?_, fun h => ?_⟩
      · obtain ⟨w, hw⟩ := h
        cases hw
      · obtain ⟨t, ht, -⟩ := h
        cases ht
    | ok t =>
      refine ⟨fun h => ⟨t, rfl, slice200_ok.mp h⟩, fun h => ?_⟩
      obtain ⟨t', he, hs⟩ := h
      cases he
      exact slice200_ok.mpr hs
  have throws : ∀ {e : JsError},
      ¬ ∃ t, (throw e : Except JsError (Option Json)) = .ok t ∧ sliceable t = true := by
    intro e h
    obtain ⟨t, ht, -⟩ := h
    cases ht
  rw [split]
  cases last with
  | none => exact ⟨fun _ => rfl, fun _ => ⟨none, rfl, rfl⟩⟩
  | some turn =>
    simp only [firstText, readableTurn]
    cases turn.content with
    | null => exact ⟨fun _ => rfl, fun _ => ⟨none, rfl, rfl⟩⟩
    | arr blocks => exact readableBlocks_iff.symm
    | bool b => exact ⟨fun h => absurd h throws, fun h => by cases h⟩
    | num n => exact ⟨fun h => absurd h throws, fun h => by cases h⟩
    | str s => exact ⟨fun h => absurd h throws, fun h => by cases h⟩
    | obj ms => exact ⟨fun h => absurd h throws, fun h => by cases h⟩

/-- A summary is null, a string, or an array when the text block holds one. -/
theorem summaryText_ok {last : Option AssistantTurn} {w : Json} (h : summaryOf last = .ok w) :
    (∃ s, summaryText w = .ok s) ↔ listText last = false := by
  unfold summaryOf at h
  unfold listText
  cases ht : firstText last with
  | error e => rw [ht] at h; cases h
  | ok t =>
    rw [ht] at h
    cases t with
    | none => cases h; exact ⟨fun _ => rfl, fun _ => ⟨_, rfl⟩⟩
    | some v =>
      cases v with
      | null => cases h; exact ⟨fun _ => rfl, fun _ => ⟨_, rfl⟩⟩
      | str s => cases h; exact ⟨fun _ => rfl, fun _ => ⟨_, rfl⟩⟩
      | arr xs =>
        cases h
        refine ⟨fun hs => ?_, fun hf => by cases hf⟩
        obtain ⟨s, hs⟩ := hs
        cases hs
      | bool b => cases h
      | num n => cases h
      | obj ms => cases h

theorem summaryFor_eq (disk : Disk) (s : LocalSession) :
    summaryFor disk s = summaryOf (lastTurnOf disk s) := by
  unfold summaryFor lastTurnOf
  cases transcriptOf s with
  | none => rfl
  | some path => rfl

/-! ## The entries of a snapshot -/

def statusAt (env : Env) (disk : Disk) (sessions : List LocalSession) (pid : Int) : RefinedStatus :=
  ((refinedStatusFor disk env.cache env.now sessions).get? pid).getD .idle

/-- What `lastByPid` holds for the pid, when no read throws. -/
def summaryAt (disk : Disk) (sessions : List LocalSession) (pid : Int) : Option Json :=
  (owner sessions pid).bind fun o => (summaryOf (lastTurnOf disk o)).toOption

/-- The entry `e` is the one of session `s`. -/
structure EntryOf (env : Env) (disk : Disk) (sessions : List LocalSession) (s : LocalSession)
    (e : SnapshotEntry) : Prop where
  pid : e.pid = s.pid
  repo : e.repo = s.repoName
  branch : e.branch = s.branch
  cwd : e.cwd = s.cwd
  status : e.status = statusAt env disk sessions s.pid
  summary : summaryAt disk sessions s.pid = some e.last_assistant_summary
  suggestion : ∃ sug, suggestNext e.status e.last_assistant_summary = .ok sug ∧
    e.suggestion = sug.text ∧ e.action = sug.action ∧ e.confidence = sug.confidence
  tmux : e.tmux = ((tmuxByPidOf env.tmux sessions).get? s.pid).join
  conflict : e.conflict = ((conflictMapOf env.fs sessions).get? s.pid).join

/-- Every summary can be read, and no list stands where a prompt is looked for. -/
structure Readable (env : Env) (disk : Disk) (sessions : List LocalSession) : Prop where
  turns : ∀ s ∈ sessions, readableTurn (lastTurnOf disk s) = true
  texts : ∀ s ∈ sessions, ∀ o, owner sessions s.pid = some o →
    statusAt env disk sessions s.pid = .awaiting_user_input → listText (lastTurnOf disk o) = false

/-- `lastByPid` of a call whose reads do not throw. -/
def summaries (disk : Disk) (sessions : List LocalSession) : PidMap Json :=
  sessions.map fun s => (s.pid, ((summaryOf (lastTurnOf disk s)).toOption).getD .null)

theorem lastByPid_ok {disk : Disk} {sessions : List LocalSession}
    (h : ∀ s ∈ sessions, readableTurn (lastTurnOf disk s) = true) :
    (sessions.mapM fun s => do
      let summary ← summaryFor disk s
      return (s.pid, summary)) = .ok (summaries disk sessions) := by
  apply mapM_eq_ok
  intro s hs
  obtain ⟨w, hw⟩ := summaryOf_ok.mpr (h s hs)
  rw [summaryFor_eq, hw]
  rfl

theorem readable_of_lastByPid {disk : Disk} {sessions : List LocalSession} {m : PidMap Json}
    (h : (sessions.mapM fun s => do
      let summary ← summaryFor disk s
      return (s.pid, summary)) = .ok m) : ∀ s ∈ sessions, readableTurn (lastTurnOf disk s) = true := by
  intro s hs
  obtain ⟨p, hp⟩ := ok_of_mapM h hs
  rw [summaryFor_eq] at hp
  apply summaryOf_ok.mp
  cases hw : summaryOf (lastTurnOf disk s) with
  | error e => rw [hw] at hp; cases hp
  | ok w => exact ⟨w, rfl⟩

theorem summaries_get {disk : Disk} {sessions : List LocalSession} {s : LocalSession}
    (h : ∀ s ∈ sessions, readableTurn (lastTurnOf disk s) = true) (hs : s ∈ sessions) :
    ∃ o w, owner sessions s.pid = some o ∧ summaryOf (lastTurnOf disk o) = .ok w ∧
      (summaries disk sessions).get? s.pid = some w := by
  obtain ⟨o, ho⟩ := owner_isSome hs
  obtain ⟨w, hw⟩ := summaryOf_ok.mpr (h o (owner_mem ho).1)
  refine ⟨o, w, ho, hw, ?_⟩
  unfold summaries
  rw [PidMap.get?_map, show sessions.reverse.find? (fun b => b.pid == s.pid) = some o from ho,
    Option.map_some, hw]
  rfl

/-- What a call does once its summaries are read. -/
theorem buildSnapshot_eq {env : Env} {disk : Disk} {sessions : List LocalSession}
    (h : ∀ s ∈ sessions, readableTurn (lastTurnOf disk s) = true) :
    buildSnapshot env disk sessions =
      sessions.mapM (entryFor (refinedStatusFor disk env.cache env.now sessions)
        (summaries disk sessions) (conflictMapOf env.fs sessions)
        (some (tmuxByPidOf env.tmux sessions))) := by
  unfold buildSnapshot composeSnapshot
  rw [lastByPid_ok h]
  rfl

theorem readable_of_ok {env : Env} {disk : Disk} {sessions : List LocalSession}
    {E : List SnapshotEntry} (h : buildSnapshot env disk sessions = .ok E) :
    ∀ s ∈ sessions, readableTurn (lastTurnOf disk s) = true := by
  unfold buildSnapshot at h
  cases hl : (sessions.mapM fun s => do
      let summary ← summaryFor disk s
      return (s.pid, summary)) with
  | error e => rw [hl] at h; cases h
  | ok m => exact readable_of_lastByPid hl

/-- Every entry of a finished snapshot, in list order, is the one of its session. -/
theorem buildSnapshot_entries {env : Env} {disk : Disk} {sessions : List LocalSession}
    {E : List SnapshotEntry} (h : buildSnapshot env disk sessions = .ok E) :
    List.Forall₂ (EntryOf env disk sessions) sessions E := by
  have hread := readable_of_ok h
  rw [buildSnapshot_eq hread] at h
  have hall := forall₂_of_mapM h
  refine (List.forall₂_iff_zip.mpr ⟨hall.length_eq, ?_⟩)
  intro s e hse
  have hs : s ∈ sessions := (List.of_mem_zip hse).1
  have he := (List.forall₂_iff_zip.mp hall).2 hse
  obtain ⟨o, w, ho, hw, hget⟩ := summaries_get hread hs
  unfold entryFor at he
  cases hsug : suggestNext (statusAt env disk sessions s.pid) w with
  | error e' =>
    simp only [hget, Option.getD_some] at he
    rw [show ((refinedStatusFor disk env.cache env.now sessions).get? s.pid).getD .idle =
      statusAt env disk sessions s.pid from rfl, hsug] at he
    cases he
  | ok sug =>
    simp only [hget, Option.getD_some] at he
    rw [show ((refinedStatusFor disk env.cache env.now sessions).get? s.pid).getD .idle =
      statusAt env disk sessions s.pid from rfl, hsug] at he
    cases he
    refine ⟨rfl, rfl, rfl, rfl, rfl, ?_, ⟨sug, hsug, rfl, rfl, rfl⟩, rfl, rfl⟩
    simp [summaryAt, ho, hw, Except.toOption]

/-- The suggestion table throws only on a list in place of a prompt. -/
theorem suggestNext_ok {status : RefinedStatus} {last : Option AssistantTurn} {w : Json}
    (h : summaryOf last = .ok w) :
    (∃ sug, suggestNext status w = .ok sug) ↔
      (status = .awaiting_user_input → listText last = false) := by
  cases status with
  | awaiting_user_input =>
    refine ⟨fun hsug _ => (summaryText_ok h).mp ?_, fun hlist => ?_⟩
    · obtain ⟨sug, hsug⟩ := hsug
      unfold suggestNext at hsug
      cases hs : summaryText w with
      | error e => rw [hs] at hsug; cases hsug
      | ok s => exact ⟨s, rfl⟩
    · obtain ⟨s, hs⟩ := (summaryText_ok h).mpr (hlist rfl)
      unfold suggestNext
      rw [hs]
      by_cases ha : approvalPrompt s = true
      · exact ⟨_, if_pos ha⟩
      · exact ⟨_, if_neg ha⟩
  | tool_pending => exact ⟨fun _ hc => absurd hc (by decide), fun _ => ⟨_, rfl⟩⟩
  | crashed => exact ⟨fun _ hc => absurd hc (by decide), fun _ => ⟨_, rfl⟩⟩
  | working => exact ⟨fun _ hc => absurd hc (by decide), fun _ => ⟨_, rfl⟩⟩
  | idle => exact ⟨fun _ hc => absurd hc (by decide), fun _ => ⟨_, rfl⟩⟩

theorem entry_of_mem {env : Env} {disk : Disk} {sessions : List LocalSession}
    {E : List SnapshotEntry} (h : buildSnapshot env disk sessions = .ok E) {s : LocalSession}
    (hs : s ∈ sessions) : ∃ e ∈ E, EntryOf env disk sessions s e := by
  have hall := buildSnapshot_entries h
  obtain ⟨i, hi, rfl⟩ := List.getElem_of_mem hs
  have hE : i < E.length := by rw [← hall.length_eq]; exact hi
  exact ⟨E[i], List.getElem_mem hE, (List.forall₂_iff_get.mp hall).2 i hi hE⟩

/-- Every entry is the one of a session at its position. -/
theorem session_of_entry {env : Env} {disk : Disk} {sessions : List LocalSession}
    {E : List SnapshotEntry} (h : buildSnapshot env disk sessions = .ok E) {e : SnapshotEntry}
    (he : e ∈ E) : ∃ (i : Nat) (s : LocalSession), sessions[i]? = some s ∧ EntryOf env disk sessions s e := by
  have hall := buildSnapshot_entries h
  obtain ⟨i, hi, rfl⟩ := List.getElem_of_mem he
  have hs : i < sessions.length := by rw [hall.length_eq]; exact hi
  exact ⟨i, sessions[i], List.getElem?_eq_getElem hs, (List.forall₂_iff_get.mp hall).2 i hs hi⟩

/-- A snapshot is built exactly when everything in it can be read. -/
theorem buildSnapshot_ok_iff {env : Env} {disk : Disk} {sessions : List LocalSession} :
    (∃ E, buildSnapshot env disk sessions = .ok E) ↔ Readable env disk sessions := by
  refine ⟨fun h => ?_, fun h => ?_⟩
  · obtain ⟨E, hE⟩ := h
    refine ⟨readable_of_ok hE, fun s hs o ho hawait => ?_⟩
    obtain ⟨e, -, he⟩ := entry_of_mem hE hs
    obtain ⟨sug, hsug, -⟩ := he.suggestion
    have hw := he.summary
    rw [summaryAt, ho, Option.bind_some] at hw
    cases hsum : summaryOf (lastTurnOf disk o) with
    | error e' => rw [hsum] at hw; cases hw
    | ok w =>
      rw [hsum] at hw
      cases hw
      exact (suggestNext_ok hsum).mp ⟨sug, hsug⟩ (by rw [he.status]; exact hawait)
  · rw [buildSnapshot_eq h.turns]
    apply exists_mapM
    intro s hs
    obtain ⟨o, w, ho, hw, hget⟩ := summaries_get h.turns hs
    have hsug : ∃ sug, suggestNext (statusAt env disk sessions s.pid) w = .ok sug :=
      (suggestNext_ok hw).mpr (h.texts s hs o ho)
    obtain ⟨sug, hsug⟩ := hsug
    unfold entryFor
    simp only [hget, Option.getD_some]
    rw [show ((refinedStatusFor disk env.cache env.now sessions).get? s.pid).getD .idle =
      statusAt env disk sessions s.pid from rfl, hsug]
    exact ⟨_, rfl⟩

/-! ## Transcripts of one row -/

def textBlock (text : Json) : Json := .obj [(js "type", .str (js "text")), (js "text", text)]

/-- A turn that has ended, with the given content. -/
def assistantRow (content : Json) : Json :=
  .obj [(js "type", .str (js "assistant")),
    (js "message", .obj [(js "role", .str (js "assistant")), (js "content", content),
      (js "stop_reason", .str (js "end_turn"))])]

def oneRow (content : Json) (mtimeMs : Rat) : TranscriptFile :=
  ⟨encode (stringify (assistantRow content)) ++ [10], mtimeMs⟩

end Conductor.Sessions.Snapshot
