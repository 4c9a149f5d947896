import Conductor.Jsonl.Parser
import Conductor.Sessions.Types

/-! # The refined status of a session

The five-state derivation from three reads of the transcript, and the batch
over a list of sessions with its two-second cache. Here the disk holds still;
the reads of a running system are in `Conductor.Sessions.Schedule`. -/
namespace Conductor.Sessions.RefinedStatus
open Conductor.Js.Text Conductor.Js.Values Conductor.Js.Utf8 Conductor.Jsonl.Parser
open Conductor.Sessions.Types

structure TranscriptFile where
  bytes : Bytes
  mtimeMs : Rat
  deriving DecidableEq

/-- The readable files. -/
abbrev Disk := JsString → Option TranscriptFile

def Disk.bytes (d : Disk) (path : JsString) : Option Bytes := (d path).map (·.bytes)

def IDLE_THRESHOLD_MS : Rat := 30000
def CACHE_TTL_MS : Int := 2000

/-- The transcript of a session that is not falsy. -/
def transcriptOf (s : LocalSession) : Option JsString := s.transcriptPath.filter (· ≠ [])

def endsTurn (last : Option AssistantTurn) : Bool :=
  last.any fun turn => isText (some turn.stop_reason) (js "end_turn")

/-- The decision on what the reads returned. `mtimeMs` is `none` when `stat`
fails; the age is infinite then. -/
def statusFrom (last : Option AssistantTurn) (pending : List ToolUse) (mtimeMs : Option Rat)
    (now : Int) (pidAlive : Option Bool) : RefinedStatus :=
  if !pending.isEmpty then .tool_pending
  else if decide (pidAlive = some false) && last.any (fun turn => isNull turn.stop_reason) then .crashed
  else
    let old := mtimeMs.all fun mtime => decide (IDLE_THRESHOLD_MS ≤ (now : Rat) - mtime)
    if endsTurn last && old then .awaiting_user_input
    else if !old then .working else .idle

def deriveRefinedStatus (disk : Disk) (now : Int) (s : LocalSession) (pidAlive : Option Bool) :
    RefinedStatus :=
  match transcriptOf s with
  | none => .idle
  | some path => statusFrom (extractLastAssistantTurn (disk.bytes path))
      (extractPendingToolUses (disk.bytes path)) ((disk path).map (·.mtimeMs)) now pidAlive

structure Cache where
  /-- `cache.at`. -/
  setAt : Int
  statuses : PidMap RefinedStatus

def fresh (cache : Option Cache) (now : Int) : Option Cache :=
  cache.filter fun c => decide (now - c.setAt < CACHE_TTL_MS)

/-- The returned map; when it is derived it also becomes the cache. -/
def refinedStatusFor (disk : Disk) (cache : Option Cache) (now : Int) (sessions : List LocalSession) :
    PidMap RefinedStatus :=
  match fresh cache now with
  | some c => c.statuses
  | none => sessions.map fun s => (s.pid, deriveRefinedStatus disk now s none)

/-- The session that a pid-keyed map of the list speaks about. -/
def owner (sessions : List LocalSession) (pid : Int) : Option LocalSession :=
  sessions.reverse.find? fun s => s.pid == pid

theorem owner_mem {sessions : List LocalSession} {pid : Int} {o : LocalSession}
    (h : owner sessions pid = some o) : o ∈ sessions ∧ o.pid = pid :=
  ⟨List.mem_reverse.mp (List.mem_of_find?_eq_some h), by simpa using List.find?_some h⟩

theorem owner_isSome {sessions : List LocalSession} {s : LocalSession} (h : s ∈ sessions) :
    ∃ o, owner sessions s.pid = some o := by
  apply Option.isSome_iff_exists.mp
  exact List.find?_isSome.mpr ⟨s, List.mem_reverse.mpr h, by simp⟩

/-- Awaiting input: nothing pending, the turn ended, and nothing written for
the idle threshold. -/
theorem statusFrom_awaiting {last : Option AssistantTurn} {pending : List ToolUse}
    {mtimeMs : Option Rat} {now : Int} {pidAlive : Option Bool} :
    statusFrom last pending mtimeMs now pidAlive = .awaiting_user_input ↔
      pending = [] ∧ endsTurn last = true ∧
        ∀ mtime, mtimeMs = some mtime → IDLE_THRESHOLD_MS ≤ (now : Rat) - mtime := by
  have hold : (mtimeMs.all fun mtime => decide (IDLE_THRESHOLD_MS ≤ (now : Rat) - mtime)) = true ↔
      ∀ mtime, mtimeMs = some mtime → IDLE_THRESHOLD_MS ≤ (now : Rat) - mtime := by
    cases mtimeMs with
    | none => simp
    | some mtime => simp
  -- a turn that has ended has a stop reason
  have hstop : endsTurn last = true → last.any (fun turn => isNull turn.stop_reason) = false := by
    intro he
    cases last with
    | none => rfl
    | some turn =>
      have hs := isText_iff.mp he
      simp only [Option.some.injEq] at hs
      simp [hs, isNull]
  rw [← hold]
  unfold statusFrom
  cases pending with
  | cons u us => simp
  | nil =>
    by_cases he : endsTurn last = true
    · simp only [hstop he, he]
      cases mtimeMs.all fun mtime => decide (IDLE_THRESHOLD_MS ≤ (now : Rat) - mtime) with
      | true => simp
      | false => simp
    · rw [Bool.not_eq_true] at he
      simp only [he, List.isEmpty_nil, Bool.not_true, Bool.false_eq_true, if_false, Bool.false_and]
      refine ⟨fun h => ?_, fun h => absurd h.2.1 (by simp)⟩
      split at h
      · cases h
      · split at h
        · cases h
        · cases h

end Conductor.Sessions.RefinedStatus
