import Conductor.Sessions.Schedule
import Mathlib.Data.Rat.Floor

/-! # Three reads of a growing transcript

Transcripts that are only appended to, each with the time of its last append,
and one `deriveRefinedStatus` whose reads fall between the appends. When its
answer is the one that lets the operator type, the file has been still since
before the call began, so the three reads saw one content. -/
namespace Conductor.Sessions.ReadOrder
open Conductor.Lib.Runs Conductor.Js.Text Conductor.Js.Values Conductor.Js.Utf8
open Conductor.Jsonl.Parser
open Conductor.Sessions.Types Conductor.Sessions.RefinedStatus Conductor.Sessions.Snapshot
open Conductor.Sessions.Schedule

structure Answer where
  status : RefinedStatus
  time : Rat
  deriving DecidableEq

/-- One call. -/
structure Reader where
  startedAt : Rat
  progress : Progress
  answer : Option Answer

structure Files where
  clock : Rat
  disk : Disk
  reader : Option Reader

inductive Event
  | tick (d : Rat)
  /-- The writer of a transcript appends to it, and creates it at the first append. -/
  | append (path : JsString) (bytes : Bytes)
  | call
  /-- The call performs its next read. -/
  | read

def init (clock : Rat) : Files := ⟨clock, fun _ => none, none⟩

def appended (clock : Rat) (old : Option TranscriptFile) (bytes : Bytes) : TranscriptFile :=
  ⟨(old.map (·.bytes)).getD [] ++ bytes, clock⟩

/-- The next step of a call that was told whether the process is alive. -/
def proceed (disk : Disk) (now : Int) (s : LocalSession) (pidAlive : Option Bool) :
    Progress → Option Progress
  | .noPending last =>
    if decide (pidAlive = some false) && last.any (fun turn => isNull turn.stop_reason) then
      some (.done .crashed)
    else advance disk now s (.noPending last)
  | .gotStat last mtimeMs => some (.done (statusFrom last [] mtimeMs now pidAlive))
  | p => advance disk now s p

/-- `Date.now()` is the whole part of the clock. -/
def readStep (s : LocalSession) (pidAlive : Option Bool) (f : Files) (r : Reader) : Option Files := do
  let p ← proceed f.disk ⌊f.clock⌋ s pidAlive r.progress
  let answer := match p with
    | .done status => some ⟨status, f.clock⟩
    | _ => none
  return { f with reader := some { r with progress := p, answer := answer } }

def step (s : LocalSession) (pidAlive : Option Bool) (f : Files) : Event → Option Files
  | .tick d => if 0 ≤ d then some { f with clock := f.clock + d } else none
  | .append path bytes =>
    some { f with disk := Function.update f.disk path (some (appended f.clock (f.disk path) bytes)) }
  | .call => if f.reader.isNone then some { f with reader := some ⟨f.clock, .start, none⟩ } else none
  | .read => f.reader.bind (readStep s pidAlive f)

variable {s : LocalSession} {pidAlive : Option Bool} {start : Rat}

/-- `v` is the state in which the call performed its `stat`. -/
def StatAt (s : LocalSession) (pidAlive : Option Bool) (start : Rat) (es : List Event) (v : Files) :
    Prop :=
  ∃ past r last, (past ++ [.read]) <+: es ∧ exec (step s pidAlive) (init start) past = some v ∧
    v.reader = some r ∧ r.progress = .noPending last

theorem StatAt.mono {es : List Event} {v : Files} (h : StatAt s pidAlive start es v)
    (more : List Event) : StatAt s pidAlive start (es ++ more) v := by
  obtain ⟨past, r, last, hp, hv⟩ := h
  exact ⟨past, r, last, hp.trans (List.prefix_append es more), hv⟩

/-! ## What the reads have in common -/

/-- The transcript has not been appended to since. -/
def Still (since : Rat) (disk : Disk) (path : JsString) : Prop :=
  ∀ f, disk path = some f → f.mtimeMs < since

/-- While the file is still, its tail has this last turn. -/
def LastIs (since : Rat) (disk : Disk) (path : JsString) (last : Option AssistantTurn) : Prop :=
  Still since disk path → extractLastAssistantTurn (disk.bytes path) = last

def NonePending (since : Rat) (disk : Disk) (path : JsString) : Prop :=
  Still since disk path → extractPendingToolUses (disk.bytes path) = []

/-- What the call has learnt, up to its answer. -/
def Known (s : LocalSession) (pidAlive : Option Bool) (start : Rat) (es : List Event) (disk : Disk)
    (r : Reader) : Prop :=
  match r.progress with
  | .start => True
  | .gotLast last => ∃ path, transcriptOf s = some path ∧ LastIs r.startedAt disk path last
  | .noPending last => ∃ path, transcriptOf s = some path ∧ LastIs r.startedAt disk path last ∧
      NonePending r.startedAt disk path
  | .gotStat last mtimeMs => ∃ path v, transcriptOf s = some path ∧ StatAt s pidAlive start es v ∧
      LastIs r.startedAt v.disk path last ∧ NonePending r.startedAt v.disk path ∧
      mtimeMs = (v.disk path).map (·.mtimeMs)
  | .done _ => ∀ a, r.answer = some a → a.status = .awaiting_user_input →
      ∃ path v last mtimeMs, transcriptOf s = some path ∧ StatAt s pidAlive start es v ∧
        LastIs r.startedAt v.disk path last ∧ NonePending r.startedAt v.disk path ∧
        mtimeMs = (v.disk path).map (·.mtimeMs) ∧
        statusFrom last [] mtimeMs ⌊a.time⌋ pidAlive = .awaiting_user_input

structure Inv (s : LocalSession) (pidAlive : Option Bool) (start : Rat) (es : List Event) (f : Files) :
    Prop where
  written : ∀ path file, f.disk path = some file → file.mtimeMs ≤ f.clock
  started : ∀ r, f.reader = some r → r.startedAt ≤ f.clock
  known : ∀ r, f.reader = some r → Known s pidAlive start es f.disk r
  unanswered : ∀ r, f.reader = some r → r.answer.isSome → ∃ status, r.progress = .done status

theorem Known.mono {es : List Event} {disk : Disk} {r : Reader}
    (h : Known s pidAlive start es disk r) (more : List Event) :
    Known s pidAlive start (es ++ more) disk r := by
  unfold Known at h ⊢
  cases hp : r.progress with
  | start => trivial
  | gotLast last => rw [hp] at h; exact h
  | noPending last => rw [hp] at h; exact h
  | gotStat last mtimeMs =>
    rw [hp] at h
    obtain ⟨path, v, ht, hv, hrest⟩ := h
    exact ⟨path, v, ht, hv.mono more, hrest⟩
  | done status =>
    rw [hp] at h
    intro a ha hs
    obtain ⟨path, v, last, mtimeMs, ht, hv, hrest⟩ := h a ha hs
    exact ⟨path, v, last, mtimeMs, ht, hv.mono more, hrest⟩

/-- A file that is still after an append is another file, and was still before it. -/
theorem still_append {since clock : Rat} {disk : Disk} {path p : JsString} {bytes : Bytes}
    (hc : since ≤ clock)
    (h : Still since (Function.update disk p (some (appended clock (disk p) bytes))) path) :
    Still since disk path ∧
      Disk.bytes (Function.update disk p (some (appended clock (disk p) bytes))) path =
        disk.bytes path := by
  have hne : path ≠ p := by
    intro he
    rw [he] at h
    have hlt := h _ (Function.update_self p _ disk)
    exact absurd hlt (not_lt.mpr hc)
  unfold Still at h
  unfold Disk.bytes
  rw [Function.update_of_ne hne] at h ⊢
  exact ⟨h, rfl⟩

theorem known_append {es : List Event} {clock : Rat} {disk : Disk} {r : Reader} {p : JsString}
    {bytes : Bytes} (hc : r.startedAt ≤ clock) (h : Known s pidAlive start es disk r) :
    Known s pidAlive start es
      (Function.update disk p (some (appended clock (disk p) bytes))) r := by
  have hlast : ∀ path last, LastIs r.startedAt disk path last →
      LastIs r.startedAt (Function.update disk p (some (appended clock (disk p) bytes))) path last := by
    intro path last hl hs
    obtain ⟨hbefore, hbytes⟩ := still_append hc hs
    rw [hbytes]
    exact hl hbefore
  have hnone : ∀ path, NonePending r.startedAt disk path →
      NonePending r.startedAt (Function.update disk p (some (appended clock (disk p) bytes))) path := by
    intro path hn hs
    obtain ⟨hbefore, hbytes⟩ := still_append hc hs
    rw [hbytes]
    exact hn hbefore
  unfold Known at h ⊢
  cases hp : r.progress with
  | start => trivial
  | gotLast last =>
    rw [hp] at h
    obtain ⟨path, ht, hl⟩ := h
    exact ⟨path, ht, hlast path last hl⟩
  | noPending last =>
    rw [hp] at h
    obtain ⟨path, ht, hl, hn⟩ := h
    exact ⟨path, ht, hlast path last hl, hnone path hn⟩
  | gotStat last mtimeMs => rw [hp] at h; exact h
  | done status => rw [hp] at h; exact h

/-- A read keeps what the call knows, and a read of an unfinished call is its
first answer at most. -/
theorem known_read {es : List Event} {f f' : Files} {r : Reader}
    (hex : exec (step s pidAlive) (init start) es = some f) (hr : f.reader = some r)
    (h : Known s pidAlive start es f.disk r) (hf : readStep s pidAlive f r = some f') :
    ∃ r', f' = { f with reader := some r' } ∧ r'.startedAt = r.startedAt ∧
      Known s pidAlive start (es ++ [.read]) f.disk r' ∧
      (r'.answer.isSome → ∃ status, r'.progress = .done status) := by
  unfold readStep at hf
  obtain ⟨p, hp, hf⟩ := Option.bind_eq_some_iff.mp hf
  cases hf
  refine ⟨_, rfl, rfl, ?_, ?_⟩
  · unfold Known at h
    cases hprog : r.progress with
    | start =>
      rw [hprog] at hp
      simp only [proceed, advance] at hp
      cases ht : transcriptOf s with
      | none =>
        rw [ht] at hp
        cases hp
        intro a ha hs
        cases ha
        cases hs
      | some path =>
        rw [ht] at hp
        cases hp
        exact ⟨path, ht, fun _ => rfl⟩
    | gotLast last =>
      rw [hprog] at hp h
      obtain ⟨path, ht, hl⟩ := h
      simp only [proceed, advance, ht, Option.bind_eq_bind, Option.bind_some] at hp
      split at hp
      · cases hp
        intro a ha hs
        cases ha
        cases hs
      · rename_i hpend
        cases hp
        exact ⟨path, ht, hl, fun _ => by simpa using hpend⟩
    | noPending last =>
      rw [hprog] at hp h
      obtain ⟨path, ht, hl, hn⟩ := h
      have hstat : StatAt s pidAlive start (es ++ [.read]) f :=
        ⟨es, r, last, List.prefix_refl _, hex, hr, hprog⟩
      simp only [proceed] at hp
      split at hp
      · cases hp
        intro a ha hs
        cases ha
        cases hs
      · simp only [advance, ht, Option.bind_eq_bind, Option.bind_some] at hp
        cases hp
        exact ⟨path, f, ht, hstat, hl, hn, rfl⟩
    | gotStat last mtimeMs =>
      rw [hprog] at hp h
      obtain ⟨path, v, ht, hv, hl, hn, hm⟩ := h
      cases hp
      intro a ha hs
      cases ha
      exact ⟨path, v, last, mtimeMs, ht, hv.mono [.read], hl, hn, hm, hs⟩
    | done status => rw [hprog] at hp; cases hp
  · intro ha
    cases p with
    | done status => exact ⟨status, rfl⟩
    | _ => cases ha

/-- One step of the writers, the clock or the call. -/
theorem inv_step {es : List Event} {f f' : Files} {e : Event}
    (hex : exec (step s pidAlive) (init start) es = some f) (he : step s pidAlive f e = some f')
    (hi : Inv s pidAlive start es f) : Inv s pidAlive start (es ++ [e]) f' := by
  cases e with
  | tick d =>
    obtain ⟨hd, hf⟩ := Option.ite_none_right_eq_some.mp he
    cases hf
    refine ⟨fun path file h => ?_, fun r hr => ?_, fun r hr => (hi.known r hr).mono _, hi.unanswered⟩
    · exact le_trans (hi.written path file h) (le_add_of_nonneg_right hd)
    · exact le_trans (hi.started r hr) (le_add_of_nonneg_right hd)
  | append p bytes =>
    cases he
    refine ⟨fun path file h => ?_, hi.started, fun r hr => ?_, hi.unanswered⟩
    · simp only at h
      by_cases hp : path = p
      · subst hp
        rw [Function.update_self] at h
        cases h
        exact le_refl _
      · rw [Function.update_of_ne hp] at h
        exact hi.written path file h
    · exact (known_append (hi.started r hr) (hi.known r hr)).mono _
  | call =>
    obtain ⟨_, hf⟩ := Option.ite_none_right_eq_some.mp he
    cases hf
    refine ⟨hi.written, fun r hr => ?_, fun r hr => ?_, fun r hr ha => ?_⟩
    · cases hr; exact le_refl _
    · cases hr; trivial
    · cases hr; cases ha
  | read =>
    obtain ⟨r, hr, hf⟩ := Option.bind_eq_some_iff.mp he
    obtain ⟨r', rfl, hs, hk, ha⟩ := known_read hex hr (hi.known r hr) hf
    refine ⟨hi.written, fun q hq => ?_, fun q hq => ?_, fun q hq => ?_⟩
    · cases hq; exact hs ▸ hi.started r hr
    · cases hq; exact hk
    · cases hq; exact ha

theorem inv_run {es : List Event} {f : Files}
    (h : exec (step s pidAlive) (init start) es = some f) : Inv s pidAlive start es f := by
  have hstart : Inv s pidAlive start [] (init start) := by
    refine ⟨fun _ _ h => ?_, fun _ h => ?_, fun _ h => ?_, fun _ h => ?_⟩
    · cases h
    · cases h
    · cases h
    · cases h
  exact exec_history hstart (fun _ _ _ _ hex he _ hi => inv_step hex he hi) h
    (along_of_forall (C := fun _ _ => True) (fun _ _ _ => trivial) _)

/-- A call that takes less than the idle threshold and answers that the session
awaits input speaks of the transcript as it was at its `stat`: there the last
turn of the tail has ended, and every tool use of the tail has its result. -/
theorem awaiting_held_at_stat {es : List Event} {f : Files} {r : Reader} {a : Answer}
    (h : exec (step s pidAlive) (init start) es = some f) (hr : f.reader = some r)
    (ha : r.answer = some a) (hs : a.status = .awaiting_user_input)
    (hquick : a.time - r.startedAt < IDLE_THRESHOLD_MS) :
    ∃ path v turn, transcriptOf s = some path ∧ StatAt s pidAlive start es v ∧
      extractLastAssistantTurn (v.disk.bytes path) = some turn ∧
      turn.stop_reason = .str (js "end_turn") ∧
      ∀ row ∈ readJsonlTailLines (v.disk.bytes path) DEFAULT_TAIL_BYTES, ∀ u ∈ toolUsesOf row,
        ∃ row' ∈ readJsonlTailLines (v.disk.bytes path) DEFAULT_TAIL_BYTES,
          u.id ∈ toolResultsOf row' := by
  have hi := inv_run h
  obtain ⟨status, hdone⟩ := hi.unanswered r hr (by rw [ha]; rfl)
  have hk := hi.known r hr
  unfold Known at hk
  rw [hdone] at hk
  obtain ⟨path, v, last, mtimeMs, ht, hv, hl, hn, hm, hst⟩ := hk a ha hs
  obtain ⟨_, hends, hage⟩ := statusFrom_awaiting.mp hst
  -- the file was last written before the call began
  have hstill : Still r.startedAt v.disk path := by
    intro file hfile
    rw [hfile] at hm
    have hold := hage file.mtimeMs hm
    have hfloor := Int.floor_le a.time
    linarith
  rw [← hl hstill] at hends
  cases hlast : extractLastAssistantTurn (v.disk.bytes path) with
  | none => rw [hlast] at hends; cases hends
  | some turn =>
    rw [hlast] at hends
    refine ⟨path, v, turn, ht, hv, hlast, ?_, extractPendingToolUses_eq_nil.mp (hn hstill)⟩
    simpa using isText_iff.mp hends

/-! ## A schedule with an append before each read -/

/-- A row of the assistant, then rows that say nothing about the turn between
the reads of a call that comes forty seconds later for another transcript. -/
def quietRun : List Event :=
  let other := Event.append (js "/b.jsonl") (encode (js "{}\n"))
  [.append (js "/a.jsonl") (oneRow (.arr [textBlock (.str (js "Done."))]) 0).bytes, .tick 40000, .call,
    other, .read, other, .read, .tick 100, other, .read, .read]

theorem quiet_awaiting_held :
    ∃ v turn, StatAt sessionA none 0 quietRun v ∧
      extractLastAssistantTurn (v.disk.bytes (js "/a.jsonl")) = some turn := by
  have hrun : ∃ f ∈ exec (step sessionA none) (init 0) quietRun, ∃ r ∈ f.reader,
      r.startedAt = 40000 ∧ r.answer = some ⟨.awaiting_user_input, 40100⟩ := by
    decide +kernel
  obtain ⟨f, hf, r, hr, hs, ha⟩ := hrun
  obtain ⟨path, v, turn, hp, hv, hlast, _⟩ := awaiting_held_at_stat hf hr ha rfl
    (by rw [hs]; norm_num [IDLE_THRESHOLD_MS])
  rw [show transcriptOf sessionA = some (js "/a.jsonl") by decide +kernel] at hp
  cases hp
  exact ⟨v, turn, hv, hlast⟩

end Conductor.Sessions.ReadOrder
