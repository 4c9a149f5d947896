import Mathlib.Data.List.Flatten
import Conductor.Lib.Framing
import Conductor.Lib.Runs
import Conductor.Js.JsonText
import Conductor.Js.Utf8
import Conductor.Sessions.Types

/-! # The audit log and its write queue

`appendAudit` chains every entry onto one promise, so the entries are written
one after another, each in up to four file-system steps of which any may fail.
The queue swallows a failure: the promise resolves, and all five callers then
report success. The log is the current file with the archives that rotation
leaves behind. -/
namespace Conductor.Tmux.Audit
open Conductor.Lib.Framing Conductor.Lib.Runs
open Conductor.Js.Text Conductor.Js.Number Conductor.Js.Values Conductor.Js.JsonText Conductor.Js.Utf8
open Conductor.Sessions.Types

def ROTATE_BYTES : Nat := 10 * 1024 * 1024

/-- The callers of `appendAudit`. -/
inductive Caller
  | injectTool
  | injectCmd
  | claudeCode
  | aider
  | cursorCli
  deriving DecidableEq

/-- An inject whose `send-keys` has succeeded, on its way into the log. -/
structure Inject where
  caller : Caller
  entry : AuditEntry
  deriving DecidableEq

def sourceText : AuditSource → JsString
  | .userApproved => js "user-approved"
  | .auto => js "auto"
  | .skill => js "skill"

def actionText : AuditAction → JsString
  | .inject => js "inject"
  | .abort => js "abort"
  | .restart => js "restart"

def confidenceText : Confidence → JsString
  | .low => js "low"
  | .medium => js "medium"
  | .high => js "high"

/-- The object literal of the caller, undefined members left out. The tool
writes the time last, every other caller first. -/
def entryJson (i : Inject) : Json :=
  let e := i.entry
  let ts := [(js "ts", Json.num e.ts)]
  let body := [(js "pid", Json.num e.pid), (js "repo", .str e.repo), (js "action", .str (actionText e.action))]
    ++ e.text.toList.map (fun t => (js "text", .str t))
    ++ [(js "source", .str (sourceText e.source))]
    ++ e.confidence.toList.map (fun c => (js "confidence", .str (confidenceText c)))
    ++ e.reason.toList.map fun r => (js "reason", .str r)
  .obj (if i.caller = .injectTool then body ++ ts else ts ++ body)

/-- The bytes of `JSON.stringify(entry)`. -/
def line (i : Inject) : Bytes := encode (stringify (entryJson i))

/-- A line stays one line whatever the texts of the entry hold. -/
theorem newline_not_mem_line (i : Inject) : 10 ∉ line i := by
  intro h
  have hu := mem_encode (by decide) h
  exact absurd (printable_stringify (entryJson i) _ hu) (by decide)

/-! ## The queue -/

structure Log where
  /-- `audit.jsonl`, when it exists. -/
  current : Option Bytes
  /-- `audit.jsonl.<ts>`, in the order of the rotations. -/
  archives : List (Int × Bytes)

/-- The file-system call that the head of the queue makes next. -/
inductive Phase
  | mkdir
  | stat
  | rename
  | append
  deriving DecidableEq

structure State where
  log : Log
  queue : List Inject
  phase : Phase
  /-- The injects whose caller has been told that they succeeded. -/
  reported : List Inject

inductive Event
  /-- A caller's `send-keys` returns; when it failed the caller rejects. -/
  | inject (i : Inject) (sent : Bool)
  | mkdir (ok : Bool)
  | stat (ok : Bool)
  /-- With the clock that names the archive. -/
  | rename (now : Int) (ok : Bool)
  /-- With the number of bytes that reached the file when the call failed. -/
  | append (fault : Option Nat)

def init : State := ⟨⟨none, []⟩, [], .mkdir, []⟩

def Log.size (l : Log) : Nat := (l.current.getD []).length

/-- `appendFile`. -/
def Log.write (l : Log) (bytes : Bytes) : Log := { l with current := some (l.current.getD [] ++ bytes) }

/-- `rename` to the archive of the given time, replacing one of that name. -/
def Log.rotate (l : Log) (now : Int) : Log :=
  ⟨none, l.archives.filter (fun a => a.1 != now) ++ [(now, l.current.getD [])]⟩

/-- The promise of the head resolves, after `catch` as after success. -/
def settle (s : State) (i : Inject) (rest : List Inject) : State :=
  { s with queue := rest, phase := .mkdir, reported := s.reported ++ [i] }

def step (s : State) : Event → Option State
  | .inject i sent => some (if sent then { s with queue := s.queue ++ [i] } else s)
  | .mkdir ok => match s.queue, s.phase with
    | i :: rest, .mkdir => some (if ok then { s with phase := .stat } else settle s i rest)
    | _, _ => none
  | .stat ok => match s.queue, s.phase with
    | _ :: _, .stat =>
      -- the inner `catch`: a missing file is not an error
      if ok ∧ s.log.current.isSome ∧ ROTATE_BYTES < s.log.size then some { s with phase := .rename }
      else some { s with phase := .append }
    | _, _ => none
  | .rename now ok => match s.queue, s.phase with
    | _ :: _, .rename =>
      some { s with log := if ok then s.log.rotate now else s.log, phase := .append }
    | _, _ => none
  | .append fault => match s.queue, s.phase with
    | i :: rest, .append => match fault with
      | none => some (settle { s with log := s.log.write (line i ++ [10]) } i rest)
      | some n =>
        if n < (line i ++ [10]).length then
          some (settle { s with log := s.log.write ((line i ++ [10]).take n) } i rest)
        else none
    | _, _ => none

/-- The complete lines of the log, archives first. -/
def Log.lines (l : Log) : List Bytes :=
  l.archives.flatMap (fun a => records 10 a.2) ++ records 10 (l.current.getD [])

/-- Every reported inject has a line of its own in the log. -/
def Accounted (s : State) : Prop := (s.reported.map line).Subperm s.log.lines

/-- The failures that cost an entry do not happen: the directory is made, the
append succeeds, and a rotation does not replace an earlier archive. -/
def Lossless (s : State) : Event → Prop
  | .mkdir ok => ok = true
  | .append fault => fault = none
  | .rename now ok => ok = true → now ∉ s.log.archives.map Prod.fst
  | _ => True

/-! ## What the log holds as records -/

structure Records where
  archives : List (Int × List Bytes)
  current : List Bytes

def Records.all (r : Records) : List Bytes := r.archives.flatMap Prod.snd ++ r.current

/-- The files are the records, each ended by a newline; no archive is empty. -/
structure Holds (l : Log) (r : Records) : Prop where
  archives : l.archives = r.archives.map fun a => (a.1, frame 10 a.2)
  current : l.current.getD [] = frame 10 r.current
  nonempty : ∀ a ∈ r.archives, a.2 ≠ []
  clean : ∀ b ∈ r.all, (10 : UInt8) ∉ b

theorem Holds.records_archives {l : Log} {r : Records} (h : Holds l r) :
    l.archives.flatMap (fun a => records 10 a.2) = r.archives.flatMap Prod.snd := by
  rw [h.archives, List.flatMap_map]
  have hclean : ∀ a ∈ r.archives, ∀ b ∈ a.2, (10 : UInt8) ∉ b := by
    intro a ha b hb
    exact h.clean b (List.mem_append_left _ (List.mem_flatMap.mpr ⟨a, ha, hb⟩))
  apply List.flatMap_congr
  intro a ha
  exact records_frame (hclean a ha)

/-- What a reader finds when the last line may be unfinished. -/
theorem Holds.lines_write {l : Log} {r : Records} (h : Holds l r) {tail : Bytes}
    (ht : 10 ∉ tail) : (l.write tail).lines = r.all := by
  have hcur : ∀ b ∈ r.current, (10 : UInt8) ∉ b := fun b hb => h.clean b (List.mem_append_right _ hb)
  have hread : records 10 ((l.write tail).current.getD []) = r.current := by
    simp only [Log.write, Option.getD_some, h.current]
    exact records_frame_append hcur ht
  unfold Log.lines
  rw [hread, show (l.write tail).archives = l.archives from rfl, h.records_archives]
  rfl

theorem Holds.lines {l : Log} {r : Records} (h : Holds l r) : l.lines = r.all := by
  have hw : (l.write []).lines = l.lines := by simp [Log.lines, Log.write]
  rw [← hw]
  exact h.lines_write (by simp)

theorem Holds.write {l : Log} {r : Records} (h : Holds l r) {b : Bytes} (hb : 10 ∉ b) :
    Holds (l.write (b ++ [10])) { r with current := r.current ++ [b] } := by
  refine ⟨h.archives, ?_, h.nonempty, ?_⟩
  · simp only [Log.write, Option.getD_some, h.current]
    rw [frame_append, frame_singleton]
  · intro c hc
    simp only [Records.all, ← List.append_assoc, List.mem_append, List.mem_singleton] at hc
    obtain (hc | hc) | rfl := hc
    · exact h.clean c (List.mem_append_left _ hc)
    · exact h.clean c (List.mem_append_right _ hc)
    · exact hb

theorem Holds.rotate {l : Log} {r : Records} (h : Holds l r) {now : Int}
    (hsize : 0 < l.size) (hfresh : now ∉ l.archives.map Prod.fst) :
    Holds (l.rotate now) ⟨r.archives ++ [(now, r.current)], []⟩ := by
  have hkeep : l.archives.filter (fun a => a.1 != now) = l.archives := by
    apply List.filter_eq_self.mpr
    intro a ha
    have hne : a.1 ≠ now := fun he => hfresh (he ▸ List.mem_map_of_mem ha)
    simpa using hne
  refine ⟨?_, rfl, ?_, ?_⟩
  · simp only [Log.rotate]
    rw [hkeep, h.archives, h.current, List.map_append, List.map_singleton]
  · intro a ha
    obtain ha | ha := List.mem_append.mp ha
    · exact h.nonempty a ha
    · rw [List.mem_singleton.mp ha]
      have hframe : frame 10 r.current ≠ [] := by
        rw [← h.current]
        exact List.length_pos_iff.mp hsize
      exact frame_ne_nil hframe
  · intro b hb
    apply h.clean b
    simpa [Records.all] using hb

theorem length_flatMap_filter_lt {α β : Type} {f : α → List β} {p : α → Bool} {as : List α} {a : α}
    (ha : a ∈ as) (hp : p a = false) (hf : f a ≠ []) :
    ((as.filter p).flatMap f).length < (as.flatMap f).length := by
  induction as with
  | nil => cases ha
  | cons b bs ih =>
    have hle : ((bs.filter p).flatMap f).length ≤ (bs.flatMap f).length :=
      (List.filter_sublist.flatMap f).length_le
    obtain rfl | hb := List.mem_cons.mp ha
    · have hpos := List.length_pos_iff.mpr hf
      simp only [List.filter_cons, hp, List.flatMap_cons, List.length_append]
      simp only [Bool.false_eq_true, if_false]
      omega
    · have hlt := ih hb
      cases hpb : p b with
      | true =>
        simp only [List.filter_cons, hpb, if_true, List.flatMap_cons, List.length_append]
        omega
      | false =>
        simp only [List.filter_cons, hpb, Bool.false_eq_true, if_false, List.flatMap_cons,
          List.length_append]
        omega

/-- Replacing an archive loses its lines. -/
theorem Holds.rotate_lossy {l : Log} {r : Records} (h : Holds l r) {now : Int}
    (hmem : now ∈ l.archives.map Prod.fst) : (l.rotate now).lines.length < l.lines.length := by
  obtain ⟨a, ha, rfl⟩ := List.mem_map.mp hmem
  have hne : records 10 a.2 ≠ [] := by
    rw [h.archives] at ha
    obtain ⟨b, hb, rfl⟩ := List.mem_map.mp ha
    rw [records_frame fun c hc => h.clean c
      (List.mem_append_left _ (List.mem_flatMap.mpr ⟨b, hb, hc⟩))]
    exact h.nonempty b hb
  have hlt : ((l.archives.filter fun b => b.1 != a.1).flatMap fun b => records 10 b.2).length <
      (l.archives.flatMap fun b => records 10 b.2).length :=
    length_flatMap_filter_lt ha (by simp) hne
  have hnil : records (10 : UInt8) [] = [] := records_of_not_mem (by simp)
  simp only [Log.lines, Log.rotate, Option.getD_none, hnil, List.append_nil, List.flatMap_append,
    List.flatMap_singleton, List.length_append]
  omega

/-! ## One step -/

/-- What a step does, one case for each way through it. -/
inductive Takes (s : State) : Event → State → Prop
  | queued (i : Inject) : Takes s (.inject i true) { s with queue := s.queue ++ [i] }
  | notSent (i : Inject) : Takes s (.inject i false) s
  | made (hphase : s.phase = .mkdir) : Takes s (.mkdir true) { s with phase := .stat }
  | unmade {i : Inject} {rest : List Inject} (hqueue : s.queue = i :: rest)
      (hphase : s.phase = .mkdir) : Takes s (.mkdir false) (settle s i rest)
  | long (hphase : s.phase = .stat) (hsome : s.log.current.isSome = true)
      (hsize : ROTATE_BYTES < s.log.size) : Takes s (.stat true) { s with phase := .rename }
  | short {ok : Bool} (hphase : s.phase = .stat)
      (hsize : ¬ (ok = true ∧ s.log.current.isSome ∧ ROTATE_BYTES < s.log.size)) :
      Takes s (.stat ok) { s with phase := .append }
  | rotated {now : Int} (hphase : s.phase = .rename) :
      Takes s (.rename now true) { s with log := s.log.rotate now, phase := .append }
  | stayed {now : Int} (hphase : s.phase = .rename) :
      Takes s (.rename now false) { s with phase := .append }
  | appended {i : Inject} {rest : List Inject} (hqueue : s.queue = i :: rest)
      (hphase : s.phase = .append) :
      Takes s (.append none) (settle { s with log := s.log.write (line i ++ [10]) } i rest)
  | torn {i : Inject} {rest : List Inject} {n : Nat} (hqueue : s.queue = i :: rest)
      (hphase : s.phase = .append) (hn : n < (line i ++ [10]).length) :
      Takes s (.append (some n)) (settle { s with log := s.log.write ((line i ++ [10]).take n) } i rest)

theorem takes_of_step {s t : State} {e : Event} (h : step s e = some t) : Takes s e t := by
  cases e with
  | inject i sent =>
    cases sent with
    | true => cases h; exact .queued i
    | false => cases h; exact .notSent i
  | mkdir ok =>
    simp only [step] at h
    split at h
    · rename_i hqueue hphase
      cases ok with
      | true => cases h; exact .made hphase
      | false => cases h; exact .unmade hqueue hphase
    · cases h
  | stat ok =>
    simp only [step] at h
    split at h
    · rename_i hphase
      split at h
      · rename_i hsize
        obtain ⟨rfl, hsome, hlong⟩ := hsize
        cases h
        exact .long hphase hsome hlong
      · rename_i hsize
        cases h
        exact .short hphase hsize
    · cases h
  | rename now ok =>
    simp only [step] at h
    split at h
    · rename_i hphase
      cases ok with
      | true => cases h; exact .rotated hphase
      | false => cases h; exact .stayed hphase
    · cases h
  | append fault =>
    simp only [step] at h
    split at h
    · rename_i hqueue hphase
      cases fault with
      | none => cases h; exact .appended hqueue hphase
      | some n =>
        simp only at h
        split at h
        · rename_i hn
          cases h
          exact .torn hqueue hphase hn
        · cases h
    · cases h

/-! ## Runs -/

/-- Between two steps of a run without losses: the log holds the lines of the
reported injects, in order. -/
structure Inv (s : State) : Prop where
  holds : ∃ r, Holds s.log r ∧ r.all = s.reported.map line
  rotating : s.phase = .rename → ROTATE_BYTES < s.log.size

theorem inv_init : Inv init := by
  refine ⟨⟨⟨[], []⟩, ⟨rfl, rfl, ?_, ?_⟩, rfl⟩, ?_⟩
  · intro a ha; cases ha
  · intro b hb; cases hb
  · intro h; cases h

theorem Inv.lines {s : State} (h : Inv s) : s.log.lines = s.reported.map line := by
  obtain ⟨r, hr, hall⟩ := h.holds
  rw [hr.lines, hall]

theorem Inv.accounted {s : State} (h : Inv s) : Accounted s := by
  unfold Accounted
  rw [h.lines]

/-- Fewer lines than reports: some inject has none. -/
theorem not_accounted_of_length {s : State} (h : s.log.lines.length < s.reported.length) :
    ¬ Accounted s := by
  intro hacc
  have hle := hacc.length_le
  rw [List.length_map] at hle
  omega

theorem step_keeps {s t : State} {e : Event} (h : step s e = some t) (hc : Lossless s e)
    (hi : Inv s) : Inv t := by
  obtain ⟨⟨r, hr, hall⟩, hrot⟩ := hi
  cases takes_of_step h with
  | queued i => exact ⟨⟨r, hr, hall⟩, hrot⟩
  | notSent i => exact ⟨⟨r, hr, hall⟩, hrot⟩
  | made _ => exact ⟨⟨r, hr, hall⟩, fun hp => by cases hp⟩
  | unmade _ _ => cases hc
  | long _ _ hsize => exact ⟨⟨r, hr, hall⟩, fun _ => hsize⟩
  | short _ _ => exact ⟨⟨r, hr, hall⟩, fun hp => by cases hp⟩
  | rotated hphase =>
    have hsize := hrot hphase
    have hrotated := hr.rotate (by omega) (hc rfl)
    refine ⟨⟨_, hrotated, ?_⟩, fun hp => by cases hp⟩
    rw [← hall]
    simp [Records.all]
  | stayed _ => exact ⟨⟨r, hr, hall⟩, fun hp => by cases hp⟩
  | @appended i rest _ _ =>
    refine ⟨⟨_, hr.write (newline_not_mem_line i), ?_⟩, fun hp => by cases hp⟩
    simp only [Records.all, settle, List.map_append, List.map_singleton, ← hall, List.append_assoc]
  | torn _ _ _ => cases hc

/-- A step that costs an entry leaves a report without a line. -/
theorem step_breaks {s t : State} {e : Event} (h : step s e = some t) (hi : Inv s)
    (hc : ¬ Lossless s e) : ¬ Accounted t := by
  have hlen : s.log.lines.length = s.reported.length := by rw [hi.lines, List.length_map]
  obtain ⟨⟨r, hr, hall⟩, hrot⟩ := hi
  cases takes_of_step h with
  | queued i => exact absurd trivial hc
  | notSent i => exact absurd trivial hc
  | made _ => exact absurd rfl hc
  | @unmade i rest _ _ =>
    apply not_accounted_of_length
    simp only [settle, List.length_append, List.length_singleton]
    omega
  | long _ _ _ => exact absurd trivial hc
  | short _ _ => exact absurd trivial hc
  | @rotated now _ =>
    simp only [Lossless, Classical.not_imp, not_not] at hc
    apply not_accounted_of_length
    have hlt := hr.rotate_lossy hc.2
    simp only
    omega
  | stayed _ => exact absurd (fun hok => by cases hok) hc
  | appended _ _ => exact absurd rfl hc
  | @torn i rest n _ _ hn =>
    rw [List.length_append, List.length_singleton] at hn
    -- what was written of the line does not reach its newline
    have htail : 10 ∉ (line i ++ [10]).take n := by
      rw [List.take_append_of_le_length (by omega)]
      intro hmem
      exact newline_not_mem_line i (List.mem_of_mem_take hmem)
    apply not_accounted_of_length
    have hwritten := hr.lines_write htail
    have hbefore := hr.lines
    simp only [settle, hwritten, List.length_append, List.length_singleton]
    rw [← hbefore]
    omega

/-- Reported injects are in the log throughout a run exactly when no step of
the run loses an entry. -/
theorem reported_injects_logged {es : List Event} {s : State} (h : exec step init es = some s) :
    (∀ t, Visited step init es t → Accounted t) ↔ Along step Lossless init es :=
  visited_iff_along inv_init (fun _ _ _ hst hc hi => step_keeps hst hc hi)
    (fun _ hi => hi.accounted) (fun _ _ _ hst hi hc => step_breaks hst hi hc) h

def approval : Inject :=
  { caller := .injectCmd
    entry := { ts := .finite 1, pid := .finite 4242, repo := js "demo", action := .inject,
               text := some (js "y"), source := .userApproved, confidence := none, reason := none } }

theorem reported_injects_logged_once :
    ∃ s, exec step init [.inject approval true, .mkdir true, .stat false, .append none] = some s ∧
      ((∀ t, Visited step init [.inject approval true, .mkdir true, .stat false, .append none] t →
          Accounted t) ↔
        Along step Lossless init [.inject approval true, .mkdir true, .stat false, .append none]) :=
  ⟨_, rfl, reported_injects_logged rfl⟩

/-- The directory cannot be made, the command prints its success, and the log
has no line. -/
theorem failed_mkdir_loses_entry :
    ∃ t, Visited step init [.inject approval true, .mkdir false] t ∧
      t.reported = [approval] ∧ t.log.lines = [] ∧ ¬ Accounted t := by
  refine ⟨_, visited_now rfl, rfl, rfl, ?_⟩
  exact not_accounted_of_length (by decide)

end Conductor.Tmux.Audit
