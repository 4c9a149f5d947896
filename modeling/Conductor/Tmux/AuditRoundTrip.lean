import Conductor.Js.JsonRoundTrip
import Conductor.Js.ToNumber
import Conductor.Jsonl.TailLines
import Conductor.Mcp.Handlers
import Conductor.Tmux.AuditOrder

/-! # Entries read back from the audit log

`appendAudit` writes an entry as one line of JSON, and the readers cut the file at
its newlines and parse each line. An entry is an object whose members may stand in
any order; whatever its texts hold, the readers get that object back. -/
namespace Conductor.Tmux.AuditRoundTrip
open Conductor.Lib.Framing Conductor.Lib.Runs Conductor.Js.Text Conductor.Js.Number Conductor.Js.Values
open Conductor.Js.JsonText Conductor.Js.Utf8 Conductor.Js.Utf8Cut Conductor.Js.Doubles
open Conductor.Js.ToNumber Conductor.Js.JsonAccepts Conductor.Js.JsonCut Conductor.Js.JsonRoundTrip Conductor.Sessions.Types
open Conductor.Jsonl.TailLines Conductor.Mcp.Handlers Conductor.Tmux.Audit Conductor.Tmux.AuditOrder

/-! ## Entries as objects -/

/-- The members of an entry besides its time; an absent optional has none. -/
def body (e : AuditEntry) : List (JsString × Json) :=
  [(js "pid", Json.num e.pid), (js "repo", .str e.repo), (js "action", .str (actionText e.action))]
    ++ e.text.toList.map (fun t => (js "text", .str t))
    ++ [(js "source", .str (sourceText e.source))]
    ++ e.confidence.toList.map (fun c => (js "confidence", .str (confidenceText c)))
    ++ e.reason.toList.map fun r => (js "reason", .str r)

def fields (e : AuditEntry) : List (JsString × Json) := (js "ts", .num e.ts) :: body e

/-- An entry with the order in which its object was built. -/
structure EntryObject where
  entry : AuditEntry
  members : List (JsString × Json)
  order : members.Perm (fields entry)

def EntryObject.json (o : EntryObject) : Json := .obj o.members

/-- The object of one of the five callers. -/
def objectOf (i : Inject) : EntryObject where
  entry := i.entry
  members := if i.caller = .injectTool then body i.entry ++ [(js "ts", .num i.entry.ts)] else fields i.entry
  order := by
    split
    · exact List.perm_append_singleton _ _
    · exact List.Perm.refl _

theorem objectOf_json (i : Inject) : (objectOf i).json = entryJson i := by
  cases i with
  | mk caller entry => cases caller <;> rfl

structure FiniteNumbers (e : AuditEntry) : Prop where
  ts : ∃ q, e.ts = .finite q ∧ IsDouble (.finite q)
  pid : ∃ q, e.pid = .finite q ∧ IsDouble (.finite q)

/-! ## The fields of an object -/

def FIELDS : List JsString :=
  [js "ts", js "pid", js "repo", js "action", js "text", js "source", js "confidence", js "reason"]

theorem keys_optional {α : Type} (o : Option α) (key : JsString) (g : α → Json) :
    (keys (o.toList.map fun v => (key, g v))).Sublist [key] := by
  cases o with
  | none => exact List.nil_sublist _
  | some v => exact List.Sublist.refl _

theorem keys_fields (e : AuditEntry) : (keys (fields e)).Sublist FIELDS := by
  have hkeys : keys (fields e) = [js "ts", js "pid", js "repo", js "action"] ++
      keys (e.text.toList.map fun t => (js "text", Json.str t)) ++ [js "source"] ++
      keys (e.confidence.toList.map fun c => (js "confidence", Json.str (confidenceText c))) ++
      keys (e.reason.toList.map fun r => (js "reason", Json.str r)) := by
    simp [keys, fields, body]
  rw [hkeys]
  exact ((((List.Sublist.refl _).append (keys_optional _ _ _)).append (List.Sublist.refl _)).append
    (keys_optional _ _ _)).append (keys_optional _ _ _)

theorem EntryObject.nodup (o : EntryObject) : (keys o.members).Nodup := by
  have hperm : (keys o.members).Perm (keys (fields o.entry)) := o.order.map Prod.fst
  exact hperm.nodup_iff.mpr ((keys_fields o.entry).nodup (by decide))

theorem lookup_eq_some_iff {ms : List (JsString × Json)} (h : (keys ms).Nodup) {key : JsString} {v : Json} :
    ms.lookup key = some v ↔ (key, v) ∈ ms := by
  induction ms with
  | nil => simp
  | cons m ms ih =>
    obtain ⟨k, w⟩ := m
    obtain ⟨hnot, hrest⟩ := List.nodup_cons.mp h
    rw [List.lookup_cons, List.mem_cons, Prod.mk.injEq]
    cases hk : key == k with
    | true =>
      have hkey : key = k := by simpa using hk
      subst hkey
      have hmem : (key, v) ∉ ms := fun hmem => hnot (List.mem_map.mpr ⟨_, hmem, rfl⟩)
      simp [hmem, eq_comm]
    | false =>
      have hkey : key ≠ k := by simpa using hk
      simp [hkey, ih hrest]

/-- What an object says of a key does not depend on the order of its members. -/
theorem EntryObject.lookup (o : EntryObject) (key : JsString) :
    optProp (some o.json) key = (fields o.entry).lookup key := by
  have hfields : (keys (fields o.entry)).Nodup := (keys_fields o.entry).nodup (by decide)
  ext v
  exact (lookup_eq_some_iff o.nodup).trans (o.order.mem_iff.trans (lookup_eq_some_iff hfields).symm)

/-! ## Objects as entries -/

def actionOf (text : JsString) : Option AuditAction :=
  [AuditAction.inject, .abort, .restart].find? fun a => actionText a == text

def sourceOf (text : JsString) : Option AuditSource :=
  [AuditSource.userApproved, .auto, .skill].find? fun s => sourceText s == text

def confidenceOf (text : JsString) : Option Confidence :=
  [Confidence.low, .medium, .high].find? fun c => confidenceText c == text

def numberField (v : Json) (key : JsString) : Option JsNumber :=
  match optProp (some v) key with
  | some (.num n) => some n
  | _ => none

def textField (v : Json) (key : JsString) : Option JsString :=
  match optProp (some v) key with
  | some (.str s) => some s
  | _ => none

/-- A member that may be absent. -/
def optionalField {α : Type} (v : Json) (key : JsString) (read : JsString → Option α) : Option (Option α) :=
  match optProp (some v) key with
  | none => some none
  | some (.str s) => (read s).map some
  | some _ => none

/-- The entry that an object stands for. -/
def readEntry (v : Json) : Option AuditEntry := do
  let ts ← numberField v (js "ts")
  let pid ← numberField v (js "pid")
  let repo ← textField v (js "repo")
  let action ← (textField v (js "action")).bind actionOf
  let text ← optionalField v (js "text") some
  let source ← (textField v (js "source")).bind sourceOf
  let confidence ← optionalField v (js "confidence") confidenceOf
  let reason ← optionalField v (js "reason") some
  return { ts, pid, repo, action, text, source, confidence, reason }

theorem lookup_text (e : AuditEntry) : (fields e).lookup (js "text") = e.text.map .str := by
  obtain ⟨ts, pid, repo, action, text, source, confidence, reason⟩ := e
  cases text with
  | some t => rfl
  | none => cases confidence <;> cases reason <;> rfl

theorem lookup_source (e : AuditEntry) :
    (fields e).lookup (js "source") = some (.str (sourceText e.source)) := by
  obtain ⟨ts, pid, repo, action, text, source, confidence, reason⟩ := e
  cases text <;> rfl

theorem lookup_confidence (e : AuditEntry) :
    (fields e).lookup (js "confidence") = e.confidence.map fun c => .str (confidenceText c) := by
  obtain ⟨ts, pid, repo, action, text, source, confidence, reason⟩ := e
  cases text <;> cases confidence <;> cases reason <;> rfl

theorem lookup_reason (e : AuditEntry) : (fields e).lookup (js "reason") = e.reason.map .str := by
  obtain ⟨ts, pid, repo, action, text, source, confidence, reason⟩ := e
  cases text <;> cases confidence <;> cases reason <;> rfl

theorem actionOf_text (a : AuditAction) : actionOf (actionText a) = some a := by
  cases a <;> decide

theorem sourceOf_text (s : AuditSource) : sourceOf (sourceText s) = some s := by
  cases s <;> decide

theorem confidenceOf_text (c : Confidence) : confidenceOf (confidenceText c) = some c := by
  cases c <;> decide

/-- An optional that is written as a text is read back, or is still absent. -/
theorem optionalField_json (o : EntryObject) {α : Type} {key : JsString} {value : Option α} {write : α → JsString}
    {read : JsString → Option α} (hkey : (fields o.entry).lookup key = value.map fun v => .str (write v))
    (hread : ∀ v, read (write v) = some v) : optionalField o.json key read = some value := by
  rw [optionalField, o.lookup, hkey]
  cases value with
  | none => rfl
  | some v => exact congrArg (Option.map some) (hread v)

/-- An object says everything of its entry. -/
theorem readEntry_json (o : EntryObject) : readEntry o.json = some o.entry := by
  have hts : numberField o.json (js "ts") = some o.entry.ts := by
    rw [numberField, o.lookup]
    rfl
  have hpid : numberField o.json (js "pid") = some o.entry.pid := by
    rw [numberField, o.lookup]
    rfl
  have hrepo : textField o.json (js "repo") = some o.entry.repo := by
    rw [textField, o.lookup]
    rfl
  have haction : textField o.json (js "action") = some (actionText o.entry.action) := by
    rw [textField, o.lookup]
    rfl
  have hsource : textField o.json (js "source") = some (sourceText o.entry.source) := by
    rw [textField, o.lookup, lookup_source]
  have htext : optionalField o.json (js "text") some = some o.entry.text :=
    @optionalField_json o _ _ _ id some (lookup_text o.entry) fun t => rfl
  have hconfidence := optionalField_json o (lookup_confidence o.entry) confidenceOf_text
  have hreason : optionalField o.json (js "reason") some = some o.entry.reason :=
    @optionalField_json o _ _ _ id some (lookup_reason o.entry) fun t => rfl
  unfold readEntry
  rw [hts, hpid, hrepo, haction, hsource, htext, hconfidence, hreason]
  simp only [Option.bind_eq_bind, Option.bind_some, actionOf_text, sourceOf_text]
  rfl

/-! ## What the readers find -/

/-- The file with the lines of these objects. -/
def fileOf (os : List EntryObject) : Bytes := frame 10 (os.map fun o => encode (stringify o.json))

theorem sound_fields {e : AuditEntry} (h : FiniteNumbers e) :
    ∀ m ∈ fields e, Sound m.2 ∧ readBack m.2 = m.2 := by
  obtain ⟨ts, hts, htsDouble⟩ := h.ts
  obtain ⟨pid, hpid, hpidDouble⟩ := h.pid
  have htext : ∀ s : JsString, Sound (.str s) ∧ readBack (.str s) = .str s := fun s => ⟨trivial, rfl⟩
  intro m hm
  simp only [fields, body, List.mem_cons, List.mem_append, List.mem_map, List.not_mem_nil, or_false] at hm
  obtain rfl | (((((rfl | rfl | rfl) | ⟨t, -, rfl⟩) | rfl) | ⟨c, -, rfl⟩) | ⟨r, -, rfl⟩) := hm
  · rw [hts]
    exact ⟨htsDouble, rfl⟩
  · rw [hpid]
    exact ⟨hpidDouble, rfl⟩
  · exact htext _
  · exact htext _
  · exact htext _
  · exact htext _
  · exact htext _
  · exact htext _

theorem sound_json {o : EntryObject} (h : FiniteNumbers o.entry) : Sound o.json := by
  refine ⟨o.nodup, soundMembers_iff.mpr fun m hm => ?_⟩
  exact (sound_fields h m (o.order.mem_iff.mp hm)).1

theorem readBack_json {o : EntryObject} (h : FiniteNumbers o.entry) : readBack o.json = o.json := by
  have hmembers : readBackMembers o.members = o.members := by
    rw [readBackMembers_eq]
    calc o.members.map (fun m => (m.1, readBack m.2))
        = o.members.map id := List.map_congr_left fun m hm =>
          Prod.ext rfl (sound_fields h m (o.order.mem_iff.mp hm)).2
      _ = o.members := List.map_id _
  rw [EntryObject.json, readBack_obj o.nodup, hmembers]

/-- Every line is one entry, and nothing is skipped. -/
theorem auditEntries_fileOf {os : List EntryObject} (h : ∀ o ∈ os, FiniteNumbers o.entry) :
    auditEntries (decode (fileOf os)) = os.map (·.json) := by
  induction os with
  | nil => rfl
  | cons o os ih =>
    have hnum : FiniteNumbers o.entry := h o List.mem_cons_self
    have hline : 10 ∉ stringify o.json := fun hmem =>
      absurd (printable_stringify o.json 10 hmem) (by decide)
    have hblank : (trim (stringify o.json)).isEmpty = false := trim_text ⟨o.members, (sound_json hnum).doubles⟩
    have hparse : parse (stringify o.json) = some o.json := by
      rw [parse_of_writes (writes_stringify o.json (sound_json hnum).doubles), readBack_json hnum]
    have hfile : fileOf (o :: os) = encode (stringify o.json) ++ 10 :: fileOf os := by simp [fileOf, frame]
    rw [hfile, decode_newline, decode_encode_stringify, auditEntries, lines_cons hline, List.filterMap_cons, hblank]
    simp only [Bool.false_eq_true, if_false, hparse, List.map_cons]
    exact congrArg (o.json :: ·) (ih fun p hp => h p (List.mem_cons_of_mem o hp))

/-! ## Calls without a rotation -/

/-- One call of which no file-system call fails, with the clock that names an archive. -/
def appendAudit (l : Log) (call : EntryObject × Int) : Log :=
  (if l.current.isSome ∧ ROTATE_BYTES < l.size then l.rotate call.2 else l).write
    (encode (stringify call.1.json) ++ [10])

def appendAll (calls : List (EntryObject × Int)) : Log := calls.foldl appendAudit init.log

theorem appendAudit_archives {l : Log} {call : EntryObject × Int} (h : (appendAudit l call).archives = []) :
    l.archives = [] ∧ appendAudit l call = l.write (encode (stringify call.1.json) ++ [10]) := by
  unfold appendAudit at h ⊢
  split at h
  · simp [Log.write, Log.rotate] at h
  · rename_i hsmall
    rw [if_neg hsmall]
    exact ⟨h, rfl⟩

theorem appendAll_file (calls : List (EntryObject × Int)) (h : (appendAll calls).archives = []) :
    (appendAll calls).current.getD [] = fileOf (calls.map Prod.fst) := by
  induction calls using List.reverseRecOn with
  | nil => rfl
  | append_singleton calls call ih =>
    have hsnoc : appendAll (calls ++ [call]) = appendAudit (appendAll calls) call := by
      simp [appendAll]
    rw [hsnoc] at h ⊢
    obtain ⟨hbefore, hwrite⟩ := appendAudit_archives h
    rw [hwrite, Log.write, Option.getD_some, ih hbefore]
    simp [fileOf, frame]

/-- A queue that rotated nothing has written one file. -/
theorem queue_file {es : List AuditOrder.Event} {s : State} (h : exec AuditOrder.step init es = some s)
    (hrot : rotations es = []) : s.log.current.getD [] = fileOf ((written es).map objectOf) := by
  obtain ⟨r, hr, hnames, hall⟩ := (inv_run h (by rw [hrot]; exact List.nodup_nil)).inOrder.files
  rw [hrot, List.map_eq_nil_iff] at hnames
  have hrecords : r.current = (written es).map line := by
    rw [← hall, Records.all, hnames]
    rfl
  rw [hr.current, hrecords, fileOf, List.map_map]
  refine congrArg (frame 10) (List.map_congr_left fun i _ => ?_)
  show line i = encode (stringify (objectOf i).json)
  rw [objectOf_json, line]

/-- The file after calls with these entries, all of which succeeded and none of which
rotated: one call after another, or made while earlier ones are pending. -/
inductive Appended : List EntryObject → Bytes → Prop
  | inTurn (calls : List (EntryObject × Int)) (hrot : (appendAll calls).archives = []) :
      Appended (calls.map Prod.fst) ((appendAll calls).current.getD [])
  | queued {es : List AuditOrder.Event} {s : State} (hrun : exec AuditOrder.step init es = some s)
      (hrot : rotations es = []) (hdone : s.queue = []) (hok : ∀ ok ∈ outcomes es, ok = true) :
      Appended ((calls es).map objectOf) (s.log.current.getD [])

theorem appended_file {os : List EntryObject} {raw : Bytes} (h : Appended os raw) : raw = fileOf os := by
  cases h with
  | inTurn calls hrot => exact appendAll_file calls hrot
  | @queued es s hrun hrot hdone hok =>
    have hin := (inv_run hrun (by rw [hrot]; exact List.nodup_nil)).inOrder
    have hcalls : calls es = s.reported := by rw [hin.served, hdone, List.append_nil]
    have houtcomes : outcomes es = List.replicate s.reported.length true :=
      List.eq_replicate_iff.mpr ⟨hin.settled, hok⟩
    have hwritten : written es = calls es := by
      rw [written_eq hin.served hin.settled, houtcomes, succeeded_zip_true, hcalls]
    rw [queue_file hrun hrot, hwritten]

/-- The readers return the objects that were appended, in order, and each says what its
entry says. -/
theorem audit_round_trip {os : List EntryObject} {raw : Bytes} (h : Appended os raw)
    (hnum : ∀ o ∈ os, FiniteNumbers o.entry) :
    auditEntries (decode raw) = os.map (·.json) ∧
      (auditEntries (decode raw)).map readEntry = os.map fun o => some o.entry := by
  have hread : auditEntries (decode raw) = os.map (·.json) := by
    rw [appended_file h, auditEntries_fileOf hnum]
  refine ⟨hread, ?_⟩
  rw [hread, List.map_map]
  exact List.map_congr_left fun o _ => readEntry_json o

/-- Two lines, quotes, a line separator and half of a surrogate pair. -/
def oddText : Inject :=
  { caller := .injectTool
    entry := { ts := .finite 1, pid := .finite 4242, repo := js "demo", action := .inject,
               text := some [0x61, 10, 0x22, 0x2028, 0xD800], source := .userApproved, confidence := none,
               reason := some [] } }

def twoAppends : List AuditOrder.Event :=
  [.call oddText, .call approval, .mkdir true, .stat false, .append true, .mkdir true, .stat false, .append true]

theorem audit_round_trip_twoAppends : ∃ s, exec AuditOrder.step init twoAppends = some s ∧
    (auditEntries (decode (s.log.current.getD []))).map readEntry = [some oddText.entry, some approval.entry] := by
  have hts : IsDouble (.finite 1) := by simpa [IsDouble] using nearestDouble_natCast (by norm_num : 1 < 2 ^ 53)
  have hpid : IsDouble (.finite 4242) := by
    simpa [IsDouble] using nearestDouble_natCast (by norm_num : 4242 < 2 ^ 53)
  obtain ⟨s, hrun, hdone⟩ : ∃ s, exec AuditOrder.step init twoAppends = some s ∧ s.queue = [] := ⟨_, rfl, rfl⟩
  refine ⟨s, hrun, (audit_round_trip (.queued hrun rfl hdone (by decide)) fun o ho => ?_).2⟩
  obtain rfl | rfl : o = objectOf oddText ∨ o = objectOf approval := by simpa [calls, twoAppends] using ho
  · exact ⟨⟨1, rfl, hts⟩, ⟨4242, rfl, hpid⟩⟩
  · exact ⟨⟨1, rfl, hts⟩, ⟨4242, rfl, hpid⟩⟩

end Conductor.Tmux.AuditRoundTrip
