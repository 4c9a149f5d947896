import Conductor.Js.JsonRoundTrip
import Conductor.Reminders.Cli

/-! # Todos in a local file

The backend of a machine without a reminders program: one JSON file, which
every call reads as a whole and every change writes as a whole. -/
namespace Conductor.Reminders.FallbackFile
open Conductor.Js Conductor.Js.Text Conductor.Js.Number Conductor.Js.Values Conductor.Js.JsonText
open Conductor.Js.Utf8 Conductor.Js.Doubles Conductor.Js.Numerals Conductor.Js.JsonAccepts
open Conductor.Js.JsonRoundTrip
open Conductor.Reminders.Poll Conductor.Reminders.Metadata Conductor.Reminders.Cli

/-- The members of a todo. What stands in the file need not be a `ReminderTodo`. -/
abbrev Todo := List (JsString × Json)

/-- `{ ...v }`. -/
def spread : Json → Todo
  | .obj ms => ms
  | .arr xs => xs.zipIdx.map fun (x, i) => (js (toString i), x)
  | .str s => s.zipIdx.map fun (u, i) => (js (toString i), .str [u])
  | _ => []

/-- `{ ...t, metadata: parseTodoMetadata(t.notes) }`. -/
def withMetadata (t : Json) : Except JsError Todo := do
  let notes ← prop t (js "notes")
  let metadata ← metadataOf (orElse notes .null)
  return setMember (spread t) (js "metadata") (metadataJson metadata)

/-- The todos of the text; `none` where the parser or the map over them throws. -/
def todosOfText (raw : JsString) : Option (List Todo) :=
  match parse raw with
  | some (.arr ts) => (ts.mapM withMetadata).toOption
  | _ => none

/-- The todos, from what the read of the file delivers; none where it fails. The
name of the list is not looked at. -/
def listTodos (_list : JsString) (file : Option Bytes) : List Todo :=
  (file.bind fun bytes => todosOfText (decode bytes)).getD []

/-- `({ metadata: _m, ...rest }) => rest`. -/
def onDisk (t : Todo) : Todo := t.filter fun m => m.1 != js "metadata"

/-- What `fs.writeFile` is given for the todos. -/
def fileOf (todos : List Todo) : Bytes :=
  encode (stringifyIndented 0 (.arr (todos.map fun t => .obj (onDisk t))))

def localId (now : Int) : JsString := js "local-" ++ Text.ofInt now

/-- `input.metadata ?? {}`. -/
def given (input : AddTodoInput) : TodoMetadata :=
  match input.metadata with
  | none => ⟨none, none, none⟩
  | some (pid, repo, phase) => ⟨some pid, some repo, some phase⟩

/-- The todo that `addTodo` makes at a reading of the clock. -/
def newTodo (input : AddTodoInput) (list : JsString) (now : Int) : ReminderTodo where
  id := localId now
  title := input.title
  list
  notes := if fullNotes input = [] then none else some (fullNotes input)
  due := input.due
  priority := .finite 0
  completed := false
  metadata := given input

def textOrNull : Option JsString → Json
  | none => .null
  | some s => .str s

/-- The members of a `ReminderTodo`, in the order of its literal. -/
def todoMembers (t : ReminderTodo) : Todo :=
  [(js "id", .str t.id), (js "title", .str t.title), (js "list", .str t.list),
   (js "notes", textOrNull t.notes), (js "due", textOrNull t.due), (js "priority", .num t.priority),
   (js "completed", .bool t.completed), (js "metadata", metadataJson t.metadata)]

/-- What it resolves with, and the file that it writes. -/
def addTodo (input : AddTodoInput) (list : JsString) (now : Int) (file : Option Bytes) :
    ReminderTodo × Bytes :=
  let todos := listTodos list file
  let newTodo := newTodo input list now
  (newTodo, fileOf (todos ++ [todoMembers newTodo]))

/-- `t.id === id ? { ...t, completed: true } : t`. -/
def complete (id : JsString) (t : Todo) : Todo :=
  if isText (t.lookup (js "id")) id then setMember t (js "completed") (.bool true) else t

/-- The `ok` that it resolves with, and the file that it writes. -/
def completeTodo (id : JsString) (file : Option Bytes) : Bool × Bytes :=
  let todos := listTodos ACTIVE_LIST file
  (true, fileOf (todos.map (complete id)))

/-! ## The member that is not written -/

theorem keys_onDisk (t : Todo) : keys (onDisk t) = (keys t).filter (· != js "metadata") := by
  rw [keys, keys, onDisk, List.filter_map]
  rfl

theorem onDisk_setMetadata (t : Todo) (v : Json) : onDisk (setMember t (js "metadata") v) = onDisk t := by
  by_cases hk : js "metadata" ∈ keys t
  · rw [setMember_of_mem hk]
    clear hk
    induction t with
    | nil => rfl
    | cons m t ih =>
      simp only [onDisk, List.map_cons, List.filter_cons] at ih ⊢
      rw [ih]
      by_cases hm : m.1 = js "metadata"
      · simp [hm]
      · simp [hm]
  · rw [setMember_of_notMem hk, onDisk, List.filter_append]
    simp [onDisk]

theorem onDisk_setMember {key : JsString} (h : key ≠ js "metadata") (t : Todo) (v : Json) :
    onDisk (setMember t key v) = setMember (onDisk t) key v := by
  have hmem : key ∈ keys (onDisk t) ↔ key ∈ keys t := by
    rw [keys_onDisk, List.mem_filter]
    simp [h]
  by_cases hk : key ∈ keys t
  · rw [setMember_of_mem hk, setMember_of_mem (hmem.mpr hk)]
    clear hk hmem
    induction t with
    | nil => rfl
    | cons m t ih =>
      simp only [onDisk, List.map_cons, List.filter_cons] at ih ⊢
      rw [ih]
      by_cases hm : m.1 = key
      · simp [hm, h]
      · by_cases hd : m.1 = js "metadata"
        · simp [hd, h.symm]
        · simp [hm, hd]
  · rw [setMember_of_notMem hk, setMember_of_notMem (fun hk' => hk (hmem.mp hk')), onDisk,
      List.filter_append]
    simp [onDisk, h]

theorem onDisk_onDisk (t : Todo) : onDisk (onDisk t) = onDisk t := by
  simp [onDisk, List.filter_filter]

theorem lookup_onDisk {key : JsString} (h : key ≠ js "metadata") (t : Todo) :
    (onDisk t).lookup key = t.lookup key := by
  induction t with
  | nil => rfl
  | cons m t ih =>
    by_cases hm : m.1 = js "metadata"
    · have hne : (key == m.1) = false := by simp [hm, h]
      rw [List.lookup_cons, hne, ← ih]
      simp [onDisk, hm]
    · have hkeep : onDisk (m :: t) = m :: onDisk t := by simp [onDisk, hm]
      rw [hkeep, List.lookup_cons, List.lookup_cons, ih]

/-! ## What is written is read back -/

/-- A todo as it stands in the file after it was written. -/
def settled (t : Todo) : Todo := readBackMembers (onDisk t)

/-- A todo that can be written and listed again. -/
structure Listed (t : Todo) : Prop where
  nodup : (keys (onDisk t)).Nodup
  sound : SoundMembers (onDisk t)
  notes : ∃ m, metadataOf (orElse (t.lookup (js "notes")) .null) = .ok m

theorem onDisk_settled (t : Todo) : onDisk (settled t) = settled t := by
  rw [settled, readBackMembers_eq, onDisk, List.filter_map]
  exact congrArg _ (onDisk_onDisk t)

theorem Listed.settled_settled {t : Todo} (h : Listed t) : settled (settled t) = settled t := by
  rw [settled, onDisk_settled]
  exact readBackMembers_readBack h.sound

theorem metadataOf_readBack {notes : Option Json} {m : TodoMetadata}
    (h : metadataOf (orElse notes .null) = .ok m) :
    metadataOf (orElse (notes.map readBack) .null) = .ok m := by
  cases notes with
  | none => exact h
  | some v =>
    cases v with
    | num n =>
      cases n with
      | nan => exact h
      | infinity negative => cases h
      | finite q => exact h
    | null => exact h
    | bool b => exact h
    | str s => exact h
    | arr xs => cases h
    | obj ms => cases h

theorem withMetadata_settled {t : Todo} {m : TodoMetadata}
    (hm : metadataOf (orElse (t.lookup (js "notes")) .null) = .ok m) :
    withMetadata (.obj (settled t)) = .ok (setMember (settled t) (js "metadata") (metadataJson m)) := by
  have hnotes : (settled t).lookup (js "notes") = (t.lookup (js "notes")).map readBack := by
    rw [settled, lookup_readBack, lookup_onDisk (by decide)]
  have hread : metadataOf (orElse ((settled t).lookup (js "notes")) .null) = .ok m := by
    rw [hnotes]
    exact metadataOf_readBack hm
  simp only [withMetadata, prop, pure_bind, spread, hread]
  rfl

/-- A listed todo as the next listing shows it. -/
def relisted (t : Todo) : Todo :=
  setMember (settled t) (js "metadata") (metadataJson
    ((metadataOf (orElse (t.lookup (js "notes")) .null)).toOption.getD ⟨none, none, none⟩))

theorem withMetadata_relisted {t : Todo} (h : Listed t) :
    withMetadata (.obj (settled t)) = .ok (relisted t) := by
  obtain ⟨m, hm⟩ := h.notes
  rw [withMetadata_settled hm, relisted, hm]
  rfl

theorem readBack_file {ts : List Todo} (h : ∀ t ∈ ts, Listed t) :
    readBack (.arr (ts.map fun t => .obj (onDisk t))) = .arr (ts.map fun t => .obj (settled t)) := by
  rw [readBack, readBackAll_eq, List.map_map]
  congr 1
  exact List.map_congr_left fun t ht => readBack_obj (h t ht).nodup

theorem parse_fileOf {ts : List Todo} (h : ∀ t ∈ ts, Listed t) :
    parse (decode (fileOf ts)) = some (.arr (ts.map fun t => .obj (settled t))) := by
  have hsound : Sound (.arr (ts.map fun t => .obj (onDisk t))) := by
    refine soundAll_iff.mpr fun x hx => ?_
    obtain ⟨t, ht, rfl⟩ := List.mem_map.mp hx
    exact ⟨(h t ht).nodup, (h t ht).sound⟩
  have hparse := parse_decode_encode (writes_indented _ 0 hsound.doubles)
  rwa [readBack_file h] at hparse

/-- The todos that were written are the todos that are listed. -/
theorem listTodos_fileOf {ts : List Todo} (h : ∀ t ∈ ts, Listed t) (list : JsString) :
    listTodos list (some (fileOf ts)) = ts.map relisted := by
  have hmap : (ts.map fun t => Json.obj (settled t)).mapM withMetadata = .ok (ts.map relisted) := by
    rw [List.mapM_map]
    exact mapM_eq_ok fun t ht => withMetadata_relisted (h t ht)
  simp only [listTodos, Option.bind_some, todosOfText, parse_fileOf h, hmap]
  rfl

/-- The todos of a file, whether or not `listTodos` can make sense of it. -/
def todosIn (file : Option Bytes) : List Todo :=
  match file.bind fun bytes => parse (decode bytes) with
  | some (.arr ts) => ts.map fun v => settled (spread v)
  | _ => []

/-- The todos that a call gets to know, without the member that it derives. -/
def todosRead (file : Option Bytes) : List Todo := (listTodos ACTIVE_LIST file).map settled

theorem todosIn_fileOf {ts : List Todo} (h : ∀ t ∈ ts, Listed t) :
    todosIn (some (fileOf ts)) = ts.map settled := by
  simp only [todosIn, Option.bind_some, parse_fileOf h, List.map_map]
  exact List.map_congr_left fun t ht => (h t ht).settled_settled

theorem withMetadata_eq_ok {v : Json} {t : Todo} (h : withMetadata v = .ok t) :
    ∃ notes m, prop v (js "notes") = .ok notes ∧ metadataOf (orElse notes .null) = .ok m ∧
      t = setMember (spread v) (js "metadata") (metadataJson m) := by
  unfold withMetadata at h
  cases hnotes : prop v (js "notes") with
  | error e => rw [hnotes] at h; cases h
  | ok notes =>
    rw [hnotes] at h
    cases hm : metadataOf (orElse notes .null) with
    | error e => simp only [bind, Except.bind, hm] at h; cases h
    | ok m =>
      simp only [bind, Except.bind, hm] at h
      cases h
      exact ⟨notes, m, rfl, hm, rfl⟩

theorem settled_withMetadata {v : Json} {t : Todo} (h : withMetadata v = .ok t) :
    settled t = settled (spread v) := by
  obtain ⟨_, m, _, _, rfl⟩ := withMetadata_eq_ok h
  rw [settled, onDisk_setMetadata, settled]

/-- A call gets to know the todos of a file or, where one of them cannot be read, none. -/
theorem todosRead_cases (file : Option Bytes) : todosRead file = todosIn file ∨ todosRead file = [] := by
  cases file with
  | none => exact .inr rfl
  | some bytes =>
    simp only [todosRead, listTodos, todosIn, Option.bind_some, todosOfText]
    split
    · rename_i ts hparse
      cases hmap : ts.mapM withMetadata with
      | error e => exact .inr rfl
      | ok todos =>
        left
        have hall := forall₂_of_mapM hmap
        clear hmap hparse
        simp only [Except.toOption, Option.getD_some]
        induction hall with
        | nil => rfl
        | cons ht _ ih => rw [List.map_cons, List.map_cons, settled_withMetadata ht, ih]
    · exact .inr rfl

/-! ## The todos that are written -/

theorem js_toString_inj {i j : Nat} (h : js (toString i) = js (toString j)) : i = j := by
  rw [← digitsValue_toString i, h, digitsValue_toString]

/-- The members of an array or a string are its indices. -/
theorem nodup_indices {α : Type} (f : α → Json) (xs : List α) :
    (keys (xs.zipIdx.map fun (x, i) => (js (toString i), f x))).Nodup := by
  have hkeys : keys (xs.zipIdx.map fun (x, i) => (js (toString i), f x)) =
      (List.range xs.length).map fun i => js (toString i) := by
    rw [keys, List.map_map, List.range_eq_range', ← List.zipIdx_map_snd, List.map_map]
    rfl
  rw [hkeys]
  exact List.nodup_range.map fun _ _ => js_toString_inj

theorem lookup_indices {α : Type} (f : α → Json) (xs : List α) :
    (xs.zipIdx.map fun (x, i) => (js (toString i), f x)).lookup (js "notes") = none := by
  rw [List.lookup_eq_none_iff]
  intro m hm
  obtain ⟨⟨x, i⟩, _, rfl⟩ := List.mem_map.mp hm
  rw [bne_iff_ne]
  intro he
  have hletter : (0x6E : UInt16) ∈ js (toString i) := by
    rw [← show js "notes" = js (toString i) from he]
    exact List.mem_cons_self
  cases isDigit_toString hletter

/-- The members of a value that was parsed, whatever its kind. -/
theorem spread_parsed {v : Json} (h : Sound v) : (keys (spread v)).Nodup ∧ SoundMembers (spread v) := by
  cases v with
  | obj ms => exact h
  | arr xs =>
    refine ⟨nodup_indices id xs, soundMembers_iff.mpr fun m hm => ?_⟩
    obtain ⟨⟨x, i⟩, hx, rfl⟩ := List.mem_map.mp hm
    exact soundAll_iff.mp h x (List.fst_mem_of_mem_zipIdx hx)
  | str s =>
    refine ⟨nodup_indices (fun u => .str [u]) s, soundMembers_iff.mpr fun m hm => ?_⟩
    obtain ⟨⟨u, i⟩, _, rfl⟩ := List.mem_map.mp hm
    trivial
  | null => exact ⟨by simp [spread, keys], trivial⟩
  | bool b => exact ⟨by simp [spread, keys], trivial⟩
  | num n => exact ⟨by simp [spread, keys], trivial⟩

theorem lookup_spread {v : Json} {notes : Option Json} (h : prop v (js "notes") = .ok notes) :
    (spread v).lookup (js "notes") = notes := by
  cases v with
  | null => cases h
  | obj ms => cases h; rfl
  | arr xs => cases h; exact lookup_indices id xs
  | str s => cases h; exact lookup_indices (fun u => .str [u]) s
  | bool b => cases h; rfl
  | num n => cases h; rfl

theorem nodup_onDisk {t : Todo} (h : (keys t).Nodup) : (keys (onDisk t)).Nodup := by
  rw [keys_onDisk]
  exact h.filter _

theorem sound_onDisk {t : Todo} (h : SoundMembers t) : SoundMembers (onDisk t) :=
  soundMembers_iff.mpr fun m hm => soundMembers_iff.mp h m (List.mem_of_mem_filter hm)

theorem listed_of_withMetadata {v : Json} {t : Todo} (hv : Sound v) (h : withMetadata v = .ok t) :
    Listed t := by
  obtain ⟨hnodup, hsound⟩ := spread_parsed hv
  obtain ⟨notes, m, hnotes, hm, rfl⟩ := withMetadata_eq_ok h
  refine ⟨?_, ?_, m, ?_⟩
  · rw [onDisk_setMetadata]
    exact nodup_onDisk hnodup
  · rw [onDisk_setMetadata]
    exact sound_onDisk hsound
  · rw [lookup_setMember_of_ne (by decide), lookup_spread hnotes]
    exact hm

theorem listed_of_mem {list : JsString} {file : Option Bytes} {t : Todo}
    (h : t ∈ listTodos list file) : Listed t := by
  unfold listTodos at h
  cases file with
  | none => cases h
  | some bytes =>
    simp only [Option.bind_some, todosOfText] at h
    split at h
    · rename_i ts hparse
      cases hmap : ts.mapM withMetadata with
      | error e => rw [hmap] at h; cases h
      | ok todos =>
        rw [hmap] at h
        obtain ⟨v, hv, hvt⟩ := mem_of_mapM hmap h
        exact listed_of_withMetadata (soundAll_iff.mp (sound_parse hparse) v hv) hvt
    · cases h

theorem onDisk_todoMembers (t : ReminderTodo) : onDisk (todoMembers t) =
    [(js "id", .str t.id), (js "title", .str t.title), (js "list", .str t.list),
     (js "notes", textOrNull t.notes), (js "due", textOrNull t.due), (js "priority", .num t.priority),
     (js "completed", .bool t.completed)] := rfl

theorem listed_todoMembers {t : ReminderTodo} (h : IsDouble t.priority) : Listed (todoMembers t) := by
  have hnull : ∀ s, Sound (textOrNull s) := by
    intro s
    cases s with
    | none => trivial
    | some s => trivial
  refine ⟨?_, ?_, ?_⟩
  · rw [onDisk_todoMembers, keys]
    simp only [List.map_cons, List.map_nil]
    decide
  · rw [onDisk_todoMembers]
    exact ⟨trivial, trivial, trivial, hnull _, hnull _, h, trivial, trivial⟩
  · have hnotes : (todoMembers t).lookup (js "notes") = some (textOrNull t.notes) := rfl
    rw [hnotes]
    cases t.notes with
    | none => exact ⟨_, rfl⟩
    | some notes => exact ⟨_, rfl⟩

theorem readBack_textOrNull (s : Option JsString) : readBack (textOrNull s) = textOrNull s := by
  cases s with
  | none => rfl
  | some s => rfl

theorem settled_todoMembers {t : ReminderTodo} {q : Rat} (h : t.priority = .finite q) :
    settled (todoMembers t) = onDisk (todoMembers t) := by
  rw [settled, onDisk_todoMembers, h]
  simp only [readBackMembers, readBack_textOrNull]
  rfl

theorem Listed.complete {t : Todo} (h : Listed t) (id : JsString) : Listed (complete id t) := by
  unfold FallbackFile.complete
  split
  · refine ⟨?_, ?_, ?_⟩
    · rw [onDisk_setMember (by decide)]
      exact nodup_setMember h.nodup _ _
    · rw [onDisk_setMember (by decide)]
      refine soundMembers_iff.mpr fun m hm => ?_
      rcases mem_setMember hm with rfl | hm
      · trivial
      · exact soundMembers_iff.mp h.sound m hm
    · rw [lookup_setMember_of_ne (by decide)]
      exact h.notes
  · exact h

/-- A completed todo in the file. -/
theorem settled_complete (id : JsString) (t : Todo) :
    settled (complete id t) = complete id (settled t) := by
  have hid : isText ((settled t).lookup (js "id")) id = isText (t.lookup (js "id")) id := by
    rw [settled, lookup_readBack, lookup_onDisk (by decide)]
    cases t.lookup (js "id") with
    | none => rfl
    | some v =>
      cases v with
      | num n => cases n <;> rfl
      | null => rfl
      | bool b => rfl
      | str s => rfl
      | arr xs => rfl
      | obj ms => rfl
  unfold complete
  rw [hid]
  split
  · rw [settled, onDisk_setMember (by decide), readBack_setMember]
    rfl
  · rfl

end Conductor.Reminders.FallbackFile
