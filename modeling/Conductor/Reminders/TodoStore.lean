import Conductor.Lib.Runs
import Conductor.Reminders.FallbackFile
import Conductor.Reminders.MetaLine

/-! # The todo file as a store

A store of todos by list and by id, and the requests to which the file gives
the answers of one. -/
namespace Conductor.Reminders.TodoStore
open Conductor.Lib.Runs Conductor.Js Conductor.Js.Text Conductor.Js.Utf8 Conductor.Js.Number
open Conductor.Js.Values Conductor.Js.JsonText Conductor.Js.JsonRoundTrip Conductor.Reminders.Poll
open Conductor.Reminders.Metadata Conductor.Reminders.MetaLine Conductor.Reminders.FallbackFile
open Conductor.Reminders.Cli (AddTodoInput ACTIVE_LIST fullNotes metadataJson metadataOf)

inductive Request
  /-- `addTodo(input, list)`, and what it reads from the clock. -/
  | add (input : AddTodoInput) (list : JsString) (now : Int)
  | list (list : JsString)
  | complete (id : JsString)

inductive Answer
  | added (todo : ReminderTodo)
  | listed (todos : List Todo)
  | completed (ok : Bool)

/-- What the file answers, and the file after it. -/
def perform (file : Option Bytes) : Request → Answer × Option Bytes
  | .add input list now =>
    let (todo, written) := addTodo input list now file
    (.added todo, some written)
  | .list list => (.listed (listTodos list file), file)
  | .complete id =>
    let (ok, written) := completeTodo id file
    (.completed ok, some written)

/-- Requests one after the other, each with its answer. -/
def answers : Option Bytes → List Request → List (Request × Answer)
  | _, [] => []
  | file, r :: rs => (r, (perform file r).1) :: answers (perform file r).2 rs

/-! ## The store -/

structure Store where
  todos : List ReminderTodo
  unique : DistinctIds todos

def Store.empty : Store := ⟨[], List.nodup_nil⟩

/-- The todo, completed if it has the id. -/
def mark (id : JsString) (t : ReminderTodo) : ReminderTodo :=
  if t.id = id then { t with completed := true } else t

@[simp] theorem mark_id (id : JsString) (t : ReminderTodo) : (mark id t).id = t.id := by
  unfold mark
  split
  · rfl
  · rfl

theorem distinctIds_mark {todos : List ReminderTodo} (h : DistinctIds todos) (id : JsString) :
    DistinctIds (todos.map (mark id)) := by
  unfold DistinctIds
  rw [List.map_map]
  have hids : (fun t : ReminderTodo => t.id) ∘ mark id = fun t => t.id := funext (mark_id id)
  rwa [hids]

theorem distinctIds_append {todos : List ReminderTodo} (h : DistinctIds todos) {t : ReminderTodo}
    (ht : ∀ u ∈ todos, u.id ≠ t.id) : DistinctIds (todos ++ [t]) := by
  unfold DistinctIds
  rw [List.map_append]
  refine h.append (by simp) ?_
  simpa using ht

/-- An open todo with what a caller has passed. -/
structure MadeOf (input : AddTodoInput) (list : JsString) (t : ReminderTodo) : Prop where
  title : t.title = input.title
  list : t.list = list
  notes : t.notes.getD [] = fullNotes input
  due : t.due = input.due
  completed : t.completed = false
  metadata : t.metadata = given input

/-- What a store may answer. -/
inductive Store.Step (s : Store) : Request → Answer → Store → Prop
  | add {input : AddTodoInput} {list : JsString} {now : Int} {t : ReminderTodo}
      (hnew : ∀ u ∈ s.todos, u.id ≠ t.id) (ht : MadeOf input list t) :
      Step s (.add input list now) (.added t) ⟨s.todos ++ [t], distinctIds_append s.unique hnew⟩
  | list (list : JsString) :
      Step s (.list list) (.listed ((s.todos.filter fun t => t.list = list).map todoMembers)) s
  | completed {id : JsString} (h : ∃ t ∈ s.todos, t.id = id) :
      Step s (.complete id) (.completed true) ⟨s.todos.map (mark id), distinctIds_mark s.unique id⟩
  | missing {id : JsString} (h : ∀ t ∈ s.todos, t.id ≠ id) : Step s (.complete id) (.completed false) s

inductive Store.Run : Store → List (Request × Answer) → Store → Prop
  | nil (s : Store) : Run s [] s
  | cons {s t u : Store} {r : Request} {a : Answer} {rest : List (Request × Answer)}
      (h : s.Step r a t) (hrest : Run t rest u) : Run s ((r, a) :: rest) u

/-! ## The requests that the file can serve -/

/-- The todos that were added so far, as completed since. -/
def known (todos : List ReminderTodo) : Request → Option (List ReminderTodo)
  | .add input list now => some (todos ++ [newTodo input list now])
  | .list _ => some todos
  | .complete id => some (todos.map (mark id))

/-- The clock has moved since the ids were made, only one list is in use, whose
notes say what was passed, and what is completed was added. -/
def Served (todos : List ReminderTodo) : Request → Prop
  | .add _ _ now => ∀ t ∈ todos, t.id ≠ localId now
  | .list list => ∀ t ∈ todos, t.list = list ∧ Says (t.notes.getD []) t.metadata
  | .complete id => ∃ t ∈ todos, t.id = id

/-! ## The file and the store -/

/-- A todo as it is listed, with what its notes say. -/
def rederived (t : ReminderTodo) : ReminderTodo :=
  { t with metadata := parseTodoMetadata (t.notes.getD []) }

/-- The file lists the todos. -/
structure Holds (file : Option Bytes) (todos : List ReminderTodo) : Prop where
  listed : ∀ list, listTodos list file = todos.map fun t => todoMembers (rederived t)
  priority : ∀ t ∈ todos, t.priority = .finite 0

theorem holds_none : Holds none [] := ⟨fun _ => rfl, by simp⟩

theorem relisted_todoMembers {t : ReminderTodo} {q : Rat} (h : t.priority = .finite q) :
    relisted (todoMembers t) = todoMembers (rederived t) := by
  have hnew : js "metadata" ∉ keys (onDisk (todoMembers t)) := by
    rw [keys_onDisk, List.mem_filter]
    simp
  have hnotes : (metadataOf (orElse ((todoMembers t).lookup (js "notes")) .null)).toOption =
      some (parseTodoMetadata (t.notes.getD [])) := by
    have hlookup : (todoMembers t).lookup (js "notes") = some (textOrNull t.notes) := rfl
    rw [hlookup]
    cases t.notes with
    | none => rfl
    | some notes => rfl
  rw [relisted, settled_todoMembers h, setMember_of_notMem hnew, hnotes, onDisk_todoMembers]
  rfl

theorem listTodos_todoMembers {ts : List ReminderTodo} (h : ∀ t ∈ ts, t.priority = .finite 0)
    (list : JsString) : listTodos list (some (fileOf (ts.map todoMembers))) =
      ts.map fun t => todoMembers (rederived t) := by
  have hlisted : ∀ t ∈ ts.map todoMembers, Listed t := by
    intro t ht
    obtain ⟨u, hu, rfl⟩ := List.mem_map.mp ht
    exact listed_todoMembers (by rw [h u hu]; rfl)
  rw [listTodos_fileOf hlisted, List.map_map]
  exact List.map_congr_left fun t ht => relisted_todoMembers (h t ht)

theorem complete_todoMembers (id : JsString) (t : ReminderTodo) :
    complete id (todoMembers t) = todoMembers (mark id t) := by
  have hid : isText ((todoMembers t).lookup (js "id")) id = decide (t.id = id) := by
    have hlookup : (todoMembers t).lookup (js "id") = some (.str t.id) := rfl
    rw [hlookup, isText, beq_eq_decide]
  unfold complete mark
  rw [hid]
  by_cases h : t.id = id
  · rw [if_pos (decide_eq_true h), if_pos h]
    rfl
  · rw [if_neg (by simpa using h), if_neg h]

theorem rederived_mark (id : JsString) (t : ReminderTodo) :
    rederived (mark id t) = mark id (rederived t) := by
  unfold mark
  by_cases h : t.id = id
  · rw [if_pos h, if_pos (show (rederived t).id = id from h)]
    rfl
  · rw [if_neg h, if_neg (show ¬ (rederived t).id = id from h)]

/-- Whatever the request, the file goes on to list what is known. -/
theorem Holds.perform {file : Option Bytes} {todos todos' : List ReminderTodo} (h : Holds file todos)
    {r : Request} (hr : known todos r = some todos') : Holds (perform file r).2 todos' := by
  cases r with
  | add input list now =>
    cases hr
    have hpriority : ∀ t ∈ todos ++ [newTodo input list now], t.priority = .finite 0 := by
      intro t ht
      rcases List.mem_append.mp ht with ht | ht
      · exact h.priority t ht
      · rw [List.mem_singleton.mp ht]
        rfl
    refine ⟨fun l => ?_, hpriority⟩
    have hwritten : (TodoStore.perform file (.add input list now)).2 =
        some (fileOf ((todos.map rederived ++ [newTodo input list now]).map todoMembers)) := by
      simp only [TodoStore.perform, addTodo, h.listed, List.map_append, List.map_map]
      rfl
    rw [hwritten, listTodos_todoMembers, List.map_append, List.map_append, List.map_map]
    · rfl
    · intro t ht
      rcases List.mem_append.mp ht with ht | ht
      · obtain ⟨u, hu, rfl⟩ := List.mem_map.mp ht
        exact h.priority u hu
      · rw [List.mem_singleton.mp ht]
        rfl
  | list list => cases hr; exact h
  | complete id =>
    cases hr
    have hwritten : (TodoStore.perform file (.complete id)).2 =
        some (fileOf ((todos.map fun t => rederived (mark id t)).map todoMembers)) := by
      simp only [TodoStore.perform, completeTodo, h.listed, List.map_map]
      congr 3
      funext t
      simp only [Function.comp_apply, complete_todoMembers, rederived_mark]
    have hmarked : ∀ t, (mark id t).priority = t.priority := by
      intro t
      unfold mark
      split
      · rfl
      · rfl
    refine ⟨fun l => ?_, fun t ht => ?_⟩
    · rw [hwritten, listTodos_todoMembers, List.map_map, List.map_map]
      · rfl
      · intro t ht
        obtain ⟨u, hu, rfl⟩ := List.mem_map.mp ht
        exact (hmarked u).trans (h.priority u hu)
    · obtain ⟨u, hu, rfl⟩ := List.mem_map.mp ht
      exact (hmarked u).trans (h.priority u hu)

theorem phaseText_inj {p q : TodoPhase} (h : phaseText p = phaseText q) : p = q := by
  cases p <;> cases q <;> first | rfl | exact absurd h (by decide)

/-- Each field can be read back from the object. -/
theorem optProp_metadataJson (m : TodoMetadata) :
    optProp (some (metadataJson m)) (js "pid") = m.pid.map .num ∧
    optProp (some (metadataJson m)) (js "repo") = m.repo.map .str ∧
    optProp (some (metadataJson m)) (js "phase") = m.phase.map fun p => .str (phaseText p) := by
  obtain ⟨pid, repo, phase⟩ := m
  cases pid <;> cases repo <;> cases phase <;> exact ⟨rfl, rfl, rfl⟩

theorem metadataJson_inj {m m' : TodoMetadata} (h : metadataJson m = metadataJson m') : m = m' := by
  obtain ⟨hpid, hrepo, hphase⟩ := optProp_metadataJson m
  obtain ⟨hpid', hrepo', hphase'⟩ := optProp_metadataJson m'
  rw [h] at hpid hrepo hphase
  obtain ⟨pid, repo, phase⟩ := m
  obtain ⟨pid', repo', phase'⟩ := m'
  congr 1
  · exact Option.map_injective (fun _ _ => Json.num.inj) (hpid.symm.trans hpid')
  · exact Option.map_injective (fun _ _ => Json.str.inj) (hrepo.symm.trans hrepo')
  · refine Option.map_injective (fun p q hpq => ?_) (hphase.symm.trans hphase')
    exact phaseText_inj (Json.str.inj hpq)

theorem madeOf_newTodo (input : AddTodoInput) (list : JsString) (now : Int) :
    MadeOf input list (newTodo input list now) where
  title := rfl
  list := rfl
  notes := by
    by_cases h : fullNotes input = []
    · simp [newTodo, h]
    · simp [newTodo, h]
  due := rfl
  completed := rfl
  metadata := rfl

/-- The list shows other todos than those of the list, or other metadata, unless
every todo is of the list and its notes say its metadata. -/
theorem listed_iff (todos : List ReminderTodo) (list : JsString) :
    (todos.map fun t => todoMembers (rederived t)) =
        (todos.filter fun t => t.list = list).map todoMembers ↔
      ∀ t ∈ todos, t.list = list ∧ Says (t.notes.getD []) t.metadata := by
  have hmeta : ∀ t : ReminderTodo, todoMembers (rederived t) = todoMembers t ↔
      Says (t.notes.getD []) t.metadata := by
    intro t
    rw [← parseTodoMetadata_iff]
    constructor
    · intro h
      refine metadataJson_inj ?_
      simpa [todoMembers, rederived] using h
    · intro h
      rw [rederived, h]
  constructor
  · intro h
    have hlen := congrArg List.length h
    rw [List.length_map, List.length_map] at hlen
    have hall := List.length_filter_eq_length_iff.mp hlen.symm
    rw [List.filter_eq_self.mpr hall, List.map_inj_left] at h
    exact fun t ht => ⟨by simpa using hall t ht, (hmeta t).mp (h t ht)⟩
  · intro h
    rw [List.filter_eq_self.mpr fun t ht => by simpa using (h t ht).1]
    exact List.map_congr_left fun t ht => (hmeta t).mpr (h t ht).2

/-- The answer to a request is one that a store may give, if and only if the
request can be served. -/
theorem step_iff {file : Option Bytes} {s : Store} (h : Holds file s.todos) (r : Request) :
    (∃ t, s.Step r (perform file r).1 t) ↔ Served s.todos r := by
  cases r with
  | add input list now =>
    constructor
    · intro hs
      obtain ⟨t, hstep⟩ := hs
      cases hstep with
      | add hnew _ => exact hnew
    · intro hserved
      have hnew : ∀ u ∈ s.todos, u.id ≠ (newTodo input list now).id := hserved
      exact ⟨_, .add hnew (madeOf_newTodo input list now)⟩
  | list list =>
    rw [Served, ← listed_iff, ← h.listed list]
    constructor
    · intro hs
      obtain ⟨t, hstep⟩ := hs
      generalize ha : (perform file (.list list)).1 = a at hstep
      cases hstep with
      | list => exact Answer.listed.inj ha
    · intro hserved
      refine ⟨s, ?_⟩
      simp only [perform]
      rw [hserved]
      exact .list list
  | complete id =>
    constructor
    · intro hs
      obtain ⟨t, hstep⟩ := hs
      cases hstep with
      | completed hmem => exact hmem
    · intro hserved
      exact ⟨_, .completed hserved⟩

/-- The store after the request is what is known then. -/
theorem known_of_step {file : Option Bytes} {s t : Store} {r : Request}
    (h : s.Step r (perform file r).1 t) : known s.todos r = some t.todos := by
  generalize ha : (perform file r).1 = a at h
  cases h with
  | add _ _ => cases ha; rfl
  | list => rfl
  | completed _ => rfl
  | missing _ => cases ha

theorem run_iff {file : Option Bytes} {s : Store} (h : Holds file s.todos) (rs : List Request) :
    (∃ t, s.Run (answers file rs) t) ↔ Along known Served s.todos rs := by
  induction rs generalizing file s with
  | nil => exact ⟨fun _ => trivial, fun _ => ⟨s, .nil s⟩⟩
  | cons r rs ih =>
    constructor
    · intro hrun
      obtain ⟨u, hrun⟩ := hrun
      cases hrun with
      | @cons _ t _ _ _ _ hstep hrest =>
        have hknown := known_of_step hstep
        exact along_cons_of ((step_iff h r).mp ⟨t, hstep⟩) hknown
          ((ih (h.perform hknown)).mp ⟨u, hrest⟩)
    · intro halong
      obtain ⟨t, hstep⟩ := (step_iff h r).mpr halong.1
      have hknown := known_of_step hstep
      obtain ⟨u, hrest⟩ := (ih (h.perform hknown)).mpr (halong.2 _ hknown)
      exact ⟨u, .cons hstep hrest⟩

/-- From no file on, the answers are those of a store if and only if every request can be served. -/
theorem answers_of_store_iff (rs : List Request) :
    (∃ t, Store.empty.Run (answers none rs) t) ↔ Along known Served [] rs :=
  run_iff (s := .empty) holds_none rs

def errand (notes : Option JsString) : AddTodoInput := ⟨js "Buy milk", notes, none, none⟩

/-- No store has a todo in a list that it was not added to, makes two todos with
one id, completes a todo that it does not have, or returns no metadata for a
todo that it lists with some. -/
theorem no_store_answers :
    (¬ ∃ t, Store.empty.Run (answers none [.add (errand none) (js "Home") 1, .list (js "Work")]) t) ∧
    (¬ ∃ t, Store.empty.Run
      (answers none [.add (errand none) (js "Home") 1, .add (errand none) (js "Home") 1]) t) ∧
    (¬ ∃ t, Store.empty.Run (answers none [.complete (js "local-1")]) t) ∧
    ¬ ∃ t, Store.empty.Run (answers none [.add (errand (some (js "pid:1 repo:a phase:plan")))
      (js "Home") 1, .list (js "Home")]) t := by
  have hserved : ∀ rs, (∃ t, Store.empty.Run (answers none rs) t) → Along known Served [] rs :=
    fun rs => (run_iff (s := .empty) holds_none rs).mp
  refine ⟨fun h => ?_, fun h => ?_, fun h => ?_, fun h => ?_⟩
  · have hlist := (((hserved _ h).2 _ rfl).1 _ List.mem_cons_self).1
    exact absurd hlist (by decide)
  · exact ((hserved _ h).2 _ rfl).1 _ List.mem_cons_self rfl
  · obtain ⟨t, ht, _⟩ := (hserved _ h).1
    cases ht
  · have hmeta := (((hserved _ h).2 _ rfl).1 _ List.mem_cons_self).2
    exact absurd (parseTodoMetadata_iff.mpr hmeta) (by decide +kernel)

end Conductor.Reminders.TodoStore
