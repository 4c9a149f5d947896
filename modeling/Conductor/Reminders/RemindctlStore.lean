import Conductor.Reminders.TodoStore

/-! # Reminders behind `remindctl`

With its default command the program keeps no todos of its own: each function executes
`remindctl` once and reads what that prints. Over a `remindctl` that holds reminders
and does with its arguments what it documents, the three functions are a store of todos,
by list and by id, in which the metadata of a todo travels inside its notes. -/
namespace Conductor.Reminders.RemindctlStore
open Conductor.Lib.Runs Conductor.Js Conductor.Js.Text Conductor.Js.Number Conductor.Js.Values
open Conductor.Js.JsonText Conductor.Js.JsonAccepts Conductor.Js.JsonRoundTrip Conductor.Js.LowerCase Conductor.Reminders.Poll Conductor.Reminders.Metadata
open Conductor.Reminders.MetaLine Conductor.Reminders.Cli
open Conductor.Reminders.FallbackFile (textOrNull todoMembers)
open Conductor.Reminders.TodoStore (Store mark mark_id distinctIds_mark distinctIds_append)

/-! ## What `remindctl` holds and prints -/

inductive Priority
  | unset | low | medium | high
  deriving DecidableEq

def Priority.word : Priority → JsString
  | .unset => js "none"
  | .low => js "low"
  | .medium => js "medium"
  | .high => js "high"

/-- The convention of EventKit. -/
def Priority.number : Priority → JsNumber
  | .unset => .finite 0
  | .low => .finite 1
  | .medium => .finite 5
  | .high => .finite 9

structure Reminder where
  id : JsString
  title : JsString
  list : JsString
  notes : Option JsString
  due : Option JsString
  priority : Priority
  completed : Bool
  deriving DecidableEq

/-- The object that is printed for a reminder: its list is called `listName`, its
priority is a word, and what it has not is null or left out. -/
structure Shows (raw : Json) (r : Reminder) : Prop where
  id : optProp (some raw) (js "id") = some (.str r.id)
  title : optProp (some raw) (js "title") = some (.str r.title)
  list : optProp (some raw) (js "list") = none
  listName : optProp (some raw) (js "listName") = some (.str r.list)
  notes : (optProp (some raw) (js "notes")).getD .null = textOrNull r.notes
  due : (optProp (some raw) (js "due")).getD .null = textOrNull r.due
  priority : optProp (some raw) (js "priority") = some (.str r.priority.word)
  completed : optProp (some raw) (js "completed") = none
  isCompleted : optProp (some raw) (js "isCompleted") = some (.bool r.completed)

/-- A `remindctl` with its state. -/
structure Remindctl (σ : Type) where
  exec : σ → List JsString → Except JsString JsString × σ
  held : σ → List Reminder
  /-- The arguments that it takes for values, and not for options of its own. -/
  takes : JsString → Prop
  /-- The date that it makes of a `--due` value. -/
  dueOf : JsString → JsString

/-- A text that is passed on unless it is empty. -/
def unlessEmpty (s : JsString) : Option JsString := if s = [] then none else some s

def addArgs (title list : JsString) (notes due : Option JsString) : List JsString :=
  [js "add", title, js "--list", list] ++ (notes.elim [] fun s => [js "--notes", s]) ++
    (due.elim [] fun s => [js "--due", s]) ++ [js "--json"]

def complete (id : JsString) (r : Reminder) : Reminder := if r.id = id then { r with completed := true } else r

/-- What it does with the arguments of the program, by its documentation, once it is
allowed to. -/
structure Remindctl.Documented {σ : Type} (c : Remindctl σ) : Prop where
  status : ∀ s, ∃ out v, c.exec s [js "status", js "--json"] = (.ok out, s) ∧ parse out = some v ∧
    optProp (some v) (js "authorized") = some (.bool true)
  /-- The reminders of one list, in some order. -/
  show_all : ∀ s list, c.takes list → ∃ out raws shown,
    c.exec s [js "show", js "all", js "--list", list, js "--json"] = (.ok out, s) ∧
      parse out = some (.arr raws) ∧ List.Forall₂ Shows raws shown ∧
      shown.Perm ((c.held s).filter fun r => r.list = list)
  /-- One more reminder, with an id of its own. -/
  add : ∀ s title list notes due, c.takes title → c.takes list → (∀ v ∈ notes, c.takes v) →
    (∀ v ∈ due, c.takes v) → ∃ out raw r t, c.exec s (addArgs title list notes due) = (.ok out, t) ∧
      parse out = some raw ∧ Shows raw r ∧ (∀ old ∈ c.held s, old.id ≠ r.id) ∧
      r.title = title ∧ r.list = list ∧ r.notes = notes ∧ r.due = due.map c.dueOf ∧
      r.priority = .unset ∧ r.completed = false ∧ (c.held t).Perm (c.held s ++ [r])
  /-- Ids are given as a prefix that only one of them has. -/
  complete_one : ∀ s start r, c.takes start → r ∈ c.held s → start <+: r.id →
    (∀ u ∈ c.held s, start <+: u.id → u.id = r.id) → ∃ out t,
      c.exec s [js "complete", start, js "--json"] = (.ok out, t) ∧
      (c.held t).Perm ((c.held s).map (complete r.id))
  complete_none : ∀ s start, c.takes start → (∀ u ∈ c.held s, ¬ start <+: u.id) → ∃ message,
    c.exec s [js "complete", start, js "--json"] = (.error message, s)

/-! ## What the program reads -/

/-- The todo that a reminder is to the program. -/
def todoFor (r : Reminder) : ReminderTodo where
  id := r.id
  title := r.title
  list := r.list
  notes := r.notes
  due := r.due
  priority := r.priority.number
  completed := r.completed
  metadata := parseTodoMetadata (r.notes.getD [])

theorem orElse_null (v : Option Json) : orElse v .null = v.getD .null := by
  rcases v with _ | v
  · rfl
  · cases v with
    | null => rfl
    | _ => rfl

theorem priorityOf_word (p : Priority) : priorityOf (some (.str p.word)) = some (.num p.number) := by
  have hlower : toLowerCase (fun _ _ => false) p.word = p.word := by cases p <;> decide +kernel
  show (PRIORITY_TO_NUM.lookup (toLowerCase (fun _ _ => false) p.word)).getD _ = _
  rw [hlower]
  cases p with
  | unset => rfl
  | low => rfl
  | medium => rfl
  | high => rfl

theorem metadataOf_textOrNull (notes : Option JsString) :
    metadataOf (textOrNull notes) = .ok (parseTodoMetadata (notes.getD [])) := by
  cases notes with
  | none => rfl
  | some notes => rfl

/-- A reminder that is printed becomes the todo for it. -/
theorem todoOf_shows {raw : Json} {r : Reminder} (h : Shows raw r) :
    todoOf raw = .ok (.obj (todoMembers (todoFor r))) := by
  have hne : isNull raw = false := by
    cases raw with
    | null => cases h.id
    | _ => rfl
  have hnormal : normalizeRemindCtl raw = .ok
      { id := some (.str r.id), title := some (.str r.title), list := .str r.list
        notes := textOrNull r.notes, due := textOrNull r.due, priority := some (.num r.priority.number)
        completed := .bool r.completed } := by
    unfold normalizeRemindCtl
    rw [prop_of_ne_null hne]
    simp only [h.id, h.title, h.list, h.listName, h.priority, h.completed, h.isCompleted, orElse_null,
      h.notes, h.due, priorityOf_word]
    rfl
  unfold todoOf
  rw [hnormal]
  show (metadataOf (textOrNull r.notes) >>= fun metadata => _) = _
  rw [metadataOf_textOrNull]
  rfl

theorem mapM_todoOf {raws : List Json} {shown : List Reminder} (h : List.Forall₂ Shows raws shown) :
    raws.mapM todoOf = .ok (shown.map fun r => .obj (todoMembers (todoFor r))) := by
  induction h with
  | nil => rfl
  | cons hraw _ ih =>
    rw [List.mapM_cons, todoOf_shows hraw, ih]
    rfl

/-! ## Requests -/

inductive Request
  | add (input : AddTodoInput) (list : JsString)
  | list (list : JsString)
  /-- By an id or the beginning of one. -/
  | complete (start : JsString)

section Requests

variable {σ : Type} (c : Remindctl σ) (syntaxMessage : JsString → JsString)

def shellAt (s : σ) : Shell := ⟨fun args => (c.exec s args).1, syntaxMessage⟩

/-- What the program is answered, and the state of `remindctl` after it. -/
def settle {α : Type} (s : σ) (e : Executed α) (show_ : α → Json) : Except JsError Json × σ :=
  (e.result.map show_, (c.exec s e.args).2)

def perform (s : σ) : Request → Except JsError Json × σ
  | .add input list => settle c s (addTodo (shellAt c syntaxMessage s) input list) id
  | .list list => settle c s (listTodos (shellAt c syntaxMessage s) list) .arr
  | .complete start => settle c s (completeTodo (shellAt c syntaxMessage s) start) id

/-- Requests one after the other, each with its answer. -/
def answers : σ → List Request → List (Request × Except JsError Json)
  | _, [] => []
  | s, r :: rs => (r, (perform c syntaxMessage s r).1) :: answers (perform c syntaxMessage s r).2 rs

/-! ## The store -/

/-- The metadata that a todo is to have: what is passed apart from the notes or, without
that, what the notes say. -/
def meant (input : AddTodoInput) : TodoMetadata :=
  match input.metadata with
  | none => parseTodoMetadata (input.notes.getD [])
  | some (pid, repo, phase) => ⟨some pid, some repo, some phase⟩

/-- An open todo with what a caller has passed. -/
structure Made (input : AddTodoInput) (list : JsString) (t : ReminderTodo) : Prop where
  title : t.title = input.title
  list : t.list = list
  notes : t.notes.getD [] = fullNotes input
  due : t.due = (unlessEmpty (input.due.getD [])).map c.dueOf
  priority : t.priority = .finite 0
  completed : t.completed = false
  metadata : t.metadata = parseTodoMetadata (fullNotes input)
  /-- An earlier line of the notes can say otherwise, and a repo can be cut at a blank. -/
  asMeant : t.metadata = meant input ↔ Says (fullNotes input) (meant input)

/-- What a store answers; a list is in no order. -/
inductive Step (s : Store) : Request → Except JsError Json → Store → Prop
  | add {input : AddTodoInput} {list : JsString} {t : ReminderTodo} (hnew : ∀ u ∈ s.todos, u.id ≠ t.id)
      (ht : Made c input list t) : Step s (.add input list) (.ok (.obj (todoMembers t)))
        ⟨s.todos ++ [t], distinctIds_append s.unique hnew⟩
  | list {list : JsString} {todos : List ReminderTodo}
      (h : todos.Perm (s.todos.filter fun t => t.list = list)) :
      Step s (.list list) (.ok (.arr (todos.map fun t => .obj (todoMembers t)))) s
  | completed {start : JsString} {t : ReminderTodo} (ht : t ∈ s.todos) (hstart : start <+: t.id)
      (hone : ∀ u ∈ s.todos, start <+: u.id → u.id = t.id) :
      Step s (.complete start) (.ok (.obj [(js "ok", .bool true)]))
        ⟨s.todos.map (mark t.id), distinctIds_mark s.unique t.id⟩
  | missing {start : JsString} {e : JsError} (h : ∀ u ∈ s.todos, ¬ start <+: u.id) :
      Step s (.complete start) (.error e) s

inductive Run : Store → List (Request × Except JsError Json) → Store → Prop
  | nil (s : Store) : Run s [] s
  | cons {s t u : Store} {r : Request} {a : Except JsError Json}
      {rest : List (Request × Except JsError Json)} (h : Step c s r a t) (hrest : Run t rest u) :
      Run s ((r, a) :: rest) u

/-- Every argument is taken for a value, and no two ids begin as an id is given. -/
def Served (s : σ) : Request → Prop
  | .add input list => c.takes input.title ∧ c.takes list ∧
      (∀ notes ∈ unlessEmpty (fullNotes input), c.takes notes) ∧
      (∀ due ∈ unlessEmpty (input.due.getD []), c.takes due)
  | .list list => c.takes list
  | .complete start => c.takes start ∧
      ∀ t ∈ c.held s, ∀ u ∈ c.held s, start <+: t.id → start <+: u.id → u.id = t.id

/-- The reminders are the todos of the store. -/
def Holds (s : σ) (store : Store) : Prop := store.todos.Perm ((c.held s).map todoFor)

end Requests

/-! ## One request -/

section Refinement

variable {σ : Type} {c : Remindctl σ} {syntaxMessage : JsString → JsString} {s : σ} {store : Store}

theorem mem_of_holds (h : Holds c s store) {u : ReminderTodo} :
    u ∈ store.todos ↔ ∃ r ∈ c.held s, todoFor r = u := by rw [h.mem_iff, List.mem_map]

theorem todoFor_complete (id : JsString) (r : Reminder) : todoFor (complete id r) = mark id (todoFor r) := by
  unfold complete mark
  by_cases h : r.id = id
  · rw [if_pos h, if_pos (show (todoFor r).id = id from h)]
    rfl
  · rw [if_neg h, if_neg (show ¬ (todoFor r).id = id from h)]

theorem execute_of_exec {α : Type} {args : List JsString} {out : JsString} {s' : σ}
    (h : c.exec s args = (.ok out, s')) (read : JsString → Except JsError α) :
    execute (shellAt c syntaxMessage s) args read = ⟨args, read out⟩ := by
  unfold execute shellAt
  simp only [h]

theorem parseJson_of_parse {sh : Shell} {out : JsString} {v : Json} (h : parse out = some v) :
    parseJson sh out = .ok v := by
  unfold parseJson
  rw [h]
  rfl

theorem elim_unlessEmpty (s : JsString) (f : JsString → List JsString) :
    (unlessEmpty s).elim [] f = if s = [] then [] else f s := by
  unfold unlessEmpty
  by_cases h : s = []
  · rw [if_pos h, if_pos h, Option.elim_none]
  · rw [if_neg h, if_neg h, Option.elim_some]

theorem getD_unlessEmpty (s : JsString) : (unlessEmpty s).getD [] = s := by
  unfold unlessEmpty
  by_cases h : s = []
  · rw [if_pos h, h, Option.getD_none]
  · rw [if_neg h, Option.getD_some]

/-- The arguments of `addTodo`. -/
theorem addTodo_eq (sh : Shell) (input : AddTodoInput) (list : JsString) :
    addTodo sh input list =
      execute sh (addArgs input.title list (unlessEmpty (fullNotes input)) (unlessEmpty (input.due.getD [])))
        (fun stdout => parseJson sh stdout >>= todoOf) := by
  unfold addArgs
  rw [elim_unlessEmpty, elim_unlessEmpty]
  rfl

theorem add_step (hc : c.Documented) (h : Holds c s store) {input : AddTodoInput} {list : JsString}
    (hserved : Served c s (.add input list)) :
    ∃ t, Step c store (.add input list) (perform c syntaxMessage s (.add input list)).1 t ∧
      Holds c (perform c syntaxMessage s (.add input list)).2 t := by
  obtain ⟨htitle, hlist, hnotes, hdue⟩ := hserved
  obtain ⟨out, raw, r, s', hexec, hparse, hshows, hnew, hrtitle, hrlist, hrnotes, hrdue, hrpriority,
    hrcompleted, hheld⟩ := hc.add s input.title list _ _ htitle hlist hnotes hdue
  have hnotesText : r.notes.getD [] = fullNotes input := by rw [hrnotes, getD_unlessEmpty]
  have hmade : Made c input list (todoFor r) := by
    have hmetadata : (todoFor r).metadata = parseTodoMetadata (fullNotes input) := by
      rw [← hnotesText]
      rfl
    refine ⟨hrtitle, hrlist, hnotesText, hrdue, ?_, hrcompleted, hmetadata, ?_⟩
    · rw [todoFor, hrpriority]
      rfl
    · rw [hmetadata]
      exact parseTodoMetadata_iff
  have hids : ∀ u ∈ store.todos, u.id ≠ (todoFor r).id := by
    intro u hu
    obtain ⟨old, hold, rfl⟩ := (mem_of_holds h).mp hu
    exact hnew old hold
  have hperform : perform c syntaxMessage s (.add input list) = (.ok (.obj (todoMembers (todoFor r))), s') := by
    rw [perform, addTodo_eq, execute_of_exec hexec, parseJson_of_parse hparse, settle, hexec]
    show (Except.map id (todoOf raw), s') = _
    rw [todoOf_shows hshows]
    rfl
  rw [hperform]
  refine ⟨_, .add hids hmade, ?_⟩
  have happend : (store.todos ++ [todoFor r]).Perm ((c.held s ++ [r]).map todoFor) := by
    rw [List.map_append]
    exact h.append_right _
  exact happend.trans (hheld.map todoFor).symm

theorem list_step (hc : c.Documented) (h : Holds c s store) {list : JsString}
    (hserved : Served c s (.list list)) :
    ∃ t, Step c store (.list list) (perform c syntaxMessage s (.list list)).1 t ∧
      Holds c (perform c syntaxMessage s (.list list)).2 t := by
  obtain ⟨out, raws, shown, hexec, hparse, hshows, hperm⟩ := hc.show_all s list hserved
  have hne : out ≠ [] := by
    rintro rfl
    cases hparse
  have hperform : perform c syntaxMessage s (.list list) =
      (.ok (.arr ((shown.map todoFor).map fun t => .obj (todoMembers t))), s) := by
    rw [perform, listTodos, execute_of_exec hexec, if_neg hne, parseJson_of_parse hparse, settle, hexec]
    show (Except.map Json.arr (raws.mapM todoOf), s) = _
    rw [mapM_todoOf hshows, List.map_map]
    rfl
  have hfilter : (((c.held s).filter fun r => r.list = list).map todoFor).Perm
      (store.todos.filter fun t => t.list = list) := by
    have hall := (h.filter fun t => t.list = list).symm
    rw [List.filter_map] at hall
    exact hall
  rw [hperform]
  exact ⟨store, .list ((hperm.map todoFor).trans hfilter), h⟩

theorem complete_step (hc : c.Documented) (h : Holds c s store) {start : JsString}
    (hserved : Served c s (.complete start)) :
    ∃ t, Step c store (.complete start) (perform c syntaxMessage s (.complete start)).1 t ∧
      Holds c (perform c syntaxMessage s (.complete start)).2 t := by
  obtain ⟨htakes, hone⟩ := hserved
  by_cases hstart : ∃ r ∈ c.held s, start <+: r.id
  · obtain ⟨r, hr, hprefix⟩ := hstart
    have hunique : ∀ u ∈ c.held s, start <+: u.id → u.id = r.id := fun u hu hp => hone r hr u hu hprefix hp
    obtain ⟨out, s', hexec, hheld⟩ := hc.complete_one s start r htakes hr hprefix hunique
    have hperform : perform c syntaxMessage s (.complete start) = (.ok (.obj [(js "ok", .bool true)]), s') := by
      rw [perform, completeTodo, execute_of_exec hexec, settle, hexec]
      rfl
    rw [hperform]
    refine ⟨_, .completed ((mem_of_holds h).mpr ⟨r, hr, rfl⟩) hprefix ?_, ?_⟩
    · intro u hu hp
      obtain ⟨v, hv, rfl⟩ := (mem_of_holds h).mp hu
      exact hunique v hv hp
    · have hmarked : (store.todos.map (mark r.id)).Perm (((c.held s).map (complete r.id)).map todoFor) := by
        have hmap := h.map (mark r.id)
        rw [List.map_map] at hmap ⊢
        rwa [show todoFor ∘ complete r.id = mark r.id ∘ todoFor from funext (todoFor_complete r.id)]
      exact hmarked.trans (hheld.map todoFor).symm
  · push Not at hstart
    obtain ⟨message, hexec⟩ := hc.complete_none s start htakes hstart
    have hperform : perform c syntaxMessage s (.complete start) = (.error (.error message), s) := by
      unfold perform completeTodo execute settle shellAt
      simp only [hexec]
      rfl
    rw [hperform]
    refine ⟨store, .missing fun u hu => ?_, h⟩
    obtain ⟨v, hv, rfl⟩ := (mem_of_holds h).mp hu
    exact hstart v hv

theorem request_step (hc : c.Documented) (h : Holds c s store) {r : Request} (hserved : Served c s r) :
    ∃ t, Step c store r (perform c syntaxMessage s r).1 t ∧ Holds c (perform c syntaxMessage s r).2 t := by
  cases r with
  | add input list => exact add_step hc h hserved
  | list list => exact list_step hc h hserved
  | complete start => exact complete_step hc h hserved

/-! ## Runs -/

/-- Whatever is asked, one request after the other, the answers are those of a store,
and what `remindctl` holds in the end are the todos of the store. -/
theorem remindctl_is_store (hc : c.Documented) (h : Holds c s store) (rs : List Request)
    (hserved : Along (fun s r => some (perform c syntaxMessage s r).2) (Served c) s rs) :
    ∃ t, Run c store (answers c syntaxMessage s rs) t ∧
      Holds c (rs.foldl (fun s r => (perform c syntaxMessage s r).2) s) t := by
  induction rs generalizing s store with
  | nil => exact ⟨store, .nil store, h⟩
  | cons r rs ih =>
    obtain ⟨hr, hrest⟩ := hserved
    obtain ⟨t, hstep, ht⟩ := request_step hc h hr
    obtain ⟨u, hrun, hu⟩ := ih ht (hrest _ rfl)
    exact ⟨u, .cons hstep hrun, hu⟩

end Refinement

/-! ## A `remindctl` in memory -/

def rawOf (r : Reminder) : Json :=
  .obj [(js "id", .str r.id), (js "title", .str r.title), (js "listName", .str r.list),
    (js "notes", textOrNull r.notes), (js "due", textOrNull r.due), (js "priority", .str r.priority.word),
    (js "isCompleted", .bool r.completed)]

theorem rawOf_doubles (r : Reminder) : Doubles (rawOf r) := by
  have htext : ∀ v, Doubles (textOrNull v) := fun v => by cases v <;> trivial
  exact ⟨trivial, trivial, trivial, htext _, htext _, trivial, trivial, trivial⟩

theorem readBack_rawOf (r : Reminder) : readBack (rawOf r) = rawOf r := by
  have htext : ∀ v, readBack (textOrNull v) = textOrNull v := fun v => by cases v <;> rfl
  have hkeys : [js "id", js "title", js "listName", js "notes", js "due", js "priority", js "isCompleted"].Nodup := by
    decide
  have hobj : readBack (rawOf r) = .obj (readBackMembers _) := readBack_obj hkeys
  rw [hobj]
  simp only [readBackMembers, htext]
  rfl

theorem shows_rawOf (r : Reminder) : Shows (rawOf r) r := ⟨rfl, rfl, rfl, rfl, rfl, rfl, rfl, rfl, rfl⟩

/-- The notes and the date among the last arguments. -/
def optionsOf : List JsString → Option JsString × Option JsString
  | key :: v :: rest =>
    if key = js "--notes" then
      match rest with
      | key :: due :: _ => (some v, if key = js "--due" then some due else none)
      | _ => (some v, none)
    else (none, if key = js "--due" then some v else none)
  | _ => (none, none)

/-- Longer than every id. -/
def nextId (held : List Reminder) : JsString := List.replicate ((held.map (·.id)).flatten.length + 1) 0x41

def inMemory : Remindctl (List Reminder) where
  exec held args := match args with
    | command :: first :: rest =>
      if command = js "status" then (.ok (stringify (.obj [(js "authorized", .bool true)])), held)
      else if command = js "show" then
        (.ok (stringify (.arr ((held.filter fun r => r.list = rest.getD 1 []).map rawOf))), held)
      else if command = js "add" then
        let options := optionsOf (rest.drop 2)
        let r : Reminder := ⟨nextId held, first, rest.getD 1 [], options.1, options.2, .unset, false⟩
        (.ok (stringify (rawOf r)), held ++ [r])
      else match held.find? fun r => first.isPrefixOf r.id with
        | some r => (.ok (js "\x7b\x7d"), held.map (complete r.id))
        | none => (.error (js "Reminder not found"), held)
    | _ => (.error (js "Missing command"), held)
  held := id
  takes _ := True
  dueOf := id

theorem nextId_ne {held : List Reminder} {r : Reminder} (h : r ∈ held) : r.id ≠ nextId held := by
  intro he
  have hlen := congrArg List.length he
  rw [nextId, List.length_replicate, List.length_flatten, List.map_map] at hlen
  have hle : r.id.length ≤ (held.map (List.length ∘ fun r => r.id)).sum :=
    List.single_le_sum (by simp) _ (List.mem_map.mpr ⟨r, h, rfl⟩)
  omega

theorem parse_rawOf (r : Reminder) : parse (stringify (rawOf r)) = some (rawOf r) := by
  rw [parse_of_writes (writes_stringify _ (rawOf_doubles r)), readBack_rawOf]

theorem parse_rawOfs (rs : List Reminder) :
    parse (stringify (.arr (rs.map rawOf))) = some (.arr (rs.map rawOf)) := by
  have hdoubles : DoublesAll (rs.map rawOf) := by
    induction rs with
    | nil => trivial
    | cons r rs ih => exact ⟨rawOf_doubles r, ih⟩
  rw [parse_of_writes (writes_stringify (.arr _) hdoubles), readBack, readBackAll_eq, List.map_map]
  exact congrArg (fun f => some (Json.arr (rs.map f))) (funext readBack_rawOf)

theorem inMemory_documented : inMemory.Documented where
  status held := ⟨_, _, rfl, parse_of_writes (writes_stringify (.obj _) ⟨trivial, trivial⟩), rfl⟩
  show_all held list _ :=
    ⟨_, _, held.filter fun r => r.list = list, rfl, parse_rawOfs _,
      List.forall₂_map_left_iff.mpr (List.forall₂_same.mpr fun r _ => shows_rawOf r), .refl _⟩
  add held title list notes due _ _ _ _ := by
    let r : Reminder := ⟨nextId held, title, list, notes, due, .unset, false⟩
    have hexec : inMemory.exec held (addArgs title list notes due) = (.ok (stringify (rawOf r)), held ++ [r]) := by
      cases notes with
      | none => cases due with
        | none => rfl
        | some d => rfl
      | some n => cases due with
        | none => rfl
        | some d => rfl
    exact ⟨_, rawOf r, r, _, hexec, parse_rawOf r, shows_rawOf r, fun old hold => nextId_ne hold, rfl, rfl, rfl,
      Option.map_id'.symm, rfl, rfl, .refl _⟩
  complete_one held start r _ hr hstart hone := by
    have hsome : (held.find? fun r => start.isPrefixOf r.id).isSome = true :=
      List.find?_isSome.mpr ⟨r, hr, List.isPrefixOf_iff_prefix.mpr hstart⟩
    obtain ⟨u, hu⟩ := Option.isSome_iff_exists.mp hsome
    have hprefix : start.isPrefixOf u.id = true := by
      have hfound := List.find?_some hu
      exact hfound
    have hid : u.id = r.id := hone u (List.mem_of_find?_eq_some hu) (List.isPrefixOf_iff_prefix.mp hprefix)
    have hexec : inMemory.exec held [js "complete", start, js "--json"] =
        (.ok (js "\x7b\x7d"), held.map (complete u.id)) := by
      show (match held.find? fun r => start.isPrefixOf r.id with
        | some r => (Except.ok (js "\x7b\x7d"), held.map (complete r.id))
        | none => (.error (js "Reminder not found"), held)) = _
      rw [hu]
    rw [hid] at hexec
    exact ⟨_, _, hexec, .refl _⟩
  complete_none held start _ h := by
    have hnone : (held.find? fun r => start.isPrefixOf r.id) = none :=
      List.find?_eq_none.mpr fun r hr hp => h r hr (List.isPrefixOf_iff_prefix.mp hp)
    refine ⟨js "Reminder not found", ?_⟩
    show (match held.find? fun r => start.isPrefixOf r.id with
      | some r => (Except.ok (js "\x7b\x7d"), held.map (complete r.id))
      | none => (.error (js "Reminder not found"), held)) = _
    rw [hnone]

end Conductor.Reminders.RemindctlStore
