import Mathlib.Data.List.Nodup
import Conductor.Lib.Runs
import Conductor.Js.Values

/-! # The reminders polling loop

The diff of two snapshots, and the loop around it as a system: the timer fires
while earlier ticks still wait for their listing, listings are read from a list
that others edit, and the continuation of a tick replaces the one previous
snapshot that the module keeps, whoever started the loop. -/
namespace Conductor.Reminders.Poll
open Conductor.Lib.Runs Conductor.Js.Text Conductor.Js.Number Conductor.Js.Values

/-! ## The records -/

inductive TodoPhase
  | plan
  | exec
  | review
  deriving DecidableEq

structure TodoMetadata where
  pid : Option JsNumber
  repo : Option JsString
  phase : Option TodoPhase
  deriving DecidableEq

structure ReminderTodo where
  id : JsString
  title : JsString
  list : JsString
  notes : Option JsString
  due : Option JsString
  priority : JsNumber
  completed : Bool
  metadata : TodoMetadata
  deriving DecidableEq

inductive TodoEvent
  | added (todo : ReminderTodo)
  | completed (todo : ReminderTodo)
  | updated (todo previous : ReminderTodo)
  deriving DecidableEq

/-- `event.todo`. -/
def TodoEvent.todo : TodoEvent → ReminderTodo
  | .added t | .completed t | .updated t _ => t

/-! ## The diff -/

/-- `new Map(prev.map((t) => [t.id, t])).get(id)`: the last todo with the id. -/
def prevTodo (prev : List ReminderTodo) (id : JsString) : Option ReminderTodo :=
  prev.reverse.find? fun t => t.id == id

/-- One round of the loop of `diffTodos`. -/
def todoEvent (before : Option ReminderTodo) (t : ReminderTodo) : Option TodoEvent :=
  match before with
  | none => some (.added t)
  | some before =>
    if !before.completed && t.completed then some (.completed t)
    else if before.title ≠ t.title ∨ before.notes ≠ t.notes ∨ before.due ≠ t.due then
      some (.updated t before)
    else none

def diffTodos (prev next : List ReminderTodo) : List TodoEvent :=
  next.filterMap fun t => todoEvent (prevTodo prev t.id) t

/-- The ids of a snapshot are distinct. -/
def DistinctIds (todos : List ReminderTodo) : Prop := (todos.map (·.id)).Nodup

theorem prevTodo_mem {prev : List ReminderTodo} {id : JsString} {t : ReminderTodo}
    (h : prevTodo prev id = some t) : t ∈ prev ∧ t.id = id :=
  ⟨List.mem_reverse.mp (List.mem_of_find?_eq_some h), by simpa using List.find?_some h⟩

/-- With distinct ids a todo is the one its id finds. -/
theorem find?_of_mem {todos : List ReminderTodo} (hids : DistinctIds todos) {t : ReminderTodo}
    (ht : t ∈ todos) : todos.find? (fun u => u.id == t.id) = some t := by
  cases hfind : todos.find? (fun u => u.id == t.id) with
  | none =>
    rw [List.find?_eq_none] at hfind
    exact absurd (by simp) (hfind t ht)
  | some u =>
    have hid : u.id = t.id := by simpa using List.find?_some hfind
    rw [List.inj_on_of_nodup_map hids (List.mem_of_find?_eq_some hfind) ht hid]

theorem prevTodo_of_mem {prev : List ReminderTodo} (hids : DistinctIds prev) {t : ReminderTodo}
    (ht : t ∈ prev) : prevTodo prev t.id = some t := by
  have hrev : DistinctIds prev.reverse := by
    unfold DistinctIds
    rw [List.map_reverse, List.nodup_reverse]
    exact hids
  exact find?_of_mem hrev (List.mem_reverse.mpr ht)

theorem todoEvent_todo {before : Option ReminderTodo} {t : ReminderTodo} {e : TodoEvent}
    (h : todoEvent before t = some e) : e.todo = t := by
  unfold todoEvent at h
  split at h
  · cases h
    rfl
  · split at h
    · cases h
      rfl
    · split at h
      · cases h
        rfl
      · cases h

theorem mem_diffTodos {prev next : List ReminderTodo} {e : TodoEvent} :
    e ∈ diffTodos prev next ↔ e.todo ∈ next ∧ todoEvent (prevTodo prev e.todo.id) e.todo = some e := by
  unfold diffTodos
  rw [List.mem_filterMap]
  constructor
  · intro h
    obtain ⟨t, ht, he⟩ := h
    have htodo := todoEvent_todo he
    subst htodo
    exact ⟨ht, he⟩
  · intro h
    exact ⟨e.todo, h.1, h.2⟩

theorem diffTodos_cons (prev : List ReminderTodo) (t : ReminderTodo) (next : List ReminderTodo) :
    diffTodos prev (t :: next) = (todoEvent (prevTodo prev t.id) t).toList ++ diffTodos prev next := by
  unfold diffTodos
  rw [List.filterMap_cons]
  cases todoEvent (prevTodo prev t.id) t with
  | none => rfl
  | some e => rfl

/-- The events for an id: at most one, for the todo that the snapshot has under the id. -/
theorem diffTodos_of_id {prev next : List ReminderTodo} (hids : DistinctIds next) (id : JsString) :
    (diffTodos prev next).filter (fun e => e.todo.id == id) =
      ((next.find? fun t => t.id == id).bind fun t => todoEvent (prevTodo prev id) t).toList := by
  induction next with
  | nil => rfl
  | cons t next ih =>
    obtain ⟨hfresh, hrest⟩ := List.nodup_cons.mp hids
    rw [diffTodos_cons, List.filter_append, ih hrest, List.find?_cons]
    have hown : (todoEvent (prevTodo prev t.id) t).toList.filter (fun e => e.todo.id == id) =
        if t.id = id then (todoEvent (prevTodo prev t.id) t).toList else [] := by
      cases he : todoEvent (prevTodo prev t.id) t with
      | none => simp
      | some e =>
        rw [Option.toList_some, List.filter_singleton, todoEvent_todo he]
        simp
    by_cases hid : t.id = id
    · subst hid
      have hnone : (next.find? fun t' => t'.id == t.id) = none := by
        rw [List.find?_eq_none]
        intro t' ht' heq
        exact hfresh (List.mem_map.mpr ⟨t', ht', by simpa using heq⟩)
      rw [hown, if_pos rfl, hnone, beq_self_eq_true]
      exact List.append_nil _
    · have hne : (t.id == id) = false := by simpa using hid
      rw [hown, if_neg hid, hne, List.nil_append]

/-- Against no snapshot every todo is new. -/
theorem diffTodos_nil (next : List ReminderTodo) : diffTodos [] next = next.map .added := by
  unfold diffTodos
  rw [← List.filterMap_eq_map]
  rfl

/-- A snapshot equal to its predecessor emits no event. -/
theorem diffTodos_self {todos : List ReminderTodo} (hids : DistinctIds todos) :
    diffTodos todos todos = [] := by
  unfold diffTodos
  rw [List.filterMap_eq_nil_iff]
  intro t ht
  rw [prevTodo_of_mem hids ht]
  simp [todoEvent]

/-! ## The loop -/

/-- How far one tick has come: waiting for `listTodos`, holding what it returned
or threw, or done, with the listing it took over. -/
inductive TickPhase
  | waiting
  | listed (result : Except JsError (List ReminderTodo))
  | done (consumed : Option (List ReminderTodo))

structure Tick where
  /-- The start that made the loop of this tick. -/
  loop : Nat
  phase : TickPhase

/-- An event handed to the `onEvent` of a loop. -/
structure Announcement where
  loop : Nat
  event : TodoEvent
  deriving DecidableEq

structure State where
  /-- The reminders list that `listTodos` reads. -/
  todos : List ReminderTodo
  /-- The loop whose interval is set. -/
  pollHandle : Option Nat
  prevState : List ReminderTodo
  starts : Nat
  ticks : List Tick
  announced : List Announcement

inductive Event
  | edit (todos : List ReminderTodo)
  | start
  | stop
  | timer
  /-- The command behind `listTodos` of tick `k` reads the list, or fails. -/
  | read (k : Nat)
  | readFails (k : Nat) (err : JsError)
  /-- Tick `k` continues after its `await`. -/
  | resume (k : Nat)

def init (todos : List ReminderTodo) : State := ⟨todos, none, [], 0, [], []⟩

def newTick (s : State) (loop : Nat) : State := { s with ticks := s.ticks ++ [⟨loop, .waiting⟩] }

/-- The first tick of a loop runs at once. -/
def startReminderPolling (s : State) : State :=
  match s.pollHandle with
  | some _ => s
  | none => newTick { s with pollHandle := some s.starts, starts := s.starts + 1 } s.starts

def stopReminderPolling (s : State) : State := { s with pollHandle := none, prevState := [] }

/-- Tick `k` takes over a listing. -/
def consume (s : State) (k : Nat) (t : Tick) (next : List ReminderTodo) : State :=
  { s with
    prevState := next
    ticks := s.ticks.set k { t with phase := .done (some next) }
    announced := s.announced ++ (diffTodos s.prevState next).map fun e => ⟨t.loop, e⟩ }

/-- What `listTodos` of a waiting tick returns or throws. -/
def listedStep (s : State) (k : Nat) (result : Except JsError (List ReminderTodo)) : Option State := do
  let t ← s.ticks[k]?
  match t.phase with
  | .waiting => some { s with ticks := s.ticks.set k { t with phase := .listed result } }
  | _ => none

/-- An error ends the tick without effect. -/
def resumeStep (s : State) (k : Nat) : Option State := do
  let t ← s.ticks[k]?
  match t.phase with
  | .listed (.ok next) => some (consume s k t next)
  | .listed (.error _) => some { s with ticks := s.ticks.set k { t with phase := .done none } }
  | _ => none

def step (s : State) : Event → Option State
  | .edit todos => some { s with todos }
  | .start => some (startReminderPolling s)
  | .stop => some (stopReminderPolling s)
  | .timer => s.pollHandle.map (newTick s)
  | .read k => listedStep s k (.ok s.todos)
  | .readFails k err => listedStep s k (.error err)
  | .resume k => resumeStep s k

/-! ## What one step can do -/

/-- A listing that was returned and is not yet taken over. -/
def Listed (s : State) (k : Nat) (loop : Nat) (next : List ReminderTodo) : Prop :=
  s.ticks[k]? = some ⟨loop, .listed (.ok next)⟩

/-- Some tick took over the listing. -/
def Consumed (s : State) (l : List ReminderTodo) : Prop :=
  ∃ t ∈ s.ticks, t.phase = .done (some l)

theorem listedStep_cases {s t : State} {k : Nat} {result : Except JsError (List ReminderTodo)}
    (h : listedStep s k result = some t) :
    ∃ loop, s.ticks[k]? = some ⟨loop, .waiting⟩ ∧
      t = { s with ticks := s.ticks.set k ⟨loop, .listed result⟩ } := by
  obtain ⟨⟨loop, phase⟩, hk, h⟩ := Option.bind_eq_some_iff.mp h
  cases phase with
  | waiting => exact ⟨loop, hk, (Option.some.inj h).symm⟩
  | listed r => cases h
  | done l => cases h

theorem resumeStep_cases {s t : State} {k : Nat} (h : resumeStep s k = some t) :
    (∃ loop next, Listed s k loop next ∧ t = consume s k ⟨loop, .listed (.ok next)⟩ next) ∨
      ∃ loop err, s.ticks[k]? = some ⟨loop, .listed (.error err)⟩ ∧
        t = { s with ticks := s.ticks.set k ⟨loop, .done none⟩ } := by
  obtain ⟨⟨loop, phase⟩, hk, h⟩ := Option.bind_eq_some_iff.mp h
  cases phase with
  | waiting => cases h
  | done l => cases h
  | listed r =>
    cases r with
    | ok next => exact .inl ⟨loop, next, hk, (Option.some.inj h).symm⟩
    | error err => exact .inr ⟨loop, err, hk, (Option.some.inj h).symm⟩

/-- Only a tick that takes over a listing announces anything. -/
theorem step_announced {s t : State} {e : Event} (h : step s e = some t) :
    (∃ k loop next, e = .resume k ∧ Listed s k loop next ∧
      t = consume s k ⟨loop, .listed (.ok next)⟩ next) ∨ t.announced = s.announced := by
  cases e with
  | edit todos => cases h; exact .inr rfl
  | start =>
    cases h
    unfold startReminderPolling
    cases s.pollHandle with
    | some loop => exact .inr rfl
    | none => exact .inr rfl
  | stop => cases h; exact .inr rfl
  | timer =>
    obtain ⟨loop, _, rfl⟩ := Option.map_eq_some_iff.mp h
    exact .inr rfl
  | read k =>
    obtain ⟨loop, _, rfl⟩ := listedStep_cases h
    exact .inr rfl
  | readFails k err =>
    obtain ⟨loop, _, rfl⟩ := listedStep_cases h
    exact .inr rfl
  | resume k =>
    rcases resumeStep_cases h with ⟨loop, next, hk, rfl⟩ | ⟨loop, err, _, rfl⟩
    · exact .inl ⟨k, loop, next, rfl, hk, rfl⟩
    · exact .inr rfl

/-- One todo, open or completed. -/
def shipIt (completed : Bool) : ReminderTodo :=
  ⟨js "a", js "Ship it", js "AgentTasks", none, none, .finite 0, completed, ⟨none, none, none⟩⟩

end Conductor.Reminders.Poll
