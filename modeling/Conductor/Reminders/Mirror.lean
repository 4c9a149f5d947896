import Mathlib.Logic.Function.Basic
import Conductor.Reminders.Poll

/-! # A consumer that mirrors the list

A consumer keeps the todo of the last event for each id. It learns of every new
title, note and due date. Nothing tells it that a completed todo was reopened
when nothing else about the todo changed, and exactly then its completed value
is out of date. -/
namespace Conductor.Reminders.Mirror
open Conductor.Js.Text Conductor.Js.Number Conductor.Reminders.Poll

/-- The todos a consumer holds, by id. -/
abbrev Held := JsString → Option ReminderTodo

def foldEvents (held : Held) (events : List TodoEvent) : Held :=
  events.foldl (fun held e => Function.update held e.todo.id (some e.todo)) held

/-- A completed todo is open again, and neither its title nor its notes nor its due date changed. -/
def reopenedQuietly (before t : ReminderTodo) : Bool :=
  before.completed && !t.completed && before.title == t.title && before.notes == t.notes &&
    before.due == t.due

/-- The consumer after some snapshots, with the previous one. `reopened` is no
part of the program: it holds the ids that were reopened quietly since their
last event. -/
structure Consumer where
  snapshot : List ReminderTodo
  held : Held
  reopened : JsString → Bool

def start : Consumer := ⟨[], fun _ => none, fun _ => false⟩

/-- What becomes of the mark of `id` when the next snapshot is compared. -/
def markAfter (c : Consumer) (next : List ReminderTodo) (id : JsString) : Bool :=
  match next.find? (fun t => t.id == id) with
  | none => c.reopened id
  | some t =>
    if (todoEvent (prevTodo c.snapshot id) t).isSome then false
    else c.reopened id || (prevTodo c.snapshot id).any fun before => reopenedQuietly before t

def follow (c : Consumer) (next : List ReminderTodo) : Consumer :=
  ⟨next, foldEvents c.held (diffTodos c.snapshot next), markAfter c next⟩

/-- The consumer after a sequence of snapshots, the first against the empty list. -/
def consumerOf (snapshots : List (List ReminderTodo)) : Consumer := snapshots.foldl follow start

/-! ## One snapshot -/

/-- The last event for an id decides what is held for it. -/
theorem foldEvents_eq (held : Held) (events : List TodoEvent) (id : JsString) :
    foldEvents held events id =
      (((events.filter fun e => e.todo.id == id).getLast?).map TodoEvent.todo).or (held id) := by
  unfold foldEvents
  induction events using List.reverseRecOn with
  | nil => rfl
  | append_singleton events e ih =>
    rw [List.foldl_concat, List.filter_append, List.filter_singleton]
    by_cases hid : e.todo.id = id
    · subst hid
      simp
    · have hne : (e.todo.id == id) = false := by simpa using hid
      rw [Function.update_of_ne (Ne.symm hid), ih, hne, cond_false, List.append_nil]

/-- A todo of the snapshot is taken over when there is an event for it. -/
theorem held_of_mem (held : Held) (prev : List ReminderTodo) {next : List ReminderTodo}
    (hids : DistinctIds next) {t : ReminderTodo} (ht : t ∈ next) :
    foldEvents held (diffTodos prev next) t.id =
      if (todoEvent (prevTodo prev t.id) t).isSome then some t else held t.id := by
  rw [foldEvents_eq, diffTodos_of_id hids, find?_of_mem hids ht, Option.bind_some]
  cases he : todoEvent (prevTodo prev t.id) t with
  | none => rfl
  | some e =>
    rw [← todoEvent_todo he]
    rfl

theorem markAfter_of_mem {c : Consumer} {next : List ReminderTodo} (hids : DistinctIds next)
    {t : ReminderTodo} (ht : t ∈ next) :
    markAfter c next t.id =
      if (todoEvent (prevTodo c.snapshot t.id) t).isSome then false
      else c.reopened t.id || (prevTodo c.snapshot t.id).any fun before => reopenedQuietly before t := by
  unfold markAfter
  rw [find?_of_mem hids ht]

/-- What the consumer holds for a todo of the present snapshot. -/
structure Tracks (c : Consumer) (t m : ReminderTodo) : Prop where
  held : c.held t.id = some m
  title : m.title = t.title
  notes : m.notes = t.notes
  due : m.due = t.due
  /-- The completed value is current, but for a todo that was reopened quietly. -/
  completed : m.completed = (t.completed || c.reopened t.id)
  reopened : c.reopened t.id = true → t.completed = false

/-- Without an event nothing but a quiet reopening can have happened. -/
theorem todoEvent_eq_none {before t : ReminderTodo} (h : todoEvent (some before) t = none) :
    before.title = t.title ∧ before.notes = t.notes ∧ before.due = t.due ∧
      (before.completed = true ∨ t.completed = false) := by
  unfold todoEvent at h
  simp only at h
  split at h
  · cases h
  · rename_i hdone
    split at h
    · cases h
    · rename_i hsame
      push Not at hsame
      refine ⟨hsame.1, hsame.2.1, hsame.2.2, ?_⟩
      cases hb : before.completed with
      | true => exact .inl rfl
      | false =>
        rw [hb] at hdone
        exact .inr (by simpa using hdone)

/-- One snapshot keeps the consumer on track. -/
theorem follow_tracks {c : Consumer} {next : List ReminderTodo} (hids : DistinctIds next)
    (h : ∀ t ∈ c.snapshot, ∃ m, Tracks c t m) {t : ReminderTodo} (ht : t ∈ next) :
    ∃ m, Tracks (follow c next) t m := by
  have hheld := held_of_mem c.held c.snapshot hids ht
  have hmark := markAfter_of_mem (c := c) hids ht
  by_cases hev : (todoEvent (prevTodo c.snapshot t.id) t).isSome = true
  · rw [if_pos hev] at hheld hmark
    refine ⟨t, hheld, rfl, rfl, rfl, ?_, fun hr => ?_⟩
    · show t.completed = (t.completed || markAfter c next t.id)
      rw [hmark, Bool.or_false]
    · have hr : markAfter c next t.id = true := hr
      rw [hmark] at hr
      cases hr
  · rw [if_neg hev] at hheld hmark
    rw [Bool.not_eq_true, Option.isSome_eq_false_iff, Option.isNone_iff_eq_none] at hev
    cases hprev : prevTodo c.snapshot t.id with
    | none =>
      rw [hprev] at hev
      cases hev
    | some before =>
      obtain ⟨hmem, hid⟩ := prevTodo_mem hprev
      rw [hprev] at hev hmark
      obtain ⟨htitle, hnotes, hdue, hdone⟩ := todoEvent_eq_none hev
      obtain ⟨m, hm⟩ := h before hmem
      have hquiet : reopenedQuietly before t = (before.completed && !t.completed) := by
        simp [reopenedQuietly, htitle, hnotes, hdue]
      rw [Option.any_some, hquiet] at hmark
      have hcompleted := hm.completed
      have hreopened := hm.reopened
      rw [hid] at hcompleted hreopened
      have hheld' := hm.held
      rw [hid] at hheld'
      refine ⟨m, hheld.trans hheld', hm.title.trans htitle, hm.notes.trans hnotes, hm.due.trans hdue,
        ?_, fun hr => ?_⟩
      · show m.completed = (t.completed || markAfter c next t.id)
        rw [hmark, hcompleted]
        revert hdone hreopened
        cases before.completed <;> cases t.completed <;> cases c.reopened t.id <;> decide
      · have hr : markAfter c next t.id = true := hr
        rw [hmark] at hr
        revert hr hdone hreopened
        cases before.completed <;> cases t.completed <;> cases c.reopened t.id <;> decide

/-! ## Every sequence of snapshots -/

theorem consumerOf_tracks {snapshots : List (List ReminderTodo)} (hids : ∀ s ∈ snapshots, DistinctIds s) :
    ∀ t ∈ (consumerOf snapshots).snapshot, ∃ m, Tracks (consumerOf snapshots) t m := by
  unfold consumerOf
  induction snapshots using List.reverseRecOn with
  | nil =>
    intro t ht
    cases ht
  | append_singleton snapshots next ih =>
    rw [List.foldl_concat]
    intro t ht
    exact follow_tracks (hids next (by simp)) (ih fun s hs => hids s (by simp [hs])) ht

/-- The consumer holds every todo of the snapshot with its title, notes and due
date, and with its completed value unless it was reopened quietly. -/
def Current (c : Consumer) : Prop :=
  ∀ t ∈ c.snapshot, ∃ m, c.held t.id = some m ∧ m.title = t.title ∧ m.notes = t.notes ∧
    m.due = t.due ∧ (m.completed = t.completed ↔ c.reopened t.id = false)

/-- After each snapshot of every sequence, and a repeated snapshot emits nothing. -/
theorem consumer_current (snapshots : List (List ReminderTodo))
    (hids : ∀ s ∈ snapshots, DistinctIds s) :
    ∀ past, past <+: snapshots → Current (consumerOf past) ∧
      ∀ next rest, snapshots = past ++ next :: rest → next = (consumerOf past).snapshot →
        diffTodos (consumerOf past).snapshot next = [] := by
  intro past hpast
  have hpids : ∀ s ∈ past, DistinctIds s := fun s hs => hids s (hpast.subset hs)
  refine ⟨fun t ht => ?_, fun next rest hsplit hnext => ?_⟩
  · obtain ⟨m, hm⟩ := consumerOf_tracks hpids t ht
    refine ⟨m, hm.held, hm.title, hm.notes, hm.due, ?_⟩
    have hreopened := hm.reopened
    rw [hm.completed]
    revert hreopened
    cases t.completed <;> cases (consumerOf past).reopened t.id <;> decide
  · rw [← hnext]
    exact diffTodos_self (hids next (by rw [hsplit]; simp))

theorem completed_todo_current :
    (∀ s ∈ [[shipIt false], [shipIt true]], DistinctIds s) ∧
      ∀ past, past <+: [[shipIt false], [shipIt true]] → Current (consumerOf past) ∧
        ∀ next rest, [[shipIt false], [shipIt true]] = past ++ next :: rest →
          next = (consumerOf past).snapshot → diffTodos (consumerOf past).snapshot next = [] := by
  have hids : ∀ s ∈ [[shipIt false], [shipIt true]], DistinctIds s := by
    intro s hs
    simp only [List.mem_cons, List.not_mem_nil, or_false] at hs
    rcases hs with rfl | rfl
    · exact List.nodup_singleton _
    · exact List.nodup_singleton _
  exact ⟨hids, consumer_current _ hids⟩

/-- A completed todo that is opened again stays completed for the consumer. -/
theorem reopened_todo_held_completed :
    diffTodos [shipIt true] [shipIt false] = [] ∧
      (consumerOf [[shipIt true], [shipIt false]]).snapshot = [shipIt false] ∧
      (consumerOf [[shipIt true], [shipIt false]]).held (js "a") = some (shipIt true) ∧
      ¬ ∀ snapshots : List (List ReminderTodo), (∀ s ∈ snapshots, DistinctIds s) →
        ∀ t ∈ (consumerOf snapshots).snapshot, ∃ m, (consumerOf snapshots).held t.id = some m ∧
          m.title = t.title ∧ m.notes = t.notes ∧ m.due = t.due ∧ m.completed = t.completed := by
  refine ⟨by decide, rfl, by decide, fun h => ?_⟩
  have hids : ∀ s ∈ [[shipIt true], [shipIt false]], DistinctIds s := by
    intro s hs
    simp only [List.mem_cons, List.not_mem_nil, or_false] at hs
    rcases hs with rfl | rfl
    · exact List.nodup_singleton _
    · exact List.nodup_singleton _
  obtain ⟨m, hm, -, -, -, hcompleted⟩ := h _ hids (shipIt false) (by simp [consumerOf, follow])
  have hheld : (consumerOf [[shipIt true], [shipIt false]]).held (shipIt false).id = some (shipIt true) := by decide
  rw [hheld] at hm
  cases hm
  cases hcompleted

end Conductor.Reminders.Mirror
