import Conductor.Lib.UnlockedCell
import Conductor.Reminders.FallbackFile

/-! # Concurrent changes of the todo file

A call reads the file, and writes it later without looking again. What other
calls wrote in between is not in what it writes, and a read that failed leaves
nothing to keep. -/
namespace Conductor.Reminders.LostUpdates
open Conductor.Lib.Runs Conductor.Lib.UnlockedCell Conductor.Js.Text Conductor.Js.Utf8
open Conductor.Js.Number Conductor.Js.Values Conductor.Js.JsonText Conductor.Js.JsonAccepts
open Conductor.Js.JsonRoundTrip Conductor.Reminders.Poll Conductor.Reminders.FallbackFile
open Conductor.Reminders.Cli (AddTodoInput ACTIVE_LIST)

/-- A call that changes the file. -/
inductive Call
  /-- `addTodo(input, list, "fallback-file")`, and what it reads from the clock. -/
  | add (input : AddTodoInput) (list : JsString) (now : Int)
  /-- `completeTodo(id, "fallback-file")`. -/
  | complete (id : JsString)

/-- The file that a call writes after its read has delivered `raw`. -/
def written : Call → Option Bytes → Bytes
  | .add input list now, raw => (addTodo input list now raw).2
  | .complete id, raw => (completeTodo id raw).2

/-- How the read of a call ends. -/
inductive ReadOutcome
  | content
  | rejected
  /-- It delivers bytes that `listTodos` cannot make sense of. -/
  | garbled (bytes : Bytes)

def ReadOutcome.delivers (file : Option Bytes) : ReadOutcome → Option Bytes
  | .content => file
  | .rejected => none
  | .garbled bytes => some bytes

def ReadOutcome.possible : ReadOutcome → Bool
  | .garbled bytes => (todosOfText (decode bytes)).isNone
  | _ => true

/-- The todos after a call. -/
def changed : Call → List Todo → List Todo
  | .add input list now, ts => ts ++ [onDisk (todoMembers (newTodo input list now))]
  | .complete id, ts => ts.map (complete id)

structure State where
  file : Option Bytes
  /-- The calls that have read and not yet written, with what their reads delivered. -/
  pending : List (Call × Option Bytes)
  /-- The todos of the file at the beginning, with what the calls did that have resolved. -/
  owed : List Todo

def start (file : Option Bytes) : State := ⟨file, [], todosIn file⟩

inductive Event
  | read (call : Call) (outcome : ReadOutcome)
  /-- A call writes what it has made, and resolves. -/
  | write (k : Nat)
  /-- The write is rejected, and with it the call. -/
  | reject (k : Nat)

def step (s : State) : Event → Option State
  | .read call outcome =>
    if outcome.possible then
      some { s with pending := s.pending ++ [(call, outcome.delivers s.file)] }
    else none
  | .write k => (s.pending[k]?).map fun p =>
    { file := some (written p.1 p.2), pending := s.pending.eraseIdx k, owed := changed p.1 s.owed }
  | .reject k =>
    if k < s.pending.length then some { s with pending := s.pending.eraseIdx k } else none

/-- A todo as it was, or completed since. -/
def Survives (t t' : Todo) : Prop := t' = t ∨ t' = setMember t (js "completed") (.bool true)

/-- Every todo that was in the file or whose `addTodo` resolved is in the file,
and completed there if a `completeTodo` of it resolved. -/
def NothingLost (s : State) : Prop := List.SublistForall₂ Survives s.owed (todosIn s.file)

/-- The todos that a call has read are those of the file. For `completeTodo`
the completion of the todo that it completes may differ. -/
def UpToDate (read file : List Todo) : Call → Prop
  | .add .. => read = file
  | .complete id => read.map (complete id) = file.map (complete id)

/-- What is written was made from the todos that the file still has. -/
def Fresh (s : State) : Event → Prop
  | .write k => ∀ p, s.pending[k]? = some p → UpToDate (todosRead p.2) (todosIn s.file) p.1
  | _ => True

/-! ## Todos in order of their completion -/

/-- The todos of the file, ordered by `Survives`. -/
def Entry := Todo

instance : PartialOrder Entry where
  le := Survives
  le_refl _ := .inl rfl
  le_trans := by
    intro a b c hab hbc
    rcases hab with rfl | rfl
    · exact hbc
    · rcases hbc with rfl | rfl
      · exact .inr rfl
      · exact .inr (setMember_setMember a (js "completed") (.bool true))
  le_antisymm := by
    intro a b hab hba
    rcases hab with rfl | rfl
    · rfl
    · rcases hba with h | h
      · exact h
      · exact h.trans (setMember_setMember a (js "completed") (.bool true))

theorem complete_survives (id : JsString) (t : Todo) : Survives t (complete id t) := by
  unfold complete
  split
  · exact .inr rfl
  · exact .inl rfl

theorem complete_mono (id : JsString) {t t' : Todo} (h : Survives t t') :
    Survives (complete id t) (complete id t') := by
  rcases h with rfl | rfl
  · exact .inl rfl
  · unfold complete
    rw [lookup_setMember_of_ne (by decide)]
    split
    · exact .inl (setMember_setMember t (js "completed") (.bool true))
    · exact .inr rfl

def update (call : Call) : Update (Records Entry) where
  apply := changed call
  monotone := match call with
    | .add .. => (Records.add (α := Entry) _).monotone
    | .complete id => (Records.change (α := Entry) (complete id) (fun _ _ => complete_mono id)
        (complete_survives id)).monotone
  adds := match call with
    | .add .. => (Records.add (α := Entry) _).adds
    | .complete id => (Records.change (α := Entry) (complete id) (fun _ _ => complete_mono id)
        (complete_survives id)).adds

theorem upToDate_iff (call : Call) (read file : List Todo) :
    UpToDate read file call ↔ changed call read = changed call file := by
  cases call with
  | add input list now => exact (List.append_left_inj _).symm
  | complete id => exact Iff.rfl

/-- Whatever a call has read, it writes those todos with its change. -/
theorem todosIn_written (call : Call) (raw : Option Bytes) :
    todosIn (some (written call raw)) = changed call (todosRead raw) := by
  cases call with
  | add input list now =>
    have hnew : Listed (todoMembers (newTodo input list now)) := listed_todoMembers rfl
    have hall : ∀ t ∈ listTodos list raw ++ [todoMembers (newTodo input list now)], Listed t := by
      intro t ht
      rcases List.mem_append.mp ht with ht | ht
      · exact listed_of_mem ht
      · rw [List.mem_singleton.mp ht]
        exact hnew
    have h := todosIn_fileOf hall
    rw [List.map_append, List.map_singleton, settled_todoMembers rfl] at h
    exact h
  | complete id =>
    have hall : ∀ t ∈ (listTodos ACTIVE_LIST raw).map (complete id), Listed t := by
      intro t ht
      obtain ⟨t', ht', rfl⟩ := List.mem_map.mp ht
      exact (listed_of_mem ht').complete id
    have h := todosIn_fileOf hall
    rw [List.map_map] at h
    refine h.trans ?_
    rw [changed, todosRead, List.map_map]
    exact List.map_congr_left fun t _ => settled_complete id t

/-! ## Every interleaving -/

/-- The state as a cell whose value is the todos of the file. -/
def cell (s : State) : Cell (Records Entry) where
  value := todosIn s.file
  owed := s.owed
  snapshots := s.pending.map fun p => todosRead p.2

/-- A read delivers the file or nothing that can be listed. -/
theorem todosRead_delivers {outcome : ReadOutcome} (h : outcome.possible = true) (file : Option Bytes) :
    todosRead (outcome.delivers file) = todosIn file ∨ todosRead (outcome.delivers file) = [] := by
  cases outcome with
  | content => exact todosRead_cases file
  | rejected => exact .inr rfl
  | garbled bytes =>
    have hnone : todosOfText (decode bytes) = none := by simpa [ReadOutcome.possible] using h
    right
    simp [todosRead, listTodos, ReadOutcome.delivers, hnone]

theorem mem_snapshots_eraseIdx {pending : List (Call × Option Bytes)} {k : Nat} {a : List Todo}
    (h : a ∈ (pending.eraseIdx k).map fun p => todosRead p.2) : a ∈ pending.map fun p => todosRead p.2 := by
  obtain ⟨p, hp, ha⟩ := List.mem_map.mp h
  exact List.mem_map.mpr ⟨p, List.mem_of_mem_eraseIdx hp, ha⟩

theorem move_of_step {s t : State} {e : Event} (h : step s e = some t) :
    Move (cell s) (Fresh s e) (cell t) := by
  cases e with
  | read call outcome =>
    simp only [step] at h
    obtain ⟨hpossible, h⟩ := Option.ite_none_right_eq_some.mp h
    cases h
    refine .quiet trivial fun a ha => ?_
    have ha : a ∈ (s.pending ++ [(call, outcome.delivers s.file)]).map fun p => todosRead p.2 := ha
    rw [List.map_append, List.map_singleton] at ha
    rcases List.mem_append.mp ha with ha | ha
    · exact .inl ha
    · right
      rw [List.mem_singleton.mp ha]
      rcases todosRead_delivers hpossible s.file with hd | hd
      · rw [hd]
        exact le_refl (α := Records Entry) _
      · rw [hd]
        exact List.SublistForall₂.nil
  | write k =>
    obtain ⟨⟨call, raw⟩, hk, rfl⟩ := Option.map_eq_some_iff.mp h
    have hraw : todosRead raw ∈ s.pending.map fun p => todosRead p.2 :=
      List.mem_map.mpr ⟨(call, raw), List.mem_of_getElem? hk, rfl⟩
    have hfresh : Fresh s (.write k) ↔ changed call (todosRead raw) = changed call (todosIn s.file) := by
      rw [← upToDate_iff]
      simp [Fresh, hk]
    have hmove : Move (cell s) (Fresh s (.write k)) ⟨changed call (todosRead raw), changed call s.owed,
        (s.pending.eraseIdx k).map fun p => todosRead p.2⟩ :=
      .write (update call) hraw (fun a ha => mem_snapshots_eraseIdx ha) hfresh
    rw [← todosIn_written] at hmove
    exact hmove
  | reject k =>
    simp only [step] at h
    obtain ⟨_, h⟩ := Option.ite_none_right_eq_some.mp h
    cases h
    exact .quiet trivial fun a ha => .inl (mem_snapshots_eraseIdx ha)

/-- In any interleaving and with any reads failing, no todo and no completion is
lost if and only if each call writes while the todos that it has read are still
those of the file. -/
theorem nothing_lost_iff {file : Option Bytes} {es : List Event} {s : State}
    (h : exec step (start file) es = some s) :
    (∀ t, Visited step (start file) es t → NothingLost t) ↔ Along step Fresh (start file) es := by
  have hstart : Intact (cell (start file)) := ⟨rfl, fun a ha => by cases ha⟩
  exact owed_iff_along (fun s e t => move_of_step) hstart h

def milk : Call := .add ⟨js "Buy milk", none, none, none⟩ ACTIVE_LIST 1
def bread : Call := .add ⟨js "Buy bread", none, none, none⟩ ACTIVE_LIST 2

/-- One call writes, and another one, whose read failed, does not get to. -/
def oneCall : List Event := [.read milk .content, .read bread .rejected, .reject 1, .write 0]

theorem nothing_lost_oneCall : (∃ t, exec step (start none) oneCall = some t) ∧
    ∀ t, Visited step (start none) oneCall t → NothingLost t := by
  refine ⟨⟨_, rfl⟩, (nothing_lost_iff rfl).mpr ?_⟩
  refine along_cons_of trivial rfl (along_cons_of trivial rfl (along_cons_of trivial rfl ?_))
  refine along_cons_of (fun p hp => ?_) rfl trivial
  cases hp
  exact (rfl : todosRead none = todosIn none)

/-- Two calls that have read the same file: the second writes over the first. -/
theorem milk_is_lost : ∃ t, exec step (start none)
    [.read milk .content, .read bread .content, .write 0, .write 0] = some t ∧ ¬ NothingLost t := by
  refine ⟨⟨some (written bread none), [], changed bread (changed milk [])⟩, rfl, fun h => ?_⟩
  have h : List.SublistForall₂ Survives (changed bread (changed milk []))
      (todosIn (some (written bread none))) := h
  rw [todosIn_written] at h
  obtain ⟨l, hl, hsub⟩ := List.sublistForall₂_iff.mp h
  have hlen : 2 = l.length := hl.length_eq
  have hle : l.length ≤ 1 := hsub.length_le
  omega

end Conductor.Reminders.LostUpdates
