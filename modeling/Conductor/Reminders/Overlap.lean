import Conductor.Reminders.Poll

/-! # Ticks that overlap

One loop over a list whose todos are only added and completed. A listing that is
taken over replaces the previous snapshot even when it was read before that one.
Events stay unique exactly as long as no todo that was seen before is missed, or
seen open again, by the snapshot that a later listing is compared with. -/
namespace Conductor.Reminders.Overlap
open Conductor.Lib.Runs Conductor.Js.Text Conductor.Js.Number Conductor.Js.Values
open Conductor.Reminders.Poll

/-- The loop has been started over the list. -/
def started (todos : List ReminderTodo) : State := startReminderPolling (init todos)

/-- The list is only edited by adding todos and by completing them. -/
def OnlyGrows (s : State) (e : Event) : Prop :=
  ∀ todos, e = .edit todos → DistinctIds todos ∧
    ∀ t ∈ s.todos, t ∈ todos ∨ { t with completed := true } ∈ todos

/-! ## What was announced -/

def isAdded (id : JsString) : TodoEvent → Bool
  | .added t => t.id == id
  | _ => false

def isCompletion (id : JsString) : TodoEvent → Bool
  | .completed t => t.id == id
  | _ => false

/-- How many of the announced events are of a kind. -/
def announcedCount (s : State) (kind : TodoEvent → Bool) : Nat :=
  s.announced.countP fun a => kind a.event

/-- Some tick took over a listing with a todo of the id. -/
def Seen (s : State) (id : JsString) : Prop := ∃ l, Consumed s l ∧ ∃ t ∈ l, t.id = id

def SeenCompleted (s : State) (id : JsString) : Prop :=
  ∃ l, Consumed s l ∧ ∃ t ∈ l, t.id = id ∧ t.completed = true

def AnnouncedOpen (s : State) (id : JsString) : Prop :=
  ∃ a ∈ s.announced, ∃ t, a.event = .added t ∧ t.id = id ∧ t.completed = false

/-- A todo that was seen has one `todo:added`, and its completion one
`todo:completed` when it was announced open. -/
structure Once (s : State) (id : JsString) : Prop where
  added : Seen s id → announcedCount s (isAdded id) = 1
  unseen : ¬ Seen s id → announcedCount s (isAdded id) = 0
  completed : AnnouncedOpen s id → SeenCompleted s id → announcedCount s (isCompletion id) = 1
  uncompleted : ¬ (AnnouncedOpen s id ∧ SeenCompleted s id) →
    announcedCount s (isCompletion id) = 0

/-- The snapshot that a returned listing is compared with has every todo of the
listing that was seen before, and has it completed if it was seen completed and
is listed completed. -/
def InOrder (s : State) (e : Event) : Prop :=
  ∀ k loop next, e = .resume k → Listed s k loop next → ∀ t ∈ next, Seen s t.id →
    ∃ b, prevTodo s.prevState t.id = some b ∧
      (t.completed = true → SeenCompleted s t.id → b.completed = true)

/-! ## Taking over a listing -/

section Consume

variable {s : State} {k loop : Nat} {next : List ReminderTodo} {id : JsString}

/-- The state after tick `k` took over its listing. -/
abbrev taken (s : State) (k loop : Nat) (next : List ReminderTodo) : State :=
  consume s k ⟨loop, .listed (.ok next)⟩ next

theorem mem_set_done (phase : TickPhase) (l : List ReminderTodo) {ticks : List Tick} {tick : Tick}
    (hk : ticks[k]? = some tick) (hpending : ∀ l, tick.phase ≠ .done l) :
    (∃ t ∈ ticks.set k { tick with phase }, t.phase = .done (some l)) ↔
      (∃ t ∈ ticks, t.phase = .done (some l)) ∨ phase = .done (some l) := by
  obtain ⟨hlt, hget⟩ := List.getElem?_eq_some_iff.mp hk
  constructor
  · intro h
    obtain ⟨t, ht, hphase⟩ := h
    rcases List.mem_or_eq_of_mem_set ht with ht | rfl
    · exact .inl ⟨t, ht, hphase⟩
    · exact .inr hphase
  · intro h
    rcases h with ⟨t, ht, hphase⟩ | hphase
    · obtain ⟨i, hi, rfl⟩ := List.getElem_of_mem ht
      refine ⟨_, List.mem_iff_getElem?.mpr ⟨i, ?_⟩, hphase⟩
      rw [List.getElem?_set_ne, List.getElem?_eq_getElem hi]
      rintro rfl
      exact hpending _ (hget ▸ hphase)
    · exact ⟨_, List.mem_iff_getElem?.mpr ⟨k, List.getElem?_set_self hlt⟩, hphase⟩

theorem consumed_taken (hl : Listed s k loop next) (l : List ReminderTodo) :
    Consumed (taken s k loop next) l ↔ Consumed s l ∨ l = next := by
  have h := mem_set_done (.done (some next)) l hl (fun _ hp => by cases hp)
  refine h.trans (or_congr_right ?_)
  simp [eq_comm]

theorem seen_taken (hl : Listed s k loop next) :
    Seen (taken s k loop next) id ↔ Seen s id ∨ ∃ t ∈ next, t.id = id := by
  unfold Seen
  simp only [consumed_taken hl, or_and_right, exists_or, exists_eq_left]

theorem seenCompleted_taken (hl : Listed s k loop next) :
    SeenCompleted (taken s k loop next) id ↔
      SeenCompleted s id ∨ ∃ t ∈ next, t.id = id ∧ t.completed = true := by
  unfold SeenCompleted
  simp only [consumed_taken hl, or_and_right, exists_or, exists_eq_left]

theorem announcedCount_taken (kind : TodoEvent → Bool) :
    announcedCount (taken s k loop next) kind =
      announcedCount s kind + (diffTodos s.prevState next).countP kind := by
  unfold announcedCount
  show (s.announced ++ (diffTodos s.prevState next).map _).countP _ = _
  rw [List.countP_append, List.countP_map]
  rfl

theorem announcedOpen_taken :
    AnnouncedOpen (taken s k loop next) id ↔ AnnouncedOpen s id ∨
      ∃ t ∈ next, t.id = id ∧ t.completed = false ∧ prevTodo s.prevState id = none := by
  have hadded : ∀ t, TodoEvent.added t ∈ diffTodos s.prevState next ↔
      t ∈ next ∧ prevTodo s.prevState t.id = none := by
    intro t
    rw [mem_diffTodos]
    refine and_congr_right fun _ => ?_
    show todoEvent (prevTodo s.prevState t.id) t = _ ↔ _
    cases prevTodo s.prevState t.id with
    | none => simp [todoEvent]
    | some b =>
      simp only [todoEvent, reduceCtorEq, iff_false]
      split
      · simp
      · split
        · simp
        · simp
  unfold AnnouncedOpen
  show (∃ a ∈ s.announced ++ (diffTodos s.prevState next).map fun e => ⟨loop, e⟩, _) ↔ _
  simp only [List.mem_append, or_and_right, exists_or, List.mem_map]
  refine or_congr_right ⟨?_, ?_⟩
  · intro h
    obtain ⟨a, ⟨e, he, rfl⟩, t, rfl, rfl, hopen⟩ := h
    obtain ⟨hmem, hnone⟩ := (hadded t).mp he
    exact ⟨t, hmem, rfl, hopen, hnone⟩
  · intro h
    obtain ⟨t, ht, rfl, hopen, hnone⟩ := h
    exact ⟨_, ⟨_, (hadded t).mpr ⟨ht, hnone⟩, rfl⟩, t, rfl, rfl, hopen⟩

/-- Only the event of the todo with the id counts for the id. -/
theorem countP_diffTodos (hids : DistinctIds next) {kind : TodoEvent → Bool}
    (hkind : ∀ e, kind e = true → e.todo.id = id) (prev : List ReminderTodo) :
    (diffTodos prev next).countP kind =
      (((next.find? fun t => t.id == id).bind fun t => todoEvent (prevTodo prev id) t).toList).countP
        kind := by
  rw [← diffTodos_of_id hids, List.countP_filter]
  refine List.countP_congr fun e _ => ?_
  constructor
  · intro he
    simp [he, hkind e he]
  · intro he
    simp only [Bool.and_eq_true] at he
    exact he.1

theorem isAdded_id {e : TodoEvent} (h : isAdded id e = true) : e.todo.id = id := by
  cases e with
  | added t => simpa [isAdded, TodoEvent.todo] using h
  | completed t => cases h
  | updated t b => cases h

theorem isCompletion_id {e : TodoEvent} (h : isCompletion id e = true) : e.todo.id = id := by
  cases e with
  | added t => cases h
  | completed t => simpa [isCompletion, TodoEvent.todo] using h
  | updated t b => cases h

/-- The listing has no todo of the id: nothing changes for the id. -/
theorem counts_of_absent (s : State) (k loop : Nat) (hids : DistinctIds next)
    (habsent : ∀ t ∈ next, t.id ≠ id) :
    announcedCount (taken s k loop next) (isAdded id) = announcedCount s (isAdded id) ∧
      announcedCount (taken s k loop next) (isCompletion id) = announcedCount s (isCompletion id) := by
  have hfind : (next.find? fun t => t.id == id) = none := by
    rw [List.find?_eq_none]
    intro t ht heq
    exact habsent t ht (by simpa using heq)
  rw [announcedCount_taken, announcedCount_taken, countP_diffTodos hids (fun _ => isAdded_id),
    countP_diffTodos hids (fun _ => isCompletion_id), hfind]
  exact ⟨rfl, rfl⟩

/-- The listing has a todo of the id that the previous snapshot does not have. -/
theorem counts_of_new (s : State) (k loop : Nat) (hids : DistinctIds next)
    {t : ReminderTodo} (ht : t ∈ next) (hprev : prevTodo s.prevState t.id = none) :
    announcedCount (taken s k loop next) (isAdded t.id) = announcedCount s (isAdded t.id) + 1 ∧
      announcedCount (taken s k loop next) (isCompletion t.id) =
        announcedCount s (isCompletion t.id) := by
  rw [announcedCount_taken, announcedCount_taken, countP_diffTodos hids (fun _ => isAdded_id),
    countP_diffTodos hids (fun _ => isCompletion_id), find?_of_mem hids ht, Option.bind_some, hprev]
  simp [todoEvent, isAdded, isCompletion]

/-- The previous snapshot has a todo of the id: its completion is announced. -/
theorem counts_of_known (s : State) (k loop : Nat) (hids : DistinctIds next)
    {t b : ReminderTodo} (ht : t ∈ next) (hprev : prevTodo s.prevState t.id = some b) :
    announcedCount (taken s k loop next) (isAdded t.id) = announcedCount s (isAdded t.id) ∧
      announcedCount (taken s k loop next) (isCompletion t.id) =
        announcedCount s (isCompletion t.id) +
          if b.completed = false ∧ t.completed = true then 1 else 0 := by
  rw [announcedCount_taken, announcedCount_taken, countP_diffTodos hids (fun _ => isAdded_id),
    countP_diffTodos hids (fun _ => isCompletion_id), find?_of_mem hids ht, Option.bind_some, hprev]
  by_cases hdone : b.completed = false ∧ t.completed = true
  · simp [todoEvent, hdone.1, hdone.2, isAdded, isCompletion]
  · have hcond : (!b.completed && t.completed) = false := by
      revert hdone
      cases b.completed <;> cases t.completed <;> decide
    simp only [todoEvent, hcond, Bool.false_eq_true, if_false, if_neg hdone]
    split
    · exact ⟨rfl, rfl⟩
    · exact ⟨rfl, rfl⟩

end Consume

/-! ## The invariant -/

structure Inv (s : State) : Prop where
  running : s.pollHandle.isSome = true
  todos : DistinctIds s.todos
  listed : ∀ k loop l, Listed s k loop l → DistinctIds l
  previous : ∀ t ∈ s.prevState, ∃ l, Consumed s l ∧ t ∈ l
  source : ∀ a ∈ s.announced, ∃ l, Consumed s l ∧ a.event.todo ∈ l
  once : ∀ id, Once s id

variable {s t : State}

/-- An announced todo comes from a listing that was taken over. -/
theorem announced_todo_seen (h : Inv s) {id : JsString} (hc : announcedCount s (isAdded id) = 1)
    (hnot : ¬ SeenCompleted s id) : AnnouncedOpen s id := by
  have hpos : 0 < s.announced.countP fun a => isAdded id a.event := by
    rw [show s.announced.countP (fun a => isAdded id a.event) = 1 from hc]
    exact Nat.one_pos
  obtain ⟨a, ha, hadded⟩ := List.countP_pos_iff.mp hpos
  obtain ⟨l, hl, hmem⟩ := h.source a ha
  have hid := isAdded_id hadded
  cases hev : a.event with
  | added t =>
    rw [hev] at hmem hid
    refine ⟨a, ha, t, hev, hid, ?_⟩
    by_contra hdone
    exact hnot ⟨l, hl, t, hmem, hid, by simpa using hdone⟩
  | completed t =>
    rw [hev] at hadded
    cases hadded
  | updated t b =>
    rw [hev] at hadded
    cases hadded

theorem previous_seen (h : Inv s) {id : JsString} {b : ReminderTodo}
    (hb : prevTodo s.prevState id = some b) :
    Seen s id ∧ (b.completed = true → SeenCompleted s id) := by
  obtain ⟨hmem, hid⟩ := prevTodo_mem hb
  obtain ⟨l, hl, hbl⟩ := h.previous b hmem
  exact ⟨⟨l, hl, b, hbl, hid⟩, fun hdone => ⟨l, hl, b, hbl, hid, hdone⟩⟩

/-- A todo of a listing with distinct ids is the only one of its id. -/
theorem exists_id_iff {next : List ReminderTodo} (hids : DistinctIds next) {t : ReminderTodo}
    (ht : t ∈ next) (p : ReminderTodo → Prop) : (∃ u ∈ next, u.id = t.id ∧ p u) ↔ p t := by
  constructor
  · intro h
    obtain ⟨u, hu, hid, hp⟩ := h
    rwa [List.inj_on_of_nodup_map hids hu ht hid] at hp
  · exact fun hp => ⟨t, ht, rfl, hp⟩

section Step

variable {k loop : Nat} {next : List ReminderTodo} {id : JsString}

theorem once_absent (hl : Listed s k loop next) (hids : DistinctIds next)
    (habsent : ∀ t ∈ next, t.id ≠ id) (h : Once s id) : Once (taken s k loop next) id := by
  obtain ⟨hadded, hcompleted⟩ := counts_of_absent s k loop hids habsent
  have hno : ∀ p : ReminderTodo → Prop, ¬ ∃ t ∈ next, t.id = id ∧ p t :=
    fun p hex => by obtain ⟨t, ht, hid, -⟩ := hex; exact habsent t ht hid
  have hseen : Seen (taken s k loop next) id ↔ Seen s id := by
    rw [seen_taken hl]
    exact or_iff_left fun hex => by obtain ⟨t, ht, hid⟩ := hex; exact habsent t ht hid
  have hdone : SeenCompleted (taken s k loop next) id ↔ SeenCompleted s id := by
    rw [seenCompleted_taken hl]
    exact or_iff_left (hno _)
  have hopen : AnnouncedOpen (taken s k loop next) id ↔ AnnouncedOpen s id := by
    rw [announcedOpen_taken]
    exact or_iff_left (hno _)
  constructor
  · rw [hseen, hadded]; exact h.added
  · rw [hseen, hadded]; exact h.unseen
  · rw [hopen, hdone, hcompleted]; exact h.completed
  · rw [hopen, hdone, hcompleted]; exact h.uncompleted

/-- A listed todo that was never seen is announced, with the completed value it has. -/
theorem once_new (hl : Listed s k loop next) (hids : DistinctIds next) {t : ReminderTodo}
    (ht : t ∈ next) (hprev : prevTodo s.prevState t.id = none) (hnew : ¬ Seen s t.id)
    (h : Once s t.id) : Once (taken s k loop next) t.id := by
  obtain ⟨hadded, hcompleted⟩ := counts_of_new s k loop hids ht hprev
  have hseen : Seen (taken s k loop next) t.id := (seen_taken hl).mpr (.inr ⟨t, ht, rfl⟩)
  have hnotdone : ¬ SeenCompleted s t.id := fun hex => by
    obtain ⟨l, hl, u, hu, hid, -⟩ := hex
    exact hnew ⟨l, hl, u, hu, hid⟩
  have hnotopen : ¬ AnnouncedOpen s t.id := fun hex => by
    obtain ⟨a, ha, u, hev, hid, -⟩ := hex
    have hzero := h.unseen hnew
    unfold announcedCount at hzero
    rw [List.countP_eq_zero] at hzero
    refine hzero a ha ?_
    rw [hev]
    simpa [isAdded] using hid
  have hboth : ¬ (AnnouncedOpen (taken s k loop next) t.id ∧
      SeenCompleted (taken s k loop next) t.id) := by
    rw [announcedOpen_taken, seenCompleted_taken hl, exists_id_iff hids ht, exists_id_iff hids ht]
    intro hand
    obtain ⟨hopen, hdone⟩ := hand
    rcases hopen with hopen | hopen
    · exact hnotopen hopen
    · rcases hdone with hdone | hdone
      · exact hnotdone hdone
      · rw [hopen.1] at hdone
        cases hdone
  have hzero : announcedCount s (isCompletion t.id) = 0 := h.uncompleted fun hand => hnotopen hand.1
  constructor
  · intro _
    rw [hadded, h.unseen hnew]
  · exact fun hno => absurd hseen hno
  · exact fun hopen hdone => absurd ⟨hopen, hdone⟩ hboth
  · intro _
    rw [hcompleted, hzero]

/-- A listed todo that the previous snapshot has, as completed as it was seen. -/
theorem once_known (hinv : Inv s) (hl : Listed s k loop next) (hids : DistinctIds next)
    {t b : ReminderTodo} (ht : t ∈ next) (hprev : prevTodo s.prevState t.id = some b)
    (horder : t.completed = true → SeenCompleted s t.id → b.completed = true) :
    Once (taken s k loop next) t.id := by
  obtain ⟨hadded, hcompleted⟩ := counts_of_known s k loop hids ht hprev
  obtain ⟨hseen, hbdone⟩ := previous_seen hinv hprev
  have h := hinv.once t.id
  have hseen' : Seen (taken s k loop next) t.id := (seen_taken hl).mpr (.inl hseen)
  have hopen : AnnouncedOpen (taken s k loop next) t.id ↔ AnnouncedOpen s t.id := by
    rw [announcedOpen_taken, exists_id_iff hids ht, hprev]
    simp
  have hdone : SeenCompleted (taken s k loop next) t.id ↔
      SeenCompleted s t.id ∨ t.completed = true := by
    rw [seenCompleted_taken hl, exists_id_iff hids ht]
  constructor
  · intro _
    rw [hadded, h.added hseen]
  · exact fun hno => absurd hseen' hno
  · rw [hopen, hdone, hcompleted]
    intro ho hd
    by_cases hflip : b.completed = false ∧ t.completed = true
    · -- the completion is news: it had not been seen before
      have hfirst : ¬ SeenCompleted s t.id := fun hs => by
        rw [horder hflip.2 hs] at hflip
        cases hflip.1
      rw [if_pos hflip, h.uncompleted fun hand => hfirst hand.2]
    · have hbefore : SeenCompleted s t.id := by
        rcases hd with hd | hd
        · exact hd
        · refine hbdone ?_
          by_contra hb
          exact hflip ⟨by simpa using hb, hd⟩
      rw [if_neg hflip, h.completed ho hbefore]
  · rw [hopen, hdone, hcompleted]
    intro hno
    have hflip : ¬ (b.completed = false ∧ t.completed = true) := by
      intro hflip
      have hfirst : ¬ SeenCompleted s t.id := fun hs => by
        rw [horder hflip.2 hs] at hflip
        cases hflip.1
      exact hno ⟨announced_todo_seen hinv (h.added hseen) hfirst, .inr hflip.2⟩
    rw [if_neg hflip, h.uncompleted fun hand => hno ⟨hand.1, .inl hand.2⟩]

theorem once_taken (hinv : Inv s) (hl : Listed s k loop next)
    (horder : ∀ t ∈ next, Seen s t.id → ∃ b, prevTodo s.prevState t.id = some b ∧
      (t.completed = true → SeenCompleted s t.id → b.completed = true)) (id : JsString) :
    Once (taken s k loop next) id := by
  have hids := hinv.listed k loop next hl
  by_cases hex : ∃ t ∈ next, t.id = id
  · obtain ⟨t, ht, rfl⟩ := hex
    by_cases hseen : Seen s t.id
    · obtain ⟨b, hb, hdone⟩ := horder t ht hseen
      exact once_known hinv hl hids ht hb hdone
    · cases hprev : prevTodo s.prevState t.id with
      | none => exact once_new hl hids ht hprev hseen (hinv.once t.id)
      | some b => exact absurd (previous_seen hinv hprev).1 hseen
  · exact once_absent hl hids (fun t ht hid => hex ⟨t, ht, hid⟩) (hinv.once id)

/-- A listing out of order is announced a second time. -/
theorem not_once_taken (hinv : Inv s) (hl : Listed s k loop next) {t : ReminderTodo} (ht : t ∈ next)
    (hseen : Seen s t.id) (hbad : ∀ b, prevTodo s.prevState t.id = some b →
      t.completed = true ∧ SeenCompleted s t.id ∧ b.completed = false) :
    ¬ Once (taken s k loop next) t.id := by
  intro honce
  have hids := hinv.listed k loop next hl
  have h := hinv.once t.id
  cases hprev : prevTodo s.prevState t.id with
  | none =>
    obtain ⟨hadded, -⟩ := counts_of_new s k loop hids ht hprev
    have hone := honce.added ((seen_taken hl).mpr (.inl hseen))
    rw [hadded, h.added hseen] at hone
    cases hone
  | some b =>
    obtain ⟨hdone, hseenDone, hopen⟩ := hbad b hprev
    obtain ⟨-, hcompleted⟩ := counts_of_known s k loop hids ht hprev
    rw [if_pos ⟨hopen, hdone⟩] at hcompleted
    have hsame : AnnouncedOpen (taken s k loop next) t.id ↔ AnnouncedOpen s t.id := by
      rw [announcedOpen_taken, exists_id_iff hids ht, hprev]
      simp
    by_cases ho : AnnouncedOpen s t.id
    · have hone := honce.completed (hsame.mpr ho) ((seenCompleted_taken hl).mpr (.inl hseenDone))
      rw [hcompleted, h.completed ho hseenDone] at hone
      cases hone
    · have hzero := honce.uncompleted fun hand => ho (hsame.mp hand.1)
      rw [hcompleted] at hzero
      cases hzero

end Step

/-! ## Every run -/

/-- A step that takes nothing over and announces nothing. -/
theorem Inv.frame (h : Inv s) (hconsumed : ∀ l, Consumed t l ↔ Consumed s l)
    (hannounced : t.announced = s.announced) (hprevious : t.prevState = s.prevState)
    (hrunning : t.pollHandle.isSome = true) (htodos : DistinctIds t.todos)
    (hlisted : ∀ k loop l, Listed t k loop l → DistinctIds l) : Inv t := by
  have hseen : ∀ id, Seen t id ↔ Seen s id := fun id => by
    unfold Seen
    simp only [hconsumed]
  have hdone : ∀ id, SeenCompleted t id ↔ SeenCompleted s id := fun id => by
    unfold SeenCompleted
    simp only [hconsumed]
  have hopen : ∀ id, AnnouncedOpen t id ↔ AnnouncedOpen s id := fun id => by
    unfold AnnouncedOpen
    rw [hannounced]
  have hcount : ∀ kind, announcedCount t kind = announcedCount s kind := fun kind => by
    unfold announcedCount
    rw [hannounced]
  refine ⟨hrunning, htodos, hlisted, ?_, ?_, fun id => ?_⟩
  · rw [hprevious]
    intro u hu
    obtain ⟨l, hl, hmem⟩ := h.previous u hu
    exact ⟨l, (hconsumed l).mpr hl, hmem⟩
  · rw [hannounced]
    intro a ha
    obtain ⟨l, hl, hmem⟩ := h.source a ha
    exact ⟨l, (hconsumed l).mpr hl, hmem⟩
  · have ho := h.once id
    constructor
    · rw [hseen, hcount]; exact ho.added
    · rw [hseen, hcount]; exact ho.unseen
    · rw [hopen, hdone, hcount]; exact ho.completed
    · rw [hopen, hdone, hcount]; exact ho.uncompleted

theorem listed_set {ticks : List Tick} {k k' loop loop' : Nat} {phase : TickPhase}
    {l : List ReminderTodo} (h : (ticks.set k ⟨loop, phase⟩)[k']? = some ⟨loop', .listed (.ok l)⟩) :
    phase = .listed (.ok l) ∨ ticks[k']? = some ⟨loop', .listed (.ok l)⟩ := by
  by_cases hk : k = k'
  · subst hk
    have hlt : k < ticks.length := by
      have hlt := (List.getElem?_eq_some_iff.mp h).1
      rwa [List.length_set] at hlt
    rw [List.getElem?_set_self hlt] at h
    cases h
    exact .inl rfl
  · rw [List.getElem?_set_ne hk] at h
    exact .inr h

theorem inv_newTick (h : Inv s) (loop : Nat) : Inv (newTick s loop) := by
  refine h.frame (fun l => ?_) rfl rfl h.running h.todos fun k loop' l hl => ?_
  · unfold Consumed newTick
    simp
  · have hl : (s.ticks ++ [⟨loop, .waiting⟩])[k]? = some ⟨loop', .listed (.ok l)⟩ := hl
    rw [List.getElem?_append] at hl
    split at hl
    · exact h.listed k loop' l hl
    · have hmem := List.mem_of_getElem? hl
      simp at hmem

theorem inv_listedStep {k : Nat} {result : Except JsError (List ReminderTodo)} (h : Inv s)
    (hst : listedStep s k result = some t) (hids : ∀ l, result = .ok l → DistinctIds l) : Inv t := by
  obtain ⟨loop, hk, rfl⟩ := listedStep_cases hst
  refine h.frame (fun l => ?_) rfl rfl h.running h.todos fun k' loop' l hl => ?_
  · have hset := mem_set_done (.listed result) l hk (fun _ hp => by cases hp)
    exact hset.trans (or_iff_left fun hp => by cases hp)
  · rcases listed_set hl with hnew | hold
    · cases hnew
      exact hids l rfl
    · exact h.listed k' loop' l hold

/-- The steps of a single loop over a growing list. -/
def Admitted (s : State) (e : Event) : Prop := e ≠ .stop ∧ OnlyGrows s e

theorem inv_taken {k loop : Nat} {next : List ReminderTodo} (h : Inv s)
    (hl : Listed s k loop next) (honce : ∀ id, Once (taken s k loop next) id) :
    Inv (taken s k loop next) := by
  have hnow : Consumed (taken s k loop next) next := (consumed_taken hl next).mpr (.inr rfl)
  refine ⟨h.running, h.todos, fun k' loop' l hl' => ?_, fun u hu => ⟨next, hnow, hu⟩, ?_, honce⟩
  · rcases listed_set hl' with hnew | hold
    · cases hnew
    · exact h.listed k' loop' l hold
  · intro a ha
    rcases List.mem_append.mp ha with ha | ha
    · obtain ⟨l, hl', hmem⟩ := h.source a ha
      exact ⟨l, (consumed_taken hl l).mpr (.inl hl'), hmem⟩
    · obtain ⟨e, he, rfl⟩ := List.mem_map.mp ha
      exact ⟨next, hnow, (mem_diffTodos.mp he).1⟩

theorem inv_step {e : Event} (hst : step s e = some t) (hadm : Admitted s e) (hord : InOrder s e)
    (h : Inv s) : Inv t := by
  cases e with
  | edit todos =>
    cases hst
    exact h.frame (fun _ => Iff.rfl) rfl rfl h.running (hadm.2 todos rfl).1 h.listed
  | start =>
    obtain ⟨loop, hloop⟩ := Option.isSome_iff_exists.mp h.running
    have hsame : startReminderPolling s = s := by
      unfold startReminderPolling
      rw [hloop]
    have hst : some (startReminderPolling s) = some t := hst
    rw [hsame] at hst
    cases hst
    exact h
  | stop => exact absurd rfl hadm.1
  | timer =>
    obtain ⟨loop, -, rfl⟩ := Option.map_eq_some_iff.mp hst
    exact inv_newTick h loop
  | read k => exact inv_listedStep h hst fun l hl => by cases hl; exact h.todos
  | readFails k err => exact inv_listedStep h hst fun l hl => by cases hl
  | resume k =>
    rcases resumeStep_cases hst with ⟨loop, next, hl, rfl⟩ | ⟨loop, err, hk, rfl⟩
    · exact inv_taken h hl (once_taken h hl (hord k loop next rfl hl))
    · refine h.frame (fun l => ?_) rfl rfl h.running h.todos fun k' loop' l hl => ?_
      · have hset := mem_set_done (.done none) l hk (fun _ hp => by cases hp)
        exact hset.trans (or_iff_left fun hp => by cases hp)
      · rcases listed_set hl with hnew | hold
        · cases hnew
        · exact h.listed k' loop' l hold

theorem not_once_step {e : Event} (hst : step s e = some t) (h : Inv s) (hord : ¬ InOrder s e) :
    ¬ ∀ id, Once t id := by
  unfold InOrder at hord
  push Not at hord
  obtain ⟨k, loop, next, rfl, hl, u, hu, hseen, hbad⟩ := hord
  have ht : t = taken s k loop next := by
    rcases resumeStep_cases hst with ⟨loop', next', hl', rfl⟩ | ⟨loop', err, hk, -⟩
    · have hsame := hl.symm.trans hl'
      cases hsame
      rfl
    · rw [hl] at hk
      cases hk
  rw [ht]
  intro honce
  exact not_once_taken h hl hu hseen (fun b hb => by simpa using hbad b hb) (honce u.id)

theorem inv_started {todos : List ReminderTodo} (hids : DistinctIds todos) : Inv (started todos) := by
  have hnone : ∀ l, ¬ Consumed (started todos) l := fun l hl => by
    obtain ⟨tick, htick, hphase⟩ := hl
    rw [List.mem_singleton.mp htick] at hphase
    cases hphase
  have hseen : ∀ id, ¬ Seen (started todos) id := fun id hex => by
    obtain ⟨l, hl, -⟩ := hex
    exact hnone l hl
  have hopen : ∀ id, ¬ AnnouncedOpen (started todos) id := fun id hex => by
    obtain ⟨a, ha, -⟩ := hex
    cases ha
  refine ⟨rfl, hids, fun k loop l hl => ?_, fun u hu => (by cases hu), fun a ha => (by cases ha),
    fun id => ⟨fun hs => absurd hs (hseen id), fun _ => rfl, fun ho => absurd ho (hopen id),
      fun _ => rfl⟩⟩
  have hmem : _ ∈ [(⟨0, .waiting⟩ : Tick)] := List.mem_of_getElem? hl
  rw [List.mem_singleton] at hmem
  cases hmem

/-- In every state of a run each todo and each completion is announced once,
exactly when no listing is compared with a snapshot that missed something. -/
theorem announced_once_iff_in_order {todos : List ReminderTodo} (hids : DistinctIds todos)
    {es : List Event} {s : State} (h : exec step (started todos) es = some s)
    (hadm : Along step Admitted (started todos) es) :
    (∀ t, Visited step (started todos) es t → ∀ id, Once t id) ↔
      Along step InOrder (started todos) es :=
  visited_iff_along_of (inv_started hids) (fun _ _ _ hst ha hc hi => inv_step hst ha hc hi)
    (fun _ hi => hi.once) (fun _ _ _ hst _ hi hc => not_once_step hst hi hc) h hadm

/-! ## Two listings the other way round -/

/-- A tick reads the empty list, the next one reads a todo that was added. -/
def twoListings : List Event := [.read 0, .edit [shipIt false], .timer, .read 1]

/-- The listings are taken over in the order they were read. -/
def inTurn : List Event := twoListings ++ [.resume 0, .resume 1]

/-- The later listing comes first; a third tick lists the todo again. -/
def overtaken : List Event := twoListings ++ [.resume 1, .resume 0, .timer, .read 2, .resume 2]

theorem admitted_of {s : State} {e : Event} (hstop : e ≠ .stop) (hedit : ∀ todos, e ≠ .edit todos) :
    Admitted s e := ⟨hstop, fun todos he => absurd he (hedit todos)⟩

theorem admitted_twoListings : Along step Admitted (started []) twoListings := by
  refine ⟨admitted_of nofun nofun, fun _ hs => ?_⟩
  cases hs
  refine ⟨⟨nofun, fun todos he => ?_⟩, fun _ _ => ⟨admitted_of nofun nofun, fun _ _ =>
    ⟨admitted_of nofun nofun, fun _ _ => trivial⟩⟩⟩
  cases he
  exact ⟨List.nodup_singleton _, fun t ht => (by cases ht)⟩

theorem announced_once_in_turn :
    ∃ s, exec step (started []) inTurn = some s ∧
      ((∀ t, Visited step (started []) inTurn t → ∀ id, Once t id) ↔
        Along step InOrder (started []) inTurn) ∧
      announcedCount s (isAdded (js "a")) = 1 := by
  have hadm : Along step Admitted (started []) inTurn := by
    refine along_append.mpr ⟨admitted_twoListings, fun _ _ => ⟨admitted_of nofun nofun, fun _ _ =>
      ⟨admitted_of nofun nofun, fun _ _ => trivial⟩⟩⟩
  have hids : DistinctIds [] := List.nodup_nil
  exact ⟨_, rfl, announced_once_iff_in_order hids rfl hadm, by decide⟩

/-- The older listing, taken over last, makes the todo new again. -/
theorem overtaken_listing_announced_twice :
    ∃ s, exec step (started []) overtaken = some s ∧ Along step Admitted (started []) overtaken ∧
      announcedCount s (isAdded (js "a")) = 2 ∧ ¬ Once s (js "a") := by
  have hadm : Along step Admitted (started []) overtaken := by
    refine along_append.mpr ⟨admitted_twoListings, fun _ _ => ⟨admitted_of nofun nofun, fun _ _ =>
      ⟨admitted_of nofun nofun, fun _ _ => ⟨admitted_of nofun nofun, fun _ _ =>
        ⟨admitted_of nofun nofun, fun _ _ => ⟨admitted_of nofun nofun, fun _ _ => trivial⟩⟩⟩⟩⟩⟩
  refine ⟨_, rfl, hadm, by decide, fun h => ?_⟩
  have hone := h.added ⟨[shipIt false], ⟨_, .tail _ (.tail _ (.head _)), rfl⟩, shipIt false, .head _, rfl⟩
  revert hone
  decide

end Conductor.Reminders.Overlap
