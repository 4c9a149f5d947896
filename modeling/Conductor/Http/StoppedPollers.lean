import Conductor.Http.Ws

/-! # Stopping the pollers and starting them again

A tick that waits for its listing or its statuses when its poller is stopped
continues all the same: nothing but the head of a sessions tick asks whether the
poller was stopped. As long as no such tick has anything left to tell, what is
delivered is a running poller's, and every start begins from the empty list. -/
namespace Conductor.Http.StoppedPollers
open Conductor.Lib.Runs Conductor.Js.Text Conductor.Http.Ws
open Conductor.Sessions.Types (claudeSession)
open Conductor.Sessions.RefinedStatus (Disk)
open Conductor.Timeseries.Store (TimeseriesStore)
open Conductor.Reminders.Poll (ReminderTodo TodoEvent Tick Listed consume newTick diffTodos_nil
  listedStep_cases resumeStep_cases step_announced startReminderPolling stopReminderPolling)
open Conductor.Http.SessionsPoller (step_emitted)

/-! ## What a stop promises -/

/-- The poller was started and not stopped. -/
def Running (s : State) : Sender → Prop
  | .connection => True
  | .reminders loop => s.reminders.pollHandle = some loop
  | .sessions g => ∃ p, s.sessions.pollers[g]? = some p ∧ p.stopped = false

/-- No frame that the step writes comes from a stopped poller. -/
def OnlyRunning (s t : State) : Prop :=
  ∃ frames, t.frames = s.frames ++ frames ∧ ∀ f ∈ frames, Running s f.sender

/-- Between a stop and the next start the reminders state is the empty list. -/
def ClearedWhileStopped (s : State) : Prop :=
  s.reminders.pollHandle = none → s.reminders.prevState = []

/-- No tick of the loop has taken over a listing. -/
def NoneConsumed (s : Reminders.Poll.State) (loop : Nat) : Prop :=
  ∀ t ∈ s.ticks, t.loop = loop → ∀ l, t.phase ≠ .done (some l)

/-- The first successful tick of the running loop tells every open client that
each listed todo was added. -/
def FirstAnnounces (s : State) (e : Event) (t : State) : Prop :=
  ∀ k loop next, e = .reminders (.resume k) → Listed s.reminders k loop next →
    s.reminders.pollHandle = some loop → NoneConsumed s.reminders loop →
      t.frames = s.frames ++ next.flatMap fun todo =>
        (openClients s).map fun c => ⟨c, .reminders loop, .todo (.added todo)⟩

/-- A tick of a stopped poller takes over nothing but an empty listing, and
completes only while no client is open. -/
def NothingLate (s : State) : Event → Prop
  | .reminders (.resume k) => ∀ loop next, Listed s.reminders k loop next →
      s.reminders.pollHandle ≠ some loop → next = []
  | .sessions (.complete g _ _) =>
    (∃ p, s.sessions.pollers[g]? = some p ∧ p.stopped = true) → openClients s = []
  | _ => True

/-! ## The reminders state -/

/-- Until a loop has taken over a listing, the state it diffs against is empty. -/
structure Cleared (s : Reminders.Poll.State) : Prop where
  idle : s.pollHandle = none → s.prevState = []
  first : ∀ loop, s.pollHandle = some loop → NoneConsumed s loop → s.prevState = []

theorem Cleared.of_empty {s : Reminders.Poll.State} (h : s.prevState = []) : Cleared s :=
  ⟨fun _ => h, fun _ _ _ => h⟩

/-- Steps that take over nothing keep it. -/
theorem Cleared.kept {s t : Reminders.Poll.State} (h : Cleared s) (hhandle : t.pollHandle = s.pollHandle)
    (hprev : t.prevState = s.prevState)
    (hticks : ∀ u ∈ s.ticks, ∀ l, u.phase = .done (some l) → u ∈ t.ticks) : Cleared t := by
  refine ⟨fun hnone => ?_, fun loop hloop hcons => ?_⟩
  · rw [hprev]
    exact h.idle (hhandle ▸ hnone)
  · rw [hprev]
    exact h.first loop (hhandle ▸ hloop) fun u hu hul l hl => hcons u (hticks u hu l hl) hul l hl

/-- A tick that is not done is no tick that has taken over a listing. -/
theorem mem_set_of_done {ticks : List Tick} {k : Nat} {t t' u : Tick} (hk : ticks[k]? = some t)
    (ht : ∀ l, t.phase ≠ .done (some l)) (hu : u ∈ ticks) {l : List ReminderTodo}
    (hl : u.phase = .done (some l)) : u ∈ ticks.set k t' := by
  obtain ⟨j, hj⟩ := List.mem_iff_getElem?.mp hu
  have hne : k ≠ j := by
    intro heq
    subst heq
    rw [hk] at hj
    cases hj
    exact ht l hl
  refine List.mem_iff_getElem?.mpr ⟨j, ?_⟩
  rw [List.getElem?_set_ne hne, hj]

theorem Cleared.start {s : Reminders.Poll.State} (h : Cleared s) : Cleared (startReminderPolling s) := by
  unfold startReminderPolling
  cases hs : s.pollHandle with
  | some loop => exact h
  | none => exact .of_empty (h.idle hs)

theorem Cleared.step {s t : Reminders.Poll.State} {e : Reminders.Poll.Event}
    (h : Reminders.Poll.step s e = some t) (hi : Cleared s)
    (hlate : ∀ k, e = .resume k → ∀ loop next, Listed s k loop next →
      s.pollHandle ≠ some loop → next = []) : Cleared t := by
  cases e with
  | edit todos =>
    cases h
    exact hi.kept rfl rfl fun u hu _ _ => hu
  | start =>
    cases h
    exact hi.start
  | stop =>
    cases h
    exact .of_empty rfl
  | timer =>
    obtain ⟨loop, _, rfl⟩ := Option.map_eq_some_iff.mp h
    exact hi.kept rfl rfl fun u hu _ _ => List.mem_append_left _ hu
  | read k =>
    obtain ⟨loop, hk, rfl⟩ := listedStep_cases h
    exact hi.kept rfl rfl fun u hu l hl => mem_set_of_done hk (fun l hf => by cases hf) hu hl
  | readFails k err =>
    obtain ⟨loop, hk, rfl⟩ := listedStep_cases h
    exact hi.kept rfl rfl fun u hu l hl => mem_set_of_done hk (fun l hf => by cases hf) hu hl
  | resume k =>
    rcases resumeStep_cases h with ⟨loop, next, hk, rfl⟩ | ⟨loop, err, hk, rfl⟩
    · by_cases hrun : s.pollHandle = some loop
      · -- the running loop has now taken over a listing
        refine ⟨fun hnone => ?_, fun loop' hloop' hcons => ?_⟩
        · have hnone : s.pollHandle = none := hnone
          rw [hrun] at hnone
          cases hnone
        · have hloop' : s.pollHandle = some loop' := hloop'
          rw [hrun] at hloop'
          cases hloop'
          have hlt := (List.getElem?_eq_some_iff.mp hk).1
          exact absurd rfl (hcons _ (List.mem_set hlt _) rfl next)
      · exact .of_empty (hlate k rfl loop next hk hrun)
    · exact hi.kept rfl rfl fun u hu l hl => mem_set_of_done hk (fun l hf => by cases hf) hu hl

/-! ## The attachment -/

section Step

variable {s t : State} {e : Event}

theorem cleared_step (h : step s e = some t) (hc : NothingLate s e) (hi : Cleared s.reminders) :
    Cleared t.reminders := by
  rcases step_cases h with hh | ⟨e', reminders, rfl, hr, rfl⟩ | ⟨e', sessions, rfl, _, rfl⟩
  · rcases hh.reminders with hr | hr | hr
    · rwa [hr]
    · rw [hr]
      exact hi.start
    · rw [hr]
      exact .of_empty rfl
  · refine Cleared.step hr hi fun k hk => ?_
    subst hk
    exact hc
  · exact hi

/-- What a running poller announces. -/
theorem onlyRunning_emit {announced : List (Sender × WsEvent)}
    (hframes : t.frames = s.frames ++ announced.flatMap fun a =>
      (openClients s).map fun c => ⟨c, a.1, a.2⟩)
    (hrun : ∀ a ∈ announced, openClients s ≠ [] → Running s a.1) : OnlyRunning s t := by
  refine ⟨_, hframes, fun f hf => ?_⟩
  obtain ⟨a, ha, hf⟩ := List.mem_flatMap.mp hf
  obtain ⟨c, hc, rfl⟩ := List.mem_map.mp hf
  exact hrun a ha (List.ne_nil_of_mem hc)

theorem onlyRunning_step (h : step s e = some t) (hc : NothingLate s e) : OnlyRunning s t := by
  rcases step_cases h with hh | ⟨e', reminders, rfl, hr, rfl⟩ | ⟨e', sessions, rfl, hs, rfl⟩
  · obtain ⟨frames, hframes, hconn⟩ := hh.frames
    refine ⟨frames, hframes, fun f hf => ?_⟩
    rw [hconn f hf]
    trivial
  · refine onlyRunning_emit rfl fun a ha _ => ?_
    rcases step_announced hr with ⟨k, loop, next, rfl, hk, rfl⟩ | hsame
    · by_cases hrun : s.reminders.pollHandle = some loop
      · simp only [consume, List.drop_left, List.map_map, List.mem_map] at ha
        obtain ⟨todo, _, rfl⟩ := ha
        exact hrun
      · rw [hc loop next hk hrun] at ha
        simp [consume, Reminders.Poll.diffTodos] at ha
    · rw [hsame, List.drop_length] at ha
      cases ha
  · refine onlyRunning_emit rfl fun a ha hopen => ?_
    rcases step_emitted hs with ⟨g, k, outcome, p, changed, rfl, hp, hemitted⟩ | hsame
    · rw [hemitted, List.drop_left, List.map_map, List.mem_map] at ha
      obtain ⟨u, _, rfl⟩ := ha
      refine ⟨p, hp, ?_⟩
      cases hstopped : p.stopped with
      | false => rfl
      | true => exact absurd (hc ⟨p, hp, hstopped⟩) hopen
    · rw [hsame, List.drop_length] at ha
      cases ha

theorem firstAnnounces_step (h : step s e = some t) (hi : Cleared s.reminders) :
    FirstAnnounces s e t := by
  rintro k loop next rfl hk hrun hnone
  obtain ⟨reminders, hr, h⟩ := Option.bind_eq_some_iff.mp (show remindersStep s (.resume k) = some t from h)
  cases h
  rcases resumeStep_cases hr with ⟨loop', next', hk', rfl⟩ | ⟨loop', err, hk', _⟩
  · have hsame := Option.some.inj (hk.symm.trans hk')
    cases hsame
    simp only [emit, consume, hi.first loop hrun hnone, diffTodos_nil, List.drop_left, List.map_map,
      List.flatMap_map]
    rfl
  · have hsame := Option.some.inj (hk.symm.trans hk')
    cases hsame

end Step

/-- In every run in which no tick of a stopped poller has anything to tell. -/
theorem nothing_late_suffices {version : JsString} {todos : List ReminderTodo} {now : Int}
    {disk : Disk} {store : Option TimeseriesStore} {es : List Event} {s : State}
    (h : exec step (init version todos now disk store) es = some s)
    (hc : Along step NothingLate (init version todos now disk store) es) :
    (∀ t, Visited step (init version todos now disk store) es t → ClearedWhileStopped t) ∧
      ∀ past e u t, past ++ [e] <+: es → exec step (init version todos now disk store) past = some u →
        step u e = some t → OnlyRunning u t ∧ FirstAnnounces u e t := by
  have hinv : ∀ {past u}, past <+: es → exec step (init version todos now disk store) past = some u →
      Cleared u.reminders := by
    rintro past u ⟨rest, rfl⟩ hu
    exact exec_invariant_along (I := fun s => Cleared s.reminders) hu (along_append.mp hc).1
      (.of_empty rfl)
      fun _ _ _ hst hlate hi => cleared_step hst hlate hi
  refine ⟨fun t ht => ?_, fun past e u t hpre hu hst => ?_⟩
  · obtain ⟨past, hpre, hpast⟩ := ht
    exact (hinv hpre hpast).idle
  · have hbefore := hinv ((List.prefix_append past [e]).trans hpre) hu
    obtain ⟨rest, rfl⟩ := hpre
    obtain ⟨-, hlate⟩ := along_snoc (along_append.mp hc).1 hu
    exact ⟨onlyRunning_step hst hlate, firstAnnounces_step hst hbefore⟩

/-! ## A client that comes back -/

def todo (id : String) : ReminderTodo :=
  ⟨js id, js "Ship it", js "AgentTasks", none, none, .finite 0, false, ⟨none, none, none⟩⟩

def start : State := init (js "dev") [todo "a"] 0 (fun _ => none) none

def join : Event := .upgrade ⟨js "GET", some (js "localhost"), some (js "/events")⟩ true

/-- The list is read, told to the client that asked for it, and read again for the next one. -/
def twoClients : List Event :=
  [join, .reminders (.read 0), .reminders (.resume 0), .disconnect 0, join, .reminders (.read 1)]

theorem every_client_told :
    ∃ u t, exec step start twoClients = some u ∧ step u (.reminders (.resume 1)) = some t ∧
      OnlyRunning u t ∧ FirstAnnounces u (.reminders (.resume 1)) t := by
  have hlate : Along step NothingLate start (twoClients ++ [.reminders (.resume 1)]) := by
    refine ⟨trivial, fun _ h₁ => ⟨trivial, fun _ h₂ => ⟨fun loop next hk hrun => ?_, fun _ h₃ =>
      ⟨trivial, fun _ h₄ => ⟨trivial, fun _ h₅ => ⟨trivial, fun _ h₆ =>
        ⟨fun loop next hk hrun => ?_, fun _ _ => trivial⟩⟩⟩⟩⟩⟩⟩
    · cases h₁
      cases h₂
      cases hk
      exact absurd rfl hrun
    · cases h₁
      cases h₂
      cases h₃
      cases h₄
      cases h₅
      cases h₆
      cases hk
      exact absurd rfl hrun
  have hall := (nothing_late_suffices rfl hlate).2 twoClients _ _ _ (List.prefix_refl _) rfl rfl
  exact ⟨_, _, rfl, rfl, hall⟩

/-- The client leaves while two listings and a call for the statuses are on their
way; the older listing arrives before the next client. -/
def left : List Event :=
  [join, .reminders (.read 0), .reminders .timer, .reminders (.edit [todo "a", todo "b"]),
   .reminders (.read 1), .sessions (.ask 0 0 [(js "claude-code", [claudeSession])]), .disconnect 0,
   .reminders (.resume 0)]

/-- The next client comes, and its own first listing is read. -/
def rejoined : List Event :=
  left ++ [join, .sessions (.sched (.read 0 0)), .sessions (.sched (.settle 0)), .reminders (.read 2)]

theorem OnlyRunning.drop {s t : State} (h : OnlyRunning s t) :
    ∀ f ∈ t.frames.drop s.frames.length, Running s f.sender := by
  obtain ⟨frames, hframes, hrun⟩ := h
  rw [hframes, List.drop_left]
  exact hrun

/-- The stopped loop fills the reminders state, both stopped pollers write to the
new client, and the first tick of the new loop keeps a listed todo back. -/
theorem stopped_pollers_tell :
    (∃ t, exec step start left = some t ∧ ¬ ClearedWhileStopped t) ∧
      ∃ u, exec step start rejoined = some u ∧
        (∃ t, step u (.reminders (.resume 1)) = some t ∧ ¬ OnlyRunning u t) ∧
        (∃ t, step u (.sessions (.complete 0 0 .works)) = some t ∧ ¬ OnlyRunning u t) ∧
        ∃ t, step u (.reminders (.resume 2)) = some t ∧
          ¬ FirstAnnounces u (.reminders (.resume 2)) t := by
  refine ⟨⟨_, rfl, fun h => ?_⟩, _, rfl, ⟨_, rfl, fun h => ?_⟩, ⟨_, rfl, fun h => ?_⟩,
    _, rfl, fun h => ?_⟩
  · cases h rfl
  · have hrun := h.drop ⟨1, .reminders 0, .todo (.added (todo "b"))⟩ (by decide)
    cases hrun
  · obtain ⟨p, hp, hstopped⟩ :=
      h.drop ⟨1, .sessions 0, .sessionsUpdate ⟨100, .idle, none⟩⟩ (by decide)
    cases hp
    cases hstopped
  · have hnone : ∀ t ∈ ([⟨0, .done (some [todo "a"])⟩, ⟨0, .listed (.ok [todo "a", todo "b"])⟩,
        ⟨1, .listed (.ok [todo "a", todo "b"])⟩] : List Tick),
        t.loop = 1 → ∀ l, t.phase ≠ .done (some l) := by
      simp only [List.forall_mem_cons, List.not_mem_nil, false_implies, implies_true, and_true]
      exact ⟨nofun, nofun, fun _ l => nofun⟩
    have hframes := h 2 1 _ rfl rfl rfl hnone
    revert hframes
    decide

end Conductor.Http.StoppedPollers
