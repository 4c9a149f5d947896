import Conductor.Http.ActivePollers

/-! # Several owners of one polling loop

The reminders loop belongs to the module, not to who started it. Here attachments
and callers of the library share it: a start finds the loop of another one running,
and each tick calls the `onEvent` of the start that made its loop. The sessions
pollers of the attachments do not touch it, and are each one's own. -/
namespace Conductor.Http.PollingOwners
open Conductor.Lib.Runs Conductor.Js.Text Conductor.Http.Server
open Conductor.Http.Ws (WsEvent emit subscribers mem_subscribers ensurePollersRunning stopPollers
  maybeStopPollers connect onUpgrade)
open Conductor.Http.ActivePollers (poll_step_handle subscribers_closing subscribers_congr)
open Conductor.Sessions.RefinedStatus (Disk)
open Conductor.Timeseries.Store (TimeseriesStore)
open Conductor.Reminders.Poll (ReminderTodo TodoEvent Announcement startReminderPolling
  stopReminderPolling step_announced listedStep_cases resumeStep_cases)

/-! ## The system -/

inductive Use
  /-- A caller of `startReminderPolling` and `stopReminderPolling`. -/
  | caller
  | attachment (ws : Ws.State)

structure Owner where
  use : Use
  /-- What its `onEvent` was called with. -/
  received : List TodoEvent

structure State where
  polling : Reminders.Poll.State
  owners : List Owner
  /-- Whose `onEvent` the ticks of a loop call. -/
  loops : List Nat

inductive Event
  | start (o : Nat)
  | stop (o : Nat)
  | attachment (o : Nat) (e : Ws.Event)
  | polling (e : Reminders.Poll.Event)

/-- A call by `o` left the loop in state `p`. A loop that it made calls `o`. -/
def called (s : State) (o : Nat) (p : Reminders.Poll.State) : State :=
  { s with
    polling := p
    loops := s.loops ++ List.replicate (p.starts - s.polling.starts) o }

/-- Owner `o` is called for the announcements of its loops; a broadcaster passes them on. -/
def hand (loops : List Nat) (announced : List Announcement) (o : Nat) (owner : Owner) : Owner :=
  let own := announced.filter fun a => loops[a.loop]? = some o
  { use := match owner.use with
      | .caller => .caller
      | .attachment ws => .attachment (emit ws (own.map fun a => (.reminders a.loop, .todo a.event)))
    received := owner.received ++ own.map (·.event) }

def callerStep (s : State) (o : Nat) (p : Reminders.Poll.State) : Option State := do
  let owner ← s.owners[o]?
  match owner.use with
  | .caller => some (called s o p)
  | .attachment _ => none

/-- A step of an attachment, on the loop of the process. -/
def attachmentStep (s : State) (o : Nat) (e : Ws.Event) : Option State := do
  let owner ← s.owners[o]?
  match owner.use with
  | .caller => none
  | .attachment ws =>
    let t ← Ws.step { ws with reminders := s.polling } e
    some (called { s with owners := s.owners.set o { owner with use := .attachment t } } o t.reminders)

def pollingStep (s : State) (e : Reminders.Poll.Event) : Option State := do
  let p ← Reminders.Poll.step s.polling e
  let announced := p.announced.drop s.polling.announced.length
  some { s with polling := p, owners := s.owners.mapIdx (hand s.loops announced) }

def step (s : State) : Event → Option State
  | .start o => callerStep s o (startReminderPolling s.polling)
  | .stop o => callerStep s o (stopReminderPolling s.polling)
  | .attachment _ (.reminders _) | .polling .start | .polling .stop => none
  | .attachment o e => attachmentStep s o e
  | .polling e => pollingStep s e

inductive Fresh : Owner → Prop
  | caller : Fresh ⟨.caller, []⟩
  | attachment (version : JsString) (todos : List ReminderTodo) (now : Int) (disk : Disk)
      (store : Option TimeseriesStore) : Fresh ⟨.attachment (Ws.init version todos now disk store), []⟩

structure Initial (s : State) : Prop where
  polling : ∃ todos, s.polling = Reminders.Poll.init todos
  owners : ∀ owner ∈ s.owners, Fresh owner
  loops : s.loops = []

/-! ## Starts and stops -/

/-- `o` calls `startReminderPolling`, or its first client connects. -/
def Starts (s : State) (o : Nat) : Event → Prop
  | .start o' => o' = o
  | .attachment o' (.upgrade req handshake) =>
    o' = o ∧ handshake = true ∧ onUpgrade req = .handleUpgrade ∧
      ∃ ws received, s.owners[o]? = some ⟨.attachment ws, received⟩ ∧ ws.upgrading = true ∧
        subscribers ws = []
  | _ => False

/-- Somebody calls `stopReminderPolling`, or an attachment with clients is closed or
loses the last one. -/
def Stops (s : State) : Event → Prop
  | .stop _ => True
  | .attachment o e =>
    ∃ ws received, s.owners[o]? = some ⟨.attachment ws, received⟩ ∧ ws.upgrading = true ∧
      subscribers ws ≠ [] ∧ (e = .close ∨ ∃ c, e = .disconnect c ∧ ∀ d ∈ subscribers ws, d = c)
  | _ => False

/-- Every event was handed to the owner whose start made the loop, in order, and to
nobody else. -/
structure HandedOver (s : State) : Prop where
  received : ∀ o owner, s.owners[o]? = some owner →
    owner.received = (s.polling.announced.filter fun a => s.loops[a.loop]? = some o).map (·.event)
  owned : ∀ a ∈ s.polling.announced, ∃ o owner, s.loops[a.loop]? = some o ∧ s.owners[o]? = some owner

/-! ## The steps of an attachment -/

/-- An attachment holds its stop thunk while it has clients and is not closed. -/
def Holding (ws : Ws.State) : Prop :=
  ws.stopReminders = true ↔ ws.upgrading = true ∧ subscribers ws ≠ []

theorem stopPollers_holds (ws : Ws.State) : (stopPollers ws).stopReminders = false := by
  unfold stopPollers
  cases hr : ws.stopReminders <;> cases h : ws.stopSessions <;> simp [h, hr]

theorem ensurePollersRunning_holds {ws : Ws.State} (hsub : subscribers ws ≠ []) :
    (ensurePollersRunning ws).stopReminders = true := by
  unfold ensurePollersRunning
  rw [if_neg hsub]
  cases hr : ws.stopReminders <;> cases h : ws.stopSessions <;> simp [h, hr]

theorem subscribers_open (ws : Ws.State) :
    subscribers { ws with clients := ws.clients ++ [.open] } ≠ [] := by
  intro hnil
  have hmem : ws.clients.length ∈ subscribers { ws with clients := ws.clients ++ [.open] } := by
    rw [mem_subscribers]
    simp
  rw [hnil] at hmem
  cases hmem

/-- The client that connects to an attachment without a stop thunk starts the loop. -/
theorem connect_starts {ws : Ws.State} (hstop : ws.stopReminders = false) :
    (connect ws).reminders = startReminderPolling ws.reminders :=
  Ws.ensurePollersRunning_startsReminders (subscribers_open ws) hstop

theorem holding_connect {ws : Ws.State} (hup : ws.upgrading = true) : Holding (connect ws) := by
  have hsub : subscribers (connect ws) ≠ [] := by
    unfold connect
    rw [subscribers_congr (Ws.ensurePollersRunning_clients _)]
    exact subscribers_open ws
  refine ⟨fun _ => ⟨?_, hsub⟩, fun _ => ensurePollersRunning_holds (subscribers_open ws)⟩
  exact (Ws.ensurePollersRunning_upgrading _).trans hup

theorem Holding.congr {s t : Ws.State} (h : Holding s) (hstop : t.stopReminders = s.stopReminders)
    (hup : t.upgrading = s.upgrading) (hsub : subscribers t = subscribers s) : Holding t := by
  unfold Holding
  rw [hstop, hup, hsub]
  exact h

theorem holding_step {s t : Ws.State} {e : Ws.Event} (h : Ws.step s e = some t) (hs : Holding s) :
    Holding t := by
  cases e with
  | upgrade req handshake =>
    cases h
    split
    · rename_i hcond
      simp only [Bool.and_eq_true] at hcond
      exact holding_connect hcond.1.1
    · exact hs
  | closing c =>
    obtain ⟨hc, h⟩ := Ws.socket_cases h
    cases h
    exact hs.congr rfl rfl (subscribers_closing hc)
  | error c =>
    obtain ⟨-, h⟩ := Ws.socket_cases h
    cases h
    exact hs
  | disconnect c =>
    obtain ⟨hc, h⟩ := Ws.socket_cases h
    cases h
    unfold maybeStopPollers
    split
    · rename_i hnone
      refine ⟨fun hstop => ?_, fun hboth => absurd ?_ hboth.2⟩
      · rw [stopPollers_holds] at hstop
        cases hstop
      · rw [subscribers_congr (Ws.stopPollers_clients _)]
        exact hnone
    · rename_i hsome
      refine ⟨fun hstop => ⟨(hs.mp hstop).1, hsome⟩, fun hboth => hs.mpr ⟨hboth.1, ?_⟩⟩
      exact List.ne_nil_of_mem hc
  | close =>
    cases h
    refine ⟨fun hstop => ?_, fun hboth => ?_⟩
    · have hfalse := stopPollers_holds { s with upgrading := false }
      rw [show (stopPollers { s with upgrading := false }).stopReminders = true from hstop] at hfalse
      cases hfalse
    · have hfalse := Ws.stopPollers_upgrading { s with upgrading := false }
      rw [show (stopPollers { s with upgrading := false }).upgrading = true from hboth.1] at hfalse
      cases hfalse
  | reminders e =>
    obtain ⟨reminders, -, rfl⟩ := Ws.step_reminders h
    exact hs.congr rfl rfl rfl
  | sessions e =>
    obtain ⟨sessions, -, rfl⟩ := Ws.step_sessions h
    exact hs.congr rfl rfl rfl

/-- An attachment leaves the loop alone, starts it, or stops it; the last only when its
clients are gone or it is closed. -/
theorem own_step {ws t : Ws.State} {e : Ws.Event} (h : Ws.step ws e = some t) (hs : Holding ws)
    (he : ∀ e', e ≠ .reminders e') :
    t.reminders = ws.reminders ∨ t.reminders = startReminderPolling ws.reminders ∨
      t.reminders = stopReminderPolling ws.reminders ∧ ws.upgrading = true ∧ subscribers ws ≠ [] ∧
        (e = .close ∨ ∃ c, e = .disconnect c ∧ ∀ d ∈ subscribers ws, d = c) := by
  have hstops : ∀ u : Ws.State, u.reminders = ws.reminders → u.stopReminders = ws.stopReminders →
      (stopPollers u).reminders = ws.reminders ∨
        (stopPollers u).reminders = stopReminderPolling ws.reminders ∧ ws.upgrading = true ∧
          subscribers ws ≠ [] := by
    intro u hrem hstop
    cases hr : ws.stopReminders with
    | false =>
      left
      rw [hr] at hstop
      rw [← hrem]
      unfold stopPollers
      cases hsess : u.stopSessions <;> simp [hstop, hsess]
    | true =>
      rcases Ws.stopPollers_reminders u with hsame | hstopped
      · exact .inl (hsame.trans hrem)
      · exact .inr ⟨by rw [hstopped, hrem], hs.mp hr⟩
  cases e with
  | upgrade req handshake =>
    cases h
    split
    · exact (Ws.ensurePollersRunning_reminders _).imp id .inl
    · exact .inl rfl
  | closing c =>
    obtain ⟨-, h⟩ := Ws.socket_cases h
    cases h
    exact .inl rfl
  | error c =>
    obtain ⟨-, h⟩ := Ws.socket_cases h
    cases h
    exact .inl rfl
  | disconnect c =>
    obtain ⟨hc, h⟩ := Ws.socket_cases h
    cases h
    unfold maybeStopPollers
    split
    · rename_i hnone
      rcases hstops { ws with clients := ws.clients.set c .closed } rfl rfl with hsame | hstopped
      · exact .inl hsame
      · refine .inr (.inr ⟨hstopped.1, hstopped.2.1, hstopped.2.2, .inr ⟨c, rfl, fun d hd => ?_⟩⟩)
        by_contra hne
        have hmem : d ∈ subscribers { ws with clients := ws.clients.set c .closed } := by
          rw [mem_subscribers] at hd ⊢
          rw [List.length_set, List.getElem?_set_ne (Ne.symm hne)]
          exact hd
        rw [hnone] at hmem
        cases hmem
    · exact .inl rfl
  | close =>
    cases h
    rcases hstops { ws with upgrading := false } rfl rfl with hsame | hstopped
    · exact .inl hsame
    · exact .inr (.inr ⟨hstopped.1, hstopped.2.1, hstopped.2.2, .inl rfl⟩)
  | reminders e => exact absurd rfl (he e)
  | sessions e =>
    obtain ⟨sessions, -, rfl⟩ := Ws.step_sessions h
    exact .inl rfl

/-! ## The steps of the system -/

section Steps

variable {s t : State} {e : Event} {o : Nat}

theorem attachmentStep_cases {e : Ws.Event} (h : attachmentStep s o e = some t) :
    ∃ ws received u, s.owners[o]? = some ⟨.attachment ws, received⟩ ∧
      Ws.step { ws with reminders := s.polling } e = some u ∧
      t = called { s with owners := s.owners.set o ⟨.attachment u, received⟩ } o u.reminders := by
  obtain ⟨⟨use, received⟩, ho, h⟩ := Option.bind_eq_some_iff.mp h
  cases use with
  | caller => cases h
  | attachment ws =>
    obtain ⟨u, hu, h⟩ := Option.bind_eq_some_iff.mp h
    cases h
    exact ⟨ws, received, u, ho, hu, rfl⟩

theorem callerStep_cases {p : Reminders.Poll.State} (h : callerStep s o p = some t) :
    ∃ received, s.owners[o]? = some ⟨.caller, received⟩ ∧ t = called s o p := by
  obtain ⟨⟨use, received⟩, ho, h⟩ := Option.bind_eq_some_iff.mp h
  cases use with
  | caller => exact ⟨received, ho, (Option.some.inj h).symm⟩
  | attachment ws => cases h

theorem pollingStep_cases {e : Reminders.Poll.Event} (h : pollingStep s e = some t) :
    ∃ p, Reminders.Poll.step s.polling e = some p ∧
      t = { s with
        polling := p
        owners := s.owners.mapIdx (hand s.loops (p.announced.drop s.polling.announced.length)) } := by
  obtain ⟨p, hp, h⟩ := Option.bind_eq_some_iff.mp h
  exact ⟨p, hp, (Option.some.inj h).symm⟩

/-- What a call can make of the loop; only a stop ends it. -/
def Calls (s : State) (e : Event) (p : Reminders.Poll.State) : Prop :=
  p = s.polling ∨ p = startReminderPolling s.polling ∨ p = stopReminderPolling s.polling ∧ Stops s e

def AllHolding (s : State) : Prop :=
  ∀ (o : Nat) ws received, s.owners[o]? = some ⟨.attachment ws, received⟩ → Holding ws

/-- A step is a call of an owner, which is handed nothing by it, or one of the loop's own. -/
theorem step_cases (hs : AllHolding s) (h : step s e = some t) :
    (∃ o owner owner' p, s.owners[o]? = some owner ∧ owner'.received = owner.received ∧
      (∀ ws, owner'.use = .attachment ws → Holding ws) ∧ Calls s e p ∧
      t = called { s with owners := s.owners.set o owner' } o p) ∨
    ∃ e' p, Reminders.Poll.step s.polling e' = some p ∧ e' ≠ .start ∧ e' ≠ .stop ∧
      t = { s with
        polling := p
        owners := s.owners.mapIdx (hand s.loops (p.announced.drop s.polling.announced.length)) } := by
  have hcaller : ∀ {o p}, callerStep s o p = some t → Calls s e p →
      ∃ o owner owner' p, s.owners[o]? = some owner ∧ owner'.received = owner.received ∧
        (∀ ws, owner'.use = .attachment ws → Holding ws) ∧ Calls s e p ∧
        t = called { s with owners := s.owners.set o owner' } o p := by
    intro o p h hp
    obtain ⟨received, ho, rfl⟩ := callerStep_cases h
    refine ⟨o, _, ⟨.caller, received⟩, p, ho, rfl, fun ws hws => ?_, hp, ?_⟩
    · cases hws
    · obtain ⟨hlt, hget⟩ := List.getElem?_eq_some_iff.mp ho
      rw [← hget, List.set_getElem_self]
  have hpolling : ∀ {e'}, pollingStep s e' = some t → e' ≠ .start → e' ≠ .stop →
      ∃ e' p, Reminders.Poll.step s.polling e' = some p ∧ e' ≠ .start ∧ e' ≠ .stop ∧
        t = { s with
          polling := p
          owners := s.owners.mapIdx (hand s.loops (p.announced.drop s.polling.announced.length)) } := by
    intro e' h hstart hstop
    obtain ⟨p, hp, ht⟩ := pollingStep_cases h
    exact ⟨e', p, hp, hstart, hstop, ht⟩
  have hattachment : ∀ {o} {e' : Ws.Event}, attachmentStep s o e' = some t → e = .attachment o e' →
      (∀ e'', e' ≠ .reminders e'') →
      ∃ o owner owner' p, s.owners[o]? = some owner ∧ owner'.received = owner.received ∧
        (∀ ws, owner'.use = .attachment ws → Holding ws) ∧ Calls s e p ∧
        t = called { s with owners := s.owners.set o owner' } o p := by
    intro o e' h he hown
    obtain ⟨ws, received, u, ho, hu, rfl⟩ := attachmentStep_cases h
    have hws : Holding { ws with reminders := s.polling } := hs o ws received ho
    refine ⟨o, _, ⟨.attachment u, received⟩, u.reminders, ho, rfl, fun ws' hws' => ?_, ?_, rfl⟩
    · cases hws'
      exact holding_step hu hws
    · rcases own_step hu hws hown with hsame | hstart | ⟨hstop, hup, hsub, hwhy⟩
      · exact .inl hsame
      · exact .inr (.inl hstart)
      · rw [he]
        exact .inr (.inr ⟨hstop, ws, received, ho, hup, hsub, hwhy⟩)
  cases e with
  | start o => exact .inl (hcaller h (.inr (.inl rfl)))
  | stop o => exact .inl (hcaller h (.inr (.inr ⟨rfl, trivial⟩)))
  | attachment o e =>
    cases e with
    | reminders e => cases h
    | upgrade req handshake => exact .inl (hattachment h rfl fun _ => by simp)
    | closing c => exact .inl (hattachment h rfl fun _ => by simp)
    | error c => exact .inl (hattachment h rfl fun _ => by simp)
    | disconnect c => exact .inl (hattachment h rfl fun _ => by simp)
    | close => exact .inl (hattachment h rfl fun _ => by simp)
    | sessions e => exact .inl (hattachment h rfl fun _ => by simp)
  | polling e =>
    cases e with
    | start => cases h
    | stop => cases h
    | edit todos => exact .inr (hpolling h (by simp) (by simp))
    | timer => exact .inr (hpolling h (by simp) (by simp))
    | read k => exact .inr (hpolling h (by simp) (by simp))
    | readFails k err => exact .inr (hpolling h (by simp) (by simp))
    | resume k => exact .inr (hpolling h (by simp) (by simp))

end Steps

/-! ## The loops and their owners -/

/-- Only loops that were started have the handle, tick or announce. -/
structure Started (p : Reminders.Poll.State) : Prop where
  handle : ∀ loop, p.pollHandle = some loop → loop < p.starts
  ticks : ∀ t ∈ p.ticks, t.loop < p.starts
  announced : ∀ a ∈ p.announced, a.loop < p.starts

theorem started_init (todos : List ReminderTodo) : Started (Reminders.Poll.init todos) :=
  ⟨fun _ h => (by cases h), fun _ h => (by cases h), fun _ h => (by cases h)⟩

theorem Started.start {p : Reminders.Poll.State} (h : Started p) : Started (startReminderPolling p) := by
  unfold startReminderPolling
  cases hp : p.pollHandle with
  | some loop => exact h
  | none =>
    refine ⟨fun loop hl => ?_, fun t ht => ?_, fun a ha => Nat.lt_succ_of_lt (h.announced a ha)⟩
    · cases hl
      exact Nat.lt_succ_self _
    · rcases List.mem_append.mp ht with ht | ht
      · exact Nat.lt_succ_of_lt (h.ticks t ht)
      · rw [List.mem_singleton.mp ht]
        exact Nat.lt_succ_self _

theorem Started.stop {p : Reminders.Poll.State} (h : Started p) : Started (stopReminderPolling p) :=
  ⟨fun _ hl => (by cases hl), h.ticks, h.announced⟩

theorem Started.set {p : Reminders.Poll.State} (h : Started p) {k loop : Nat}
    {phase phase' : Reminders.Poll.TickPhase} (hk : p.ticks[k]? = some ⟨loop, phase⟩) :
    ∀ t ∈ p.ticks.set k ⟨loop, phase'⟩, t.loop < p.starts := by
  intro t ht
  rcases List.mem_or_eq_of_mem_set ht with ht | rfl
  · exact h.ticks t ht
  · exact h.ticks ⟨loop, phase⟩ (List.mem_of_getElem? hk)

theorem Started.step {p q : Reminders.Poll.State} {e : Reminders.Poll.Event} (h : Started p)
    (hstep : Reminders.Poll.step p e = some q) : Started q := by
  cases e with
  | edit todos => cases hstep; exact ⟨h.handle, h.ticks, h.announced⟩
  | start => cases hstep; exact h.start
  | stop => cases hstep; exact h.stop
  | timer =>
    obtain ⟨loop, hloop, rfl⟩ := Option.map_eq_some_iff.mp hstep
    refine ⟨h.handle, fun t ht => ?_, h.announced⟩
    rcases List.mem_append.mp ht with ht | ht
    · exact h.ticks t ht
    · rw [List.mem_singleton.mp ht]
      exact h.handle loop hloop
  | read k =>
    obtain ⟨loop, hk, rfl⟩ := listedStep_cases hstep
    exact ⟨h.handle, h.set hk, h.announced⟩
  | readFails k err =>
    obtain ⟨loop, hk, rfl⟩ := listedStep_cases hstep
    exact ⟨h.handle, h.set hk, h.announced⟩
  | resume k =>
    rcases resumeStep_cases hstep with ⟨loop, next, hk, rfl⟩ | ⟨loop, err, hk, rfl⟩
    · refine ⟨h.handle, h.set hk, fun a ha => ?_⟩
      rcases List.mem_append.mp ha with ha | ha
      · exact h.announced a ha
      · obtain ⟨ev, -, rfl⟩ := List.mem_map.mp ha
        exact h.ticks ⟨loop, _⟩ (List.mem_of_getElem? hk)
    · exact ⟨h.handle, h.set hk, h.announced⟩

/-- What a step of the loop announces comes after what was announced before. -/
theorem announced_prefix {p q : Reminders.Poll.State} {e : Reminders.Poll.Event}
    (hstep : Reminders.Poll.step p e = some q) :
    q.announced = p.announced ++ q.announced.drop p.announced.length := by
  rcases step_announced hstep with ⟨k, loop, next, -, -, rfl⟩ | hsame
  · simp [Reminders.Poll.consume]
  · rw [hsame, List.drop_length, List.append_nil]

structure Inv (s : State) : Prop where
  holding : AllHolding s
  started : Started s.polling
  loops : s.loops.length = s.polling.starts
  owned : ∀ o ∈ s.loops, o < s.owners.length
  received : ∀ o owner, s.owners[o]? = some owner →
    owner.received = (s.polling.announced.filter fun a => s.loops[a.loop]? = some o).map (·.event)

theorem inv_init {s : State} (h : Initial s) : Inv s := by
  obtain ⟨todos, hpolling⟩ := h.polling
  refine ⟨fun o ws received ho => ?_, ?_, ?_, ?_, fun o owner ho => ?_⟩
  · cases h.owners _ (List.mem_of_getElem? ho) with
    | attachment version todos now disk store =>
      refine ⟨fun hstop => ?_, fun hboth => absurd rfl hboth.2⟩
      cases hstop
  · rw [hpolling]
    exact started_init todos
  · rw [h.loops, hpolling]
    rfl
  · rw [h.loops]
    intro o ho
    cases ho
  · rw [hpolling]
    cases h.owners _ (List.mem_of_getElem? ho) with
    | caller => rfl
    | attachment version todos now disk store => rfl

theorem startReminderPolling_spec (p : Reminders.Poll.State) :
    (startReminderPolling p).announced = p.announced ∧ p.starts ≤ (startReminderPolling p).starts := by
  unfold startReminderPolling
  cases p.pollHandle with
  | some loop => exact ⟨rfl, le_refl _⟩
  | none => exact ⟨rfl, Nat.le_succ _⟩

theorem Calls.spec {s : State} {e : Event} {p : Reminders.Poll.State} (h : Calls s e p)
    (hs : Started s.polling) :
    Started p ∧ p.announced = s.polling.announced ∧ s.polling.starts ≤ p.starts := by
  rcases h with rfl | rfl | ⟨rfl, -⟩
  · exact ⟨hs, rfl, le_refl _⟩
  · exact ⟨hs.start, startReminderPolling_spec s.polling⟩
  · exact ⟨hs.stop, rfl, le_refl _⟩

/-- New loops do not change whose the announcements so far are. -/
theorem Inv.loop_of {s : State} (h : Inv s) {a : Announcement} (ha : a ∈ s.polling.announced)
    (more : List Nat) : (s.loops ++ more)[a.loop]? = s.loops[a.loop]? := by
  refine List.getElem?_append_left ?_
  rw [h.loops]
  exact h.started.announced a ha

theorem Inv.called {s : State} (h : Inv s) {e : Event} {o : Nat} {owner owner' : Owner}
    {p : Reminders.Poll.State} (ho : s.owners[o]? = some owner) (hsame : owner'.received = owner.received)
    (hhold : ∀ ws, owner'.use = .attachment ws → Holding ws) (hp : Calls s e p) :
    Inv (called { s with owners := s.owners.set o owner' } o p) := by
  obtain ⟨hstarted, hannounced, hstarts⟩ := hp.spec h.started
  have hlt : o < s.owners.length := (List.getElem?_eq_some_iff.mp ho).1
  have hset : ∀ i v, (s.owners.set o owner')[i]? = some v →
      (i = o ∧ v = owner') ∨ s.owners[i]? = some v := by
    intro i v hi
    by_cases hio : o = i
    · subst hio
      rw [List.getElem?_set_self hlt] at hi
      exact .inl ⟨rfl, (Option.some.inj hi).symm⟩
    · rw [List.getElem?_set_ne hio] at hi
      exact .inr hi
  refine ⟨fun i ws received hi => ?_, hstarted, ?_, fun i hi => ?_, fun i v hi => ?_⟩
  · rcases hset i _ hi with ⟨-, hv⟩ | hi
    · exact hhold ws (by rw [← hv])
    · exact h.holding i ws received hi
  · simp only [PollingOwners.called, List.length_append, List.length_replicate, h.loops]
    omega
  · simp only [PollingOwners.called, List.length_set]
    rcases List.mem_append.mp hi with hi | hi
    · exact h.owned i hi
    · rw [(List.mem_replicate.mp hi).2]
      exact hlt
  · have hreceived : v.received = (s.polling.announced.filter fun a => s.loops[a.loop]? = some i).map (·.event) := by
      rcases hset i v hi with ⟨rfl, rfl⟩ | hi
      · rw [hsame]
        exact h.received i owner ho
      · exact h.received i v hi
    simp only [PollingOwners.called, hannounced]
    rw [hreceived]
    congr 1
    refine List.filter_congr fun a ha => ?_
    simp only [h.loop_of ha]

theorem Inv.polled {s : State} (h : Inv s) {e : Reminders.Poll.Event} {p : Reminders.Poll.State}
    (hp : Reminders.Poll.step s.polling e = some p) (hstart : e ≠ .start) (hstop : e ≠ .stop) :
    Inv { s with
      polling := p
      owners := s.owners.mapIdx (hand s.loops (p.announced.drop s.polling.announced.length)) } := by
  obtain ⟨-, hstarts⟩ := poll_step_handle hp hstart hstop
  refine ⟨fun o ws received ho => ?_, h.started.step hp, ?_, fun o ho => ?_, fun o owner ho => ?_⟩
  · rw [List.getElem?_mapIdx] at ho
    obtain ⟨⟨use, before⟩, hbefore, heq⟩ := Option.map_eq_some_iff.mp ho
    cases use with
    | caller => cases heq
    | attachment ws' =>
      cases heq
      exact (h.holding o ws' before hbefore).congr rfl rfl rfl
  · rw [h.loops, hstarts]
  · rw [List.length_mapIdx]
    exact h.owned o ho
  · rw [List.getElem?_mapIdx] at ho
    obtain ⟨before, hbefore, rfl⟩ := Option.map_eq_some_iff.mp ho
    simp only [hand]
    rw [h.received o before hbefore, announced_prefix hp, List.filter_append, List.map_append]
    simp

theorem inv_step {s t : State} {e : Event} (h : step s e = some t) (hs : Inv s) : Inv t := by
  rcases step_cases hs.holding h with ⟨o, owner, owner', p, ho, hsame, hhold, hp, rfl⟩ |
    ⟨e', p, hp, hstart, hstop, rfl⟩
  · exact hs.called ho hsame hhold hp
  · exact hs.polled hp hstart hstop

theorem Inv.handedOver {s : State} (h : Inv s) : HandedOver s := by
  refine ⟨h.received, fun a ha => ?_⟩
  have hlt : a.loop < s.loops.length := by
    rw [h.loops]
    exact h.started.announced a ha
  have howner := h.owned s.loops[a.loop] (List.getElem_mem hlt)
  exact ⟨_, _, List.getElem?_eq_getElem hlt, List.getElem?_eq_getElem howner⟩

/-! ## While nobody stops -/

/-- A start that finds a loop running makes none, and only a stop ends it. -/
theorem running_step {s t : State} {e : Event} (h : step s e = some t) (hs : Inv s) {loop : Nat}
    (hrun : s.polling.pollHandle = some loop) :
    t.loops = s.loops ∧ (t.polling.pollHandle = some loop ∨ t.polling.pollHandle = none ∧ Stops s e) := by
  rcases step_cases hs.holding h with ⟨o, owner, owner', p, -, -, -, hp, rfl⟩ |
    ⟨e', p, hp, hstart, hstop, rfl⟩
  · have hstart : startReminderPolling s.polling = s.polling := by
      unfold startReminderPolling
      rw [hrun]
    have hloops : ∀ q : Reminders.Poll.State, q.starts = s.polling.starts →
        (called { s with owners := s.owners.set o owner' } o q).loops = s.loops := by
      intro q hq
      simp [called, hq]
    rcases hp with rfl | rfl | ⟨rfl, hstops⟩
    · exact ⟨hloops _ rfl, .inl hrun⟩
    · rw [hstart]
      exact ⟨hloops _ rfl, .inl hrun⟩
    · exact ⟨hloops _ rfl, .inr ⟨rfl, hstops⟩⟩
  · exact ⟨rfl, .inl ((poll_step_handle hp hstart hstop).1.trans hrun)⟩

/-- After a start the loop is running: the one that was, or one of the owner's own. -/
theorem starts_step {s t : State} {e : Event} {o : Nat} (h : step s e = some t) (hs : Inv s)
    (hstarts : Starts s o e) :
    ∃ loop, t.polling.pollHandle = some loop ∧
      (s.polling.pollHandle = none → t.loops[loop]? = some o) ∧
      ∀ before, s.polling.pollHandle = some before → before = loop := by
  have hpolling : t.polling = startReminderPolling s.polling ∧
      ∃ more, t.loops = s.loops ++ more ∧
        more = List.replicate ((startReminderPolling s.polling).starts - s.polling.starts) o := by
    cases e with
    | start o' =>
      obtain rfl : o' = o := hstarts
      obtain ⟨received, -, rfl⟩ := callerStep_cases h
      exact ⟨rfl, _, rfl, rfl⟩
    | stop o' => cases hstarts
    | polling e => cases hstarts
    | attachment o' e =>
      cases e with
      | upgrade req handshake =>
        obtain ⟨rfl, hshake, hreq, ws, received, ho, hup, hsub⟩ := hstarts
        obtain ⟨ws', received', u, ho', hu, rfl⟩ := attachmentStep_cases h
        cases ho.symm.trans ho'
        have hnotHeld : ws.stopReminders = false := by
          rw [Bool.eq_false_iff]
          intro hheld
          exact ((hs.holding _ ws received ho).mp hheld).2 hsub
        have hcond : (ws.upgrading && onUpgrade req == .handleUpgrade && handshake) = true := by
          rw [hup, hreq, hshake]
          rfl
        have hu' : connect { ws with reminders := s.polling } = u :=
          (if_pos hcond).symm.trans (Option.some.inj hu)
        have hreminders : u.reminders = startReminderPolling s.polling := by
          rw [← hu']
          exact connect_starts hnotHeld
        exact ⟨hreminders, _, rfl, by rw [hreminders]⟩
      | _ => cases hstarts
  obtain ⟨ht, more, hloops, hmore⟩ := hpolling
  cases hrun : s.polling.pollHandle with
  | some loop =>
    refine ⟨loop, ?_, fun h => (by cases h), fun before hb => (Option.some.inj hb).symm⟩
    rw [ht]
    unfold startReminderPolling
    rw [hrun]
    exact hrun
  | none =>
    have hstart : startReminderPolling s.polling = Reminders.Poll.newTick
        { s.polling with pollHandle := some s.polling.starts, starts := s.polling.starts + 1 }
        s.polling.starts := by
      unfold startReminderPolling
      rw [hrun]
    refine ⟨s.polling.starts, ?_, fun _ => ?_, fun before hb => (by cases hb)⟩
    · rw [ht, hstart]
      rfl
    · rw [hloops, hmore, hstart, ← hs.loops]
      simp [Reminders.Poll.newTick, hs.loops]

/-- In some state of the run, `r`, owner `o` started, and nobody has stopped since. -/
def StartedIn (init : State) (es : List Event) (r : State) (o : Nat) : Prop :=
  ∃ past e rest r', es = past ++ e :: rest ∧ exec step init past = some r ∧ step r e = some r' ∧
    Starts r o e ∧ Along step (fun s e => ¬ Stops s e) r' rest

theorem inv_run {init s : State} {es : List Event} (hinit : Initial init)
    (h : exec step init es = some s) : Inv s :=
  exec_invariant (fun _ _ _ hst hi => inv_step hst hi) h (inv_init hinit)

/-- Every event goes to the owner whose start made the loop. While one is running no loop is
made, and only a stop ends it. From a start on, a loop is running while nobody stops: the one
that was running before, or else one whose events go to the owner that started. -/
theorem owners_served {init s : State} {es : List Event} (hinit : Initial init)
    (h : exec step init es = some s) :
    HandedOver s ∧
    (∀ e t loop, step s e = some t → s.polling.pollHandle = some loop →
      t.loops = s.loops ∧
        (t.polling.pollHandle = some loop ∨ t.polling.pollHandle = none ∧ Stops s e)) ∧
    ∀ r o, StartedIn init es r o →
      ∃ loop, s.polling.pollHandle = some loop ∧
        (r.polling.pollHandle = none → s.loops[loop]? = some o) ∧
        ∀ before, r.polling.pollHandle = some before → before = loop := by
  refine ⟨(inv_run hinit h).handedOver, fun e t loop hst hrun => ?_, fun r o hstarted => ?_⟩
  · exact running_step hst (inv_run hinit h) hrun
  · obtain ⟨past, e, rest, r', rfl, hr, hst, hstarts, hquiet⟩ := hstarted
    have hir := inv_run hinit hr
    obtain ⟨loop, hrun, hown, hbefore⟩ := starts_step hst hir hstarts
    have hrest : exec step r' rest = some s := by
      rw [exec_append, hr, Option.bind_some, exec_cons, hst, Option.bind_some] at h
      exact h
    have hkept : Inv s ∧ s.polling.pollHandle = some loop ∧ s.loops = r'.loops := by
      refine exec_invariant_along (I := fun u => Inv u ∧ u.polling.pollHandle = some loop ∧ u.loops = r'.loops)
        hrest hquiet ⟨inv_step hst hir, hrun, rfl⟩ fun u e v hu hstops hi => ?_
      obtain ⟨hinv, hhandle, hloops⟩ := hi
      obtain ⟨hsame, hnext⟩ := running_step hu hinv hhandle
      refine ⟨inv_step hu hinv, hnext.resolve_right fun h => hstops h.2, hsame.trans hloops⟩
    refine ⟨loop, hkept.2.1, fun hidle => ?_, hbefore⟩
    rw [hkept.2.2]
    exact hown hidle

def milk : ReminderTodo :=
  ⟨js "local-1", js "milk", js "AgentTasks", none, none, .finite 0, false, ⟨none, none, none⟩⟩

/-- A caller of the library and an attachment. -/
def shared : State :=
  ⟨Reminders.Poll.init [milk],
    [⟨.caller, []⟩, ⟨.attachment (Ws.init (js "dev") [] 0 (fun _ => none) none), []⟩], []⟩

theorem initial_shared : Initial shared := by
  refine ⟨⟨[milk], rfl⟩, fun owner ho => ?_, rfl⟩
  rcases List.mem_cons.mp ho with rfl | ho
  · exact .caller
  · rw [List.mem_singleton.mp ho]
    exact .attachment _ _ _ _ _

/-- The first tick of a loop that the caller started. -/
def firstTick : List Event := [.start 0, .polling (.read 0), .polling (.resume 0)]

/-- The caller, alone, is told of the todo and goes on being told. -/
theorem caller_served :
    ∃ s, exec step shared firstTick = some s ∧ s.owners.map (·.received) = [[.added milk], []] ∧
      HandedOver s ∧ ∃ loop, s.polling.pollHandle = some loop ∧ s.loops[loop]? = some 0 := by
  obtain ⟨s, hs, hreceived⟩ : ∃ s, exec step shared firstTick = some s ∧
      s.owners.map (·.received) = [[.added milk], []] := ⟨_, rfl, rfl⟩
  obtain ⟨hhanded, -, hserved⟩ := owners_served initial_shared hs
  have hstarted : StartedIn shared firstTick shared 0 :=
    ⟨[], .start 0, _, _, rfl, rfl, rfl, rfl, fun h => h.elim, fun _ _ => ⟨fun h => h.elim, fun _ _ => trivial⟩⟩
  obtain ⟨loop, hrun, hown, -⟩ := hserved shared 0 hstarted
  exact ⟨s, hs, hreceived, hhanded, loop, hrun, hown rfl⟩

/-- A client connects while the caller's loop is running. The attachment's broadcaster is
told of nothing, and when the caller stops, nothing is running for the client. -/
theorem attachment_unserved :
    ∃ s ws, exec step shared (.start 0 ::
        .attachment 1 (.upgrade ⟨js "GET", some (js "localhost"), some (js "/events")⟩ true) ::
        [.polling (.read 0), .polling (.resume 0), .stop 0]) = some s ∧
      s.owners = [⟨.caller, [.added milk]⟩, ⟨.attachment ws, []⟩] ∧
      subscribers ws = [0] ∧ ws.upgrading = true ∧ ws.stopReminders = true ∧ s.polling.pollHandle = none := by
  exact ⟨_, _, rfl, rfl, rfl, rfl, rfl, rfl⟩

end Conductor.Http.PollingOwners
