import Conductor.Http.Server
import Conductor.Http.SessionsPoller
import Conductor.Reminders.Poll

/-! # The websocket attachment

Clients connect and leave; the first one starts the reminders loop and a sessions
poller, and the last one stops them. What either poller announces is written to
every client whose socket is open at that moment. The pollers' own steps are
steps of the attachment, except that only the attachment starts and stops them. -/
namespace Conductor.Http.Ws
open Conductor.Js.Text Conductor.Http.Server Conductor.Http.SessionsPoller
open Conductor.Timeseries.Store (TimeseriesStore)
open Conductor.Sessions.RefinedStatus (Disk)
open Conductor.Reminders.Poll (ReminderTodo TodoEvent startReminderPolling stopReminderPolling)

/-! ## Frames -/

inductive WsEvent
  /-- The time of the server, in milliseconds. -/
  | hello (name version : JsString) (serverTime : Int)
  /-- `todo:added`, `todo:completed` or `todo:updated`, by its payload. -/
  | todo (payload : TodoEvent)
  | sessionsUpdate (payload : Update)
  deriving DecidableEq

/-- Who had a frame written: the connection itself, or the poller that announced it. -/
inductive Sender
  | connection
  | reminders (loop : Nat)
  | sessions (poller : Nat)
  deriving DecidableEq

structure Frame where
  client : Nat
  sender : Sender
  event : WsEvent
  deriving DecidableEq

/-! ## The system -/

/-- `readyState`. -/
inductive ReadyState
  | open
  | closing
  | closed
  deriving DecidableEq

structure State where
  version : JsString
  reminders : Reminders.Poll.State
  sessions : SessionsPoller.State
  /-- The sockets, in the order of their connection. -/
  clients : List ReadyState
  /-- The upgrade handler is attached. -/
  upgrading : Bool
  stopReminders : Bool
  stopSessions : Option Nat
  frames : List Frame

inductive Event
  /-- A request for an upgrade, and whether its handshake succeeds. -/
  | upgrade (req : Request) (handshake : Bool)
  /-- A socket is no longer open, and not yet closed. -/
  | closing (c : Nat)
  | error (c : Nat)
  /-- The `close` event of a socket. -/
  | disconnect (c : Nat)
  /-- The synchronous part of `close()`. -/
  | close
  | reminders (e : Reminders.Poll.Event)
  | sessions (e : SessionsPoller.Event)

def init (version : JsString) (todos : List ReminderTodo) (now : Int) (disk : Disk)
    (store : Option TimeseriesStore) : State :=
  ⟨version, Reminders.Poll.init todos, SessionsPoller.init now disk store, [], true, false, none, []⟩

/-- The broadcaster's subscribers: a client unsubscribes when its socket is closed. -/
def subscribers (s : State) : List Nat :=
  (List.range s.clients.length).filter fun c => s.clients[c]? ≠ some .closed

def openClients (s : State) : List Nat :=
  (List.range s.clients.length).filter fun c => s.clients[c]? = some .open

/-- `broadcaster.emit`, for one announcement after the other. -/
def emit (s : State) (announced : List (Sender × WsEvent)) : State :=
  { s with frames := s.frames ++ announced.flatMap fun a =>
      (openClients s).map fun c => ⟨c, a.1, a.2⟩ }

def ensurePollersRunning (s : State) : State :=
  if subscribers s = [] then s
  else
    let s := if s.stopReminders then s
      else { s with reminders := startReminderPolling s.reminders, stopReminders := true }
    match s.stopSessions with
    | some _ => s
    | none => { s with
        sessions := startSessionsDiffPoller s.sessions
        stopSessions := some s.sessions.pollers.length }

/-- Both stop thunks, where there is one. -/
def stopPollers (s : State) : State :=
  let s := if s.stopReminders then
      { s with reminders := stopReminderPolling s.reminders, stopReminders := false }
    else s
  match s.stopSessions with
  | some g => { s with
      sessions := (SessionsPoller.step s.sessions (.stop g)).getD s.sessions
      stopSessions := none }
  | none => s

def maybeStopPollers (s : State) : State := if subscribers s = [] then stopPollers s else s

/-- The `connection` handler: the welcome frame, then the subscription. -/
def connect (s : State) : State :=
  let hello := ⟨s.clients.length, .connection,
    .hello (js "agent-conductor") s.version s.sessions.sched.now⟩
  ensurePollersRunning { s with clients := s.clients ++ [.open], frames := s.frames ++ [hello] }

inductive UpgradeAnswer
  | refuse (text : JsString)
  | handleUpgrade
  deriving DecidableEq

def onUpgrade (req : Request) : UpgradeAnswer :=
  if !isLoopbackHost req.host then .refuse (js "HTTP/1.1 403 Forbidden\r\n\r\n")
  else if !(js "/events").isPrefixOf (req.url.getD []) then .refuse (js "HTTP/1.1 404 Not Found\r\n\r\n")
  else .handleUpgrade

/-- What tick `e` of the reminders loop announces goes to every open client. -/
def remindersStep (s : State) (e : Reminders.Poll.Event) : Option State := do
  let reminders ← Reminders.Poll.step s.reminders e
  let announced := reminders.announced.drop s.reminders.announced.length
  return emit { s with reminders } (announced.map fun a => (.reminders a.loop, .todo a.event))

def sessionsStep (s : State) (e : SessionsPoller.Event) : Option State := do
  let sessions ← SessionsPoller.step s.sessions e
  let emitted := sessions.emitted.drop s.sessions.emitted.length
  return emit { s with sessions } (emitted.map fun m => (.sessions m.poller, .sessionsUpdate m.update))

/-- A socket that is not yet closed. -/
def socket (s : State) (c : Nat) (f : Option State) : Option State :=
  if c ∈ subscribers s then f else none

def step (s : State) : Event → Option State
  | .upgrade req handshake =>
    some (if s.upgrading && onUpgrade req == .handleUpgrade && handshake then connect s else s)
  | .closing c => socket s c (some { s with clients := s.clients.set c .closing })
  | .error c => socket s c (some s)
  | .disconnect c =>
    socket s c (some (maybeStopPollers { s with clients := s.clients.set c .closed }))
  | .close =>
    let s := stopPollers { s with upgrading := false }
    some { s with clients := s.clients.map fun r => if r = .open then .closing else r }
  | .reminders .start | .reminders .stop | .sessions .start | .sessions (.stop _) => none
  | .reminders e => remindersStep s e
  | .sessions e => sessionsStep s e

/-! ## What one step can do -/

theorem mem_subscribers {s : State} {c : Nat} :
    c ∈ subscribers s ↔ c < s.clients.length ∧ s.clients[c]? ≠ some .closed := by
  simp [subscribers]

@[simp] theorem ensurePollersRunning_frames (s : State) : (ensurePollersRunning s).frames = s.frames := by
  unfold ensurePollersRunning
  split
  · rfl
  · cases s.stopReminders <;> cases h : s.stopSessions <;> simp [h]

@[simp] theorem stopPollers_frames (s : State) : (stopPollers s).frames = s.frames := by
  unfold stopPollers
  cases s.stopReminders <;> cases h : s.stopSessions <;> simp [h]

@[simp] theorem maybeStopPollers_frames (s : State) : (maybeStopPollers s).frames = s.frames := by
  unfold maybeStopPollers
  split
  · exact stopPollers_frames s
  · rfl

theorem ensurePollersRunning_reminders (s : State) :
    (ensurePollersRunning s).reminders = s.reminders ∨
      (ensurePollersRunning s).reminders = startReminderPolling s.reminders := by
  unfold ensurePollersRunning
  split
  · exact .inl rfl
  · cases hr : s.stopReminders <;> cases h : s.stopSessions <;> simp [h, hr]

theorem stopPollers_reminders (s : State) :
    (stopPollers s).reminders = s.reminders ∨
      (stopPollers s).reminders = stopReminderPolling s.reminders := by
  unfold stopPollers
  cases hr : s.stopReminders <;> cases h : s.stopSessions <;> simp [h, hr]

theorem ensurePollersRunning_startsSessions {s : State} (hsub : subscribers s ≠ [])
    (hidle : s.stopSessions = none) :
    (ensurePollersRunning s).sessions = startSessionsDiffPoller s.sessions := by
  unfold ensurePollersRunning
  rw [if_neg hsub]
  cases s.stopReminders <;> simp [hidle]

theorem ensurePollersRunning_startsReminders {s : State} (hsub : subscribers s ≠ [])
    (hstop : s.stopReminders = false) :
    (ensurePollersRunning s).reminders = startReminderPolling s.reminders := by
  unfold ensurePollersRunning
  rw [if_neg hsub]
  cases hsess : s.stopSessions <;> simp [hstop]

@[simp] theorem ensurePollersRunning_clients (s : State) :
    (ensurePollersRunning s).clients = s.clients := by
  unfold ensurePollersRunning
  split
  · rfl
  · cases s.stopReminders <;> cases h : s.stopSessions <;> simp [h]

@[simp] theorem stopPollers_clients (s : State) : (stopPollers s).clients = s.clients := by
  unfold stopPollers
  cases s.stopReminders <;> cases h : s.stopSessions <;> simp [h]

@[simp] theorem maybeStopPollers_clients (s : State) : (maybeStopPollers s).clients = s.clients := by
  unfold maybeStopPollers
  split
  · exact stopPollers_clients s
  · rfl

@[simp] theorem ensurePollersRunning_upgrading (s : State) :
    (ensurePollersRunning s).upgrading = s.upgrading := by
  unfold ensurePollersRunning
  split
  · rfl
  · cases s.stopReminders <;> cases h : s.stopSessions <;> simp [h]

@[simp] theorem stopPollers_upgrading (s : State) : (stopPollers s).upgrading = s.upgrading := by
  unfold stopPollers
  cases s.stopReminders <;> cases h : s.stopSessions <;> simp [h]

theorem ensurePollersRunning_sessions (s : State) :
    (ensurePollersRunning s).sessions = s.sessions ∨
      (ensurePollersRunning s).sessions = startSessionsDiffPoller s.sessions := by
  unfold ensurePollersRunning
  split
  · exact .inl rfl
  · cases hr : s.stopReminders <;> cases h : s.stopSessions <;> simp [h]

theorem stopPollers_sessions (s : State) :
    (stopPollers s).sessions = s.sessions ∨
      ∃ g, SessionsPoller.step s.sessions (.stop g) = some (stopPollers s).sessions := by
  cases h : s.stopSessions with
  | none =>
    left
    unfold stopPollers
    cases s.stopReminders <;> simp [h]
  | some g =>
    have hsessions : (stopPollers s).sessions =
        (SessionsPoller.step s.sessions (.stop g)).getD s.sessions := by
      unfold stopPollers
      cases s.stopReminders <;> simp [h]
    rw [hsessions]
    cases hstop : SessionsPoller.step s.sessions (.stop g) with
    | none => exact .inl rfl
    | some sessions => exact .inr ⟨g, hstop⟩

/-- A step of the attachment's own: it writes at most a frame of the connection. -/
structure Handled (s t : State) : Prop where
  frames : ∃ frames, t.frames = s.frames ++ frames ∧ ∀ f ∈ frames, f.sender = .connection
  reminders : t.reminders = s.reminders ∨ t.reminders = startReminderPolling s.reminders ∨
    t.reminders = stopReminderPolling s.reminders

theorem Handled.of_frames {s t : State} (hframes : t.frames = s.frames)
    (h : t.reminders = s.reminders ∨ t.reminders = stopReminderPolling s.reminders) : Handled s t :=
  ⟨⟨[], by rw [hframes, List.append_nil], fun f hf => (by cases hf)⟩, h.imp_right .inr⟩

theorem handled_connect (s : State) : Handled s (connect s) := by
  refine ⟨⟨_, ensurePollersRunning_frames _, fun f hf => ?_⟩, ?_⟩
  · rw [List.mem_singleton.mp hf]
  · exact (ensurePollersRunning_reminders _).imp_right .inl

theorem handled_maybeStop (s : State) : Handled s (maybeStopPollers s) := by
  refine .of_frames (maybeStopPollers_frames s) ?_
  unfold maybeStopPollers
  split
  · exact stopPollers_reminders s
  · exact .inl rfl

theorem socket_cases {s t : State} {c : Nat} {f : Option State} (h : socket s c f = some t) :
    c ∈ subscribers s ∧ f = some t := by
  unfold socket at h
  split at h
  · exact ⟨‹_›, h⟩
  · cases h

/-- A step of the reminders loop; what it announces is written to every open client. -/
theorem step_reminders {s t : State} {e : Reminders.Poll.Event} (h : step s (.reminders e) = some t) :
    ∃ reminders, Reminders.Poll.step s.reminders e = some reminders ∧
      t = emit { s with reminders } ((reminders.announced.drop s.reminders.announced.length).map
        fun a => (.reminders a.loop, .todo a.event)) := by
  have h : remindersStep s e = some t := by
    cases e with
    | start => cases h
    | stop => cases h
    | edit _ => exact h
    | timer => exact h
    | read _ => exact h
    | readFails _ _ => exact h
    | resume _ => exact h
  obtain ⟨reminders, hr, h⟩ := Option.bind_eq_some_iff.mp h
  cases h
  exact ⟨reminders, hr, rfl⟩

/-- A step of the sessions pollers; only the attachment starts and stops them. -/
theorem step_sessions {s t : State} {e : SessionsPoller.Event} (h : step s (.sessions e) = some t) :
    ∃ sessions, SessionsPoller.step s.sessions e = some sessions ∧
      t = emit { s with sessions } ((sessions.emitted.drop s.sessions.emitted.length).map
        fun m => (.sessions m.poller, .sessionsUpdate m.update)) := by
  have h : sessionsStep s e = some t := by
    cases e with
    | start => cases h
    | stop _ => cases h
    | sched _ => exact h
    | timer _ => exact h
    | ask _ _ _ => exact h
    | complete _ _ _ => exact h
    | fail _ _ => exact h
    | closeStore => exact h
  obtain ⟨sessions, hs, h⟩ := Option.bind_eq_some_iff.mp h
  cases h
  exact ⟨sessions, hs, rfl⟩

theorem step_cases {s t : State} {e : Event} (h : step s e = some t) :
    Handled s t ∨
    (∃ e' reminders, e = .reminders e' ∧ Reminders.Poll.step s.reminders e' = some reminders ∧
      t = emit { s with reminders } ((reminders.announced.drop s.reminders.announced.length).map
        fun a => (.reminders a.loop, .todo a.event))) ∨
    ∃ e' sessions, e = .sessions e' ∧ SessionsPoller.step s.sessions e' = some sessions ∧
      t = emit { s with sessions } ((sessions.emitted.drop s.sessions.emitted.length).map
        fun m => (.sessions m.poller, .sessionsUpdate m.update)) := by
  cases e with
  | upgrade req handshake =>
    left
    cases h
    split
    · exact handled_connect s
    · exact .of_frames rfl (.inl rfl)
  | closing c =>
    obtain ⟨_, h⟩ := socket_cases h
    cases h
    exact .inl (.of_frames rfl (.inl rfl))
  | error c =>
    obtain ⟨_, h⟩ := socket_cases h
    cases h
    exact .inl (.of_frames rfl (.inl rfl))
  | disconnect c =>
    obtain ⟨_, h⟩ := socket_cases h
    cases h
    have hstop := handled_maybeStop { s with clients := s.clients.set c .closed }
    exact .inl ⟨hstop.frames, hstop.reminders⟩
  | close =>
    cases h
    exact .inl (.of_frames (stopPollers_frames _) (stopPollers_reminders _))
  | reminders e =>
    obtain ⟨reminders, hr, rfl⟩ := step_reminders h
    exact .inr (.inl ⟨e, reminders, rfl, hr, rfl⟩)
  | sessions e =>
    obtain ⟨sessions, hs, rfl⟩ := step_sessions h
    exact .inr (.inr ⟨e, sessions, rfl, hs, rfl⟩)

end Conductor.Http.Ws
