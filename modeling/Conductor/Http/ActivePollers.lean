import Conductor.Http.Ws

/-! # The intervals of the attachment

A sessions poller has its interval until it is stopped. The reminders loop keeps
one handle for the process, so its intervals are counted beside the system: one
is set when a loop starts, and the handle's is cleared when it is dropped. -/
namespace Conductor.Http.ActivePollers
open Conductor.Lib.Runs Conductor.Js.Text Conductor.Http.Ws
open Conductor.Sessions.RefinedStatus (Disk)
open Conductor.Timeseries.Store (TimeseriesStore)
open Conductor.Reminders.Poll (ReminderTodo startReminderPolling stopReminderPolling
  listedStep_cases resumeStep_cases)
open Conductor.Http.SessionsPoller (Poller updatePoller_cases askTick_cases completeTick_cases
  failTick_cases startSessionsDiffPoller)

/-! ## The intervals that are set -/

/-- The pollers whose interval was not cleared. -/
def activeSessions (s : SessionsPoller.State) : List Nat :=
  (List.range s.pollers.length).filter fun g => (s.pollers.map (·.stopped))[g]? = some false

/-- The intervals of the reminders after a step from `s` to `t`. -/
def intervals (s t : Reminders.Poll.State) (active : List Nat) : List Nat :=
  let kept := match s.pollHandle, t.pollHandle with
    | some loop, none => active.filter (· ≠ loop)
    | _, _ => active
  if s.starts < t.starts then kept ++ [s.starts] else kept

structure Timed where
  system : State
  activeReminders : List Nat

def timedStep (s : Timed) (e : Event) : Option Timed :=
  (step s.system e).map fun t => ⟨t, intervals s.system.reminders t.reminders s.activeReminders⟩

/-- Somebody is connected, and `close` was not called. -/
def Wanted (es : List Event) (s : State) : Prop := subscribers s ≠ [] ∧ .close ∉ es

/-- One interval of each kind while they are wanted, none otherwise, and each is the
one whose handle is held. -/
structure Tracks (es : List Event) (s : Timed) : Prop where
  wanted : Wanted es s.system →
    (∃ loop, s.activeReminders = [loop]) ∧ ∃ g, activeSessions s.system.sessions = [g]
  unwanted : ¬ Wanted es s.system →
    s.activeReminders = [] ∧ activeSessions s.system.sessions = []
  reminders : s.activeReminders = s.system.reminders.pollHandle.toList
  sessions : activeSessions s.system.sessions = s.system.stopSessions.toList

/-! ## Starting and stopping -/

theorem activeSessions_congr {s t : SessionsPoller.State}
    (h : t.pollers.map (·.stopped) = s.pollers.map (·.stopped)) : activeSessions t = activeSessions s := by
  have hlen : t.pollers.length = s.pollers.length := by
    rw [← List.length_map (·.stopped), h, List.length_map]
  rw [activeSessions, activeSessions, h, hlen]

theorem activeSessions_start (s : SessionsPoller.State) :
    activeSessions (startSessionsDiffPoller s) = activeSessions s ++ [s.pollers.length] := by
  unfold activeSessions startSessionsDiffPoller
  rw [List.length_append, List.length_singleton, List.range_succ, List.filter_append]
  congr 1
  · refine List.filter_congr fun g hg => ?_
    rw [List.map_append, List.getElem?_append_left (by simpa using hg)]
  · simp

/-- The last poller that is active is stopped. -/
theorem activeSessions_stop {s : SessionsPoller.State} {g : Nat} (h : activeSessions s = [g]) :
    ∃ t, SessionsPoller.step s (.stop g) = some t ∧ activeSessions t = [] := by
  have hg : g ∈ activeSessions s := by simp [h]
  have hlt : g < s.pollers.length := List.mem_range.mp (List.mem_filter.mp hg).1
  refine ⟨{ s with pollers := s.pollers.set g { s.pollers[g] with stopped := true } }, ?_, ?_⟩
  · simp [SessionsPoller.step, SessionsPoller.updatePoller, List.getElem?_eq_getElem hlt]
  · refine List.filter_eq_nil_iff.mpr fun d hd => ?_
    rw [List.length_set] at hd
    rw [List.map_set, List.getElem?_set]
    by_cases hgd : g = d
    · subst hgd
      simp [hlt]
    · rw [if_neg hgd]
      intro hd'
      have hmem : d ∈ activeSessions s := List.mem_filter.mpr ⟨hd, hd'⟩
      rw [h, List.mem_singleton] at hmem
      exact hgd hmem.symm

/-- No other step of the pollers stops or starts one. -/
theorem activeSessions_step {s t : SessionsPoller.State} {e : SessionsPoller.Event}
    (h : SessionsPoller.step s e = some t) (hstart : e ≠ .start) (hstop : ∀ g, e ≠ .stop g) :
    activeSessions t = activeSessions s := by
  have set_keeps : ∀ {g : Nat} {p p' : Poller}, s.pollers[g]? = some p → p'.stopped = p.stopped →
      (s.pollers.set g p').map (·.stopped) = s.pollers.map (·.stopped) := by
    intro g p p' hp hsame
    obtain ⟨hlt, hget⟩ := List.getElem?_eq_some_iff.mp hp
    rw [List.map_set, hsame, ← hget]
    refine List.ext_getElem? fun d => ?_
    rw [List.getElem?_set]
    split
    · subst_vars
      simp [hlt]
    · rfl
  cases e with
  | sched e =>
    obtain ⟨sched, _, rfl⟩ := Option.map_eq_some_iff.mp h
    rfl
  | start => exact absurd rfl hstart
  | stop g => exact absurd rfl (hstop g)
  | timer g =>
    obtain ⟨p, p', hp, hp', rfl⟩ := updatePoller_cases h
    refine activeSessions_congr (set_keeps hp ?_)
    split at hp'
    · cases hp'
    · cases hp'
      rfl
  | ask g k found =>
    obtain ⟨p, sched, hp, _, _, rfl⟩ := askTick_cases h
    exact activeSessions_congr (set_keeps hp rfl)
  | complete g k outcome =>
    obtain ⟨p, found, askedAt, next, hp, _, hpollers, _, _, _⟩ := completeTick_cases h
    refine activeSessions_congr ?_
    rw [hpollers]
    exact set_keeps hp rfl
  | fail g k =>
    obtain ⟨p, p', hp, hp', rfl⟩ := updatePoller_cases h
    rw [failTick_cases hp']
    exact activeSessions_congr (set_keeps hp rfl)
  | closeStore => cases h; rfl

/-- A step that neither starts nor stops the loop. -/
theorem intervals_same {s t : Reminders.Poll.State} (hhandle : t.pollHandle = s.pollHandle)
    (hstarts : t.starts = s.starts) (active : List Nat) : intervals s t active = active := by
  unfold intervals
  rw [hstarts, if_neg (lt_irrefl _), hhandle]
  cases s.pollHandle <;> rfl

theorem poll_step_handle {s t : Reminders.Poll.State} {e : Reminders.Poll.Event}
    (h : Reminders.Poll.step s e = some t) (hstart : e ≠ .start) (hstop : e ≠ .stop) :
    t.pollHandle = s.pollHandle ∧ t.starts = s.starts := by
  cases e with
  | edit todos => cases h; exact ⟨rfl, rfl⟩
  | start => exact absurd rfl hstart
  | stop => exact absurd rfl hstop
  | timer =>
    obtain ⟨loop, _, rfl⟩ := Option.map_eq_some_iff.mp h
    exact ⟨rfl, rfl⟩
  | read k =>
    obtain ⟨loop, _, rfl⟩ := listedStep_cases h
    exact ⟨rfl, rfl⟩
  | readFails k err =>
    obtain ⟨loop, _, rfl⟩ := listedStep_cases h
    exact ⟨rfl, rfl⟩
  | resume k =>
    rcases resumeStep_cases h with ⟨loop, next, _, rfl⟩ | ⟨loop, err, _, rfl⟩
    · exact ⟨rfl, rfl⟩
    · exact ⟨rfl, rfl⟩

/-- Both pollers are running, and their handles are held. -/
structure On (u : State) (active : List Nat) (loop g : Nat) : Prop where
  active : active = [loop]
  pollHandle : u.reminders.pollHandle = some loop
  stopReminders : u.stopReminders = true
  stopSessions : u.stopSessions = some g
  sessions : activeSessions u.sessions = [g]

structure Off (u : State) (active : List Nat) : Prop where
  active : active = []
  pollHandle : u.reminders.pollHandle = none
  stopReminders : u.stopReminders = false
  stopSessions : u.stopSessions = none
  sessions : activeSessions u.sessions = []

section Handles

variable {u v : State} {active : List Nat} {loop g : Nat}

theorem On.congr (h : On u active loop g) (hhandle : v.reminders.pollHandle = u.reminders.pollHandle)
    (hstop : v.stopReminders = u.stopReminders) (hstop' : v.stopSessions = u.stopSessions)
    (hsessions : activeSessions v.sessions = activeSessions u.sessions) : On v active loop g :=
  ⟨h.active, hhandle.trans h.pollHandle, hstop.trans h.stopReminders, hstop'.trans h.stopSessions,
    hsessions.trans h.sessions⟩

theorem Off.congr (h : Off u active) (hhandle : v.reminders.pollHandle = u.reminders.pollHandle)
    (hstop : v.stopReminders = u.stopReminders) (hstop' : v.stopSessions = u.stopSessions)
    (hsessions : activeSessions v.sessions = activeSessions u.sessions) : Off v active :=
  ⟨h.active, hhandle.trans h.pollHandle, hstop.trans h.stopReminders, hstop'.trans h.stopSessions,
    hsessions.trans h.sessions⟩

theorem On.ensure (h : On u active loop g) : ensurePollersRunning u = u := by
  unfold ensurePollersRunning
  split
  · rfl
  · simp [h.stopReminders, h.stopSessions]

theorem Off.ensure (h : Off u active) (hsub : subscribers u ≠ []) :
    ∃ loop g, On (ensurePollersRunning u)
      (intervals u.reminders (ensurePollersRunning u).reminders active) loop g := by
  have hensure : ensurePollersRunning u = { u with
      reminders := startReminderPolling u.reminders
      stopReminders := true
      sessions := startSessionsDiffPoller u.sessions
      stopSessions := some u.sessions.pollers.length } := by
    unfold ensurePollersRunning
    rw [if_neg hsub]
    simp [h.stopReminders, h.stopSessions]
  have hstart : startReminderPolling u.reminders = Reminders.Poll.newTick
      { u.reminders with pollHandle := some u.reminders.starts, starts := u.reminders.starts + 1 }
      u.reminders.starts := by
    unfold startReminderPolling
    rw [h.pollHandle]
  rw [hensure]
  refine ⟨u.reminders.starts, u.sessions.pollers.length, ?_, ?_, rfl, rfl, ?_⟩
  · simp only [intervals, hstart, h.pollHandle, h.active, Reminders.Poll.newTick]
    rw [if_pos (Nat.lt_succ_self _)]
    rfl
  · rw [hstart]
    rfl
  · rw [activeSessions_start, h.sessions]
    rfl

theorem Off.stop (h : Off u active) : stopPollers u = u := by
  unfold stopPollers
  simp [h.stopReminders, h.stopSessions]

theorem On.stop (h : On u active loop g) :
    Off (stopPollers u) (intervals u.reminders (stopPollers u).reminders active) := by
  obtain ⟨sessions, hstop, hnone⟩ := activeSessions_stop h.sessions
  have hstopped : stopPollers u = { u with
      reminders := stopReminderPolling u.reminders
      stopReminders := false
      sessions
      stopSessions := none } := by
    unfold stopPollers
    simp [h.stopReminders, h.stopSessions, hstop]
  rw [hstopped]
  refine ⟨?_, rfl, rfl, rfl, hnone⟩
  simp [intervals, stopReminderPolling, h.pollHandle, h.active]

/-- Both pollers are running, or neither is. -/
def Settled (u : State) (active : List Nat) : Prop := (∃ loop g, On u active loop g) ∨ Off u active

theorem Settled.congr (h : Settled u active) (hhandle : v.reminders.pollHandle = u.reminders.pollHandle)
    (hstop : v.stopReminders = u.stopReminders) (hstop' : v.stopSessions = u.stopSessions)
    (hsessions : activeSessions v.sessions = activeSessions u.sessions) : Settled v active := by
  rcases h with ⟨loop, g, hon⟩ | hoff
  · exact .inl ⟨loop, g, hon.congr hhandle hstop hstop' hsessions⟩
  · exact .inr (hoff.congr hhandle hstop hstop' hsessions)

theorem Settled.ensure (h : Settled u active) (hsub : subscribers u ≠ []) :
    ∃ loop g, On (ensurePollersRunning u)
      (intervals u.reminders (ensurePollersRunning u).reminders active) loop g := by
  rcases h with ⟨loop, g, hon⟩ | hoff
  · rw [hon.ensure, intervals_same rfl rfl]
    exact ⟨loop, g, hon⟩
  · exact hoff.ensure hsub

theorem Settled.stop (h : Settled u active) :
    Off (stopPollers u) (intervals u.reminders (stopPollers u).reminders active) := by
  rcases h with ⟨loop, g, hon⟩ | hoff
  · exact hon.stop
  · rw [hoff.stop, intervals_same rfl rfl]
    exact hoff

end Handles

/-! ## The invariant -/

structure Inv (es : List Event) (s : Timed) : Prop where
  upgrading : s.system.upgrading = true ↔ .close ∉ es
  on : Wanted es s.system → ∃ loop g, On s.system s.activeReminders loop g
  off : ¬ Wanted es s.system → Off s.system s.activeReminders

theorem Inv.tracks {es : List Event} {s : Timed} (h : Inv es s) : Tracks es s := by
  by_cases hw : Wanted es s.system
  · obtain ⟨loop, g, hon⟩ := h.on hw
    refine ⟨fun _ => ⟨⟨loop, hon.active⟩, g, hon.sessions⟩, fun hno => absurd hw hno, ?_, ?_⟩
    · rw [hon.active, hon.pollHandle]
      rfl
    · rw [hon.sessions, hon.stopSessions]
      rfl
  · have hoff := h.off hw
    refine ⟨fun hyes => absurd hyes hw, fun _ => ⟨hoff.active, hoff.sessions⟩, ?_, ?_⟩
    · rw [hoff.active, hoff.pollHandle]
      rfl
    · rw [hoff.sessions, hoff.stopSessions]
      rfl

/-- A socket that is no longer open has not unsubscribed. -/
theorem subscribers_closing {u : State} {c : Nat} (hc : c ∈ subscribers u) :
    subscribers { u with clients := u.clients.set c .closing } = subscribers u := by
  unfold subscribers
  rw [List.length_set]
  refine List.filter_congr fun d hd => ?_
  rw [List.getElem?_set]
  by_cases hcd : c = d
  · subst hcd
    obtain ⟨hlt, hne⟩ := mem_subscribers.mp hc
    rw [List.getElem?_eq_getElem hlt] at hne
    simpa [hlt] using hne
  · rw [if_neg hcd]

theorem close_not_mem_concat {es : List Event} {e : Event} (he : .close ∉ [e]) :
    Event.close ∉ es ++ [e] ↔ Event.close ∉ es := by
  rw [List.mem_append]
  exact ⟨fun hno hmem => hno (.inl hmem), fun hno hmem => hmem.elim hno he⟩

/-- A step that keeps the subscribers and the handles. -/
theorem Inv.kept {es : List Event} {s : Timed} {t : State} {e : Event} (h : Inv es s)
    (he : .close ∉ [e]) (hsub : subscribers t = subscribers s.system)
    (hupgrading : t.upgrading = s.system.upgrading)
    (hhandle : t.reminders.pollHandle = s.system.reminders.pollHandle)
    (hstarts : t.reminders.starts = s.system.reminders.starts)
    (hstop : t.stopReminders = s.system.stopReminders)
    (hstop' : t.stopSessions = s.system.stopSessions)
    (hsessions : activeSessions t.sessions = activeSessions s.system.sessions) :
    Inv (es ++ [e]) ⟨t, intervals s.system.reminders t.reminders s.activeReminders⟩ := by
  have hclose : Event.close ∉ es ++ [e] ↔ Event.close ∉ es := close_not_mem_concat he
  have hwanted : Wanted (es ++ [e]) t ↔ Wanted es s.system := by
    unfold Wanted
    rw [hsub, hclose]
  rw [intervals_same hhandle hstarts]
  refine ⟨?_, fun hw => ?_, fun hw => ?_⟩
  · rw [hclose]
    simp only [hupgrading]
    exact h.upgrading
  · obtain ⟨loop, g, hon⟩ := h.on (hwanted.mp hw)
    exact ⟨loop, g, hon.congr hhandle hstop hstop' hsessions⟩
  · exact (h.off fun hw' => hw (hwanted.mpr hw')).congr hhandle hstop hstop' hsessions

theorem subscribers_congr {s t : State} (h : t.clients = s.clients) : subscribers t = subscribers s := by
  rw [subscribers, subscribers, h]

theorem Inv.settled {es : List Event} {s : Timed} (h : Inv es s) :
    Settled s.system s.activeReminders := by
  by_cases hw : Wanted es s.system
  · exact .inl (h.on hw)
  · exact .inr (h.off hw)

/-- The pollers run after a connection. -/
theorem Inv.connect {es : List Event} {s : Timed} {e : Event} (h : Inv es s) (he : .close ∉ [e])
    (hupgrading : s.system.upgrading = true) :
    Inv (es ++ [e]) ⟨connect s.system,
      intervals s.system.reminders (connect s.system).reminders s.activeReminders⟩ := by
  have hno : Event.close ∉ es := h.upgrading.mp hupgrading
  have hmem : s.system.clients.length ∈ subscribers (Ws.connect s.system) :=
    mem_subscribers.mpr (by simp [Ws.connect])
  have hwanted : Wanted (es ++ [e]) (Ws.connect s.system) :=
    ⟨List.ne_nil_of_mem hmem, (close_not_mem_concat he).mpr hno⟩
  refine ⟨?_, fun _ => ?_, fun hw => absurd hwanted hw⟩
  · rw [close_not_mem_concat he]
    simp [Ws.connect, hupgrading, hno]
  · refine Settled.ensure (h.settled.congr rfl rfl rfl rfl) ?_
    rw [Ws.connect, subscribers_congr (ensurePollersRunning_clients _)] at hmem
    exact List.ne_nil_of_mem hmem

/-- The last client to leave stops the pollers. -/
theorem Inv.disconnect {es : List Event} {s : Timed} {c : Nat} (h : Inv es s)
    (hc : c ∈ subscribers s.system) :
    let t := maybeStopPollers { s.system with clients := s.system.clients.set c .closed }
    Inv (es ++ [.disconnect c]) ⟨t, intervals s.system.reminders t.reminders s.activeReminders⟩ := by
  intro t
  have he : Event.close ∉ [Event.disconnect c] := by simp
  have hsub : subscribers t = subscribers { s.system with clients := s.system.clients.set c .closed } :=
    subscribers_congr (maybeStopPollers_clients _)
  by_cases hempty : subscribers { s.system with clients := s.system.clients.set c .closed } = []
  · have ht : t = stopPollers { s.system with clients := s.system.clients.set c .closed } := if_pos hempty
    have hoff : Off t (intervals s.system.reminders t.reminders s.activeReminders) := by
      rw [ht]
      exact Settled.stop (h.settled.congr rfl rfl rfl rfl)
    refine ⟨?_, fun hw => absurd (hsub.trans hempty) hw.1, fun _ => hoff⟩
    rw [close_not_mem_concat he, ht]
    simpa using h.upgrading
  · have ht : t = { s.system with clients := s.system.clients.set c .closed } := if_neg hempty
    have hwanted : Wanted (es ++ [.disconnect c]) t ↔ Wanted es s.system := by
      unfold Wanted
      rw [close_not_mem_concat he, hsub]
      exact ⟨fun hw => ⟨List.ne_nil_of_mem hc, hw.2⟩, fun hw => ⟨hempty, hw.2⟩⟩
    have hsame : intervals s.system.reminders t.reminders s.activeReminders = s.activeReminders := by
      rw [ht]
      exact intervals_same rfl rfl _
    rw [hsame]
    refine ⟨?_, fun hw => ?_, fun hw => ?_⟩
    · rw [close_not_mem_concat he, ht]
      exact h.upgrading
    · obtain ⟨loop, g, hon⟩ := h.on (hwanted.mp hw)
      rw [ht]
      exact ⟨loop, g, hon.congr rfl rfl rfl rfl⟩
    · rw [ht]
      exact (h.off fun hw' => hw (hwanted.mpr hw')).congr rfl rfl rfl rfl

theorem Inv.close {es : List Event} {s t : Timed} (h : Inv es s) (ht : timedStep s .close = some t) :
    Inv (es ++ [.close]) t := by
  cases ht
  have hmem : Event.close ∈ es ++ [.close] := by simp
  refine ⟨?_, fun hw => absurd hmem hw.2, fun _ => ?_⟩
  · simp
  · have hsettled : Settled { s.system with upgrading := false } s.activeReminders :=
      h.settled.congr rfl rfl rfl rfl
    exact hsettled.stop.congr rfl rfl rfl rfl

theorem inv_step {es : List Event} {s t : Timed} {e : Event} (ht : timedStep s e = some t)
    (h : Inv es s) : Inv (es ++ [e]) t := by
  cases e with
  | close => exact h.close ht
  | upgrade req handshake =>
    obtain ⟨u, hu, rfl⟩ := Option.map_eq_some_iff.mp ht
    cases hu
    split
    · rename_i hopen
      simp only [Bool.and_eq_true] at hopen
      exact h.connect (by simp) hopen.1.1
    · exact h.kept (by simp) rfl rfl rfl rfl rfl rfl rfl
  | closing c =>
    obtain ⟨u, hu, rfl⟩ := Option.map_eq_some_iff.mp ht
    obtain ⟨hc, hu⟩ := socket_cases hu
    cases hu
    exact h.kept (by simp) (subscribers_closing hc) rfl rfl rfl rfl rfl rfl
  | error c =>
    obtain ⟨u, hu, rfl⟩ := Option.map_eq_some_iff.mp ht
    obtain ⟨_, hu⟩ := socket_cases hu
    cases hu
    exact h.kept (by simp) rfl rfl rfl rfl rfl rfl rfl
  | disconnect c =>
    obtain ⟨u, hu, rfl⟩ := Option.map_eq_some_iff.mp ht
    obtain ⟨hc, hu⟩ := socket_cases hu
    cases hu
    exact h.disconnect hc
  | reminders e =>
    obtain ⟨u, hu, rfl⟩ := Option.map_eq_some_iff.mp ht
    have hstart : e ≠ .start := by rintro rfl; cases hu
    have hstop : e ≠ .stop := by rintro rfl; cases hu
    obtain ⟨reminders, hr, rfl⟩ := step_reminders hu
    obtain ⟨hhandle, hstarts⟩ := poll_step_handle hr hstart hstop
    exact h.kept (by simp) rfl rfl hhandle hstarts rfl rfl rfl
  | sessions e =>
    obtain ⟨u, hu, rfl⟩ := Option.map_eq_some_iff.mp ht
    have hstart : e ≠ .start := by rintro rfl; cases hu
    have hstop : ∀ g, e ≠ .stop g := by rintro g rfl; cases hu
    obtain ⟨sessions, hs, rfl⟩ := step_sessions hu
    exact h.kept (by simp) rfl rfl rfl rfl rfl rfl (activeSessions_step hs hstart hstop)

theorem timedStep_system (s : Timed) (e : Event) :
    (timedStep s e).map Timed.system = step s.system e := by
  unfold timedStep
  rw [Option.map_map]
  exact Option.map_id'

/-- After every run of the attachment, the intervals that are set are those that
its clients want, and their handles are held. -/
theorem intervals_track_clients {version : JsString} {todos : List ReminderTodo} {now : Int}
    {disk : Disk} {store : Option TimeseriesStore} {es : List Event} {s : State}
    (h : exec step (init version todos now disk store) es = some s) :
    ∃ active, exec timedStep ⟨init version todos now disk store, []⟩ es = some ⟨s, active⟩ ∧
      Tracks es ⟨s, active⟩ := by
  obtain ⟨⟨s, active⟩, htimed, rfl⟩ := exec_beside (r := ⟨_, []⟩) timedStep_system h
  refine ⟨active, htimed, ?_⟩
  have hinit : Inv [] ⟨init version todos now disk store, []⟩ :=
    ⟨by simp [init], fun hw => absurd rfl hw.1, fun _ => ⟨rfl, rfl, rfl, rfl, rfl⟩⟩
  have hinv : Inv es ⟨s, active⟩ :=
    exec_history (C := fun _ _ => True) hinit (fun _ _ _ _ _ hst _ hi => inv_step hst hi) htimed
      (along_of_forall (fun _ _ _ => trivial) _)
  exact hinv.tracks

/-- A client comes and goes, with an error before; another is there when the server closes. -/
def comings : List Event :=
  let request := .upgrade ⟨js "GET", some (js "localhost"), some (js "/events")⟩ true
  [request, .error 0, .disconnect 0, request, .reminders .timer, .close, .disconnect 1]

theorem intervals_track_comings :
    ∃ s active, exec step (init (js "dev") [] 0 (fun _ => none) none) comings = some s ∧
      exec timedStep ⟨init (js "dev") [] 0 (fun _ => none) none, []⟩ comings = some ⟨s, active⟩ ∧
      Tracks comings ⟨s, active⟩ := by
  obtain ⟨active, htimed, htracks⟩ :=
    @intervals_track_clients (js "dev") [] 0 (fun _ => none) none comings _ rfl
  exact ⟨_, active, rfl, htimed, htracks⟩

end Conductor.Http.ActivePollers
