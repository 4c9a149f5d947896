import Conductor.Http.PollingOwners
import Conductor.Http.SubscribedClient
import Conductor.Lib.Broadcast

/-! # The clients of an attachment see one order

The reminders loop and the sessions pollers announce on their own, sockets open
and close in between, and every client has its own list of frames. Behind all of
them is one hub: a client's frames are its welcome and then the part of the hub's
log from its connection to the end of its open socket. -/
namespace Conductor.Http.OneOrder
open Conductor.Lib.Runs Conductor.Lib.Broadcast Conductor.Js.Text Conductor.Http.Ws
open Conductor.Http.SessionsPoller (Emission)
open Conductor.Http.SubscribedClient (Administered administered_ensure administered_stop
  administered_maybeStop)
open Conductor.Http.PollingOwners (startReminderPolling_spec announced_prefix)
open Conductor.Sessions.RefinedStatus (Disk)
open Conductor.Timeseries.Store (TimeseriesStore)
open Conductor.Reminders.Poll (ReminderTodo Announcement startReminderPolling stopReminderPolling)

/-! ## Announcements and frames -/

abbrev Announced := Sender × WsEvent

def ofEmission (m : Emission) : Announced := (.sessions m.poller, .sessionsUpdate m.update)

def ofAnnouncement (a : Announcement) : Announced := (.reminders a.loop, .todo a.event)

def emission? : Announced → Option Emission
  | (.sessions poller, .sessionsUpdate update) => some ⟨poller, update⟩
  | _ => none

def announcement? : Announced → Option Announcement
  | (.reminders loop, .todo event) => some ⟨loop, event⟩
  | _ => none

/-- An emission of a sessions poller, or an announcement of the reminders loop. -/
def Announces (a : Announced) : Prop := (∃ m, a = ofEmission m) ∨ ∃ b, a = ofAnnouncement b

/-- The frames of client `c`, without their address. -/
def framesOf (c : Nat) (frames : List Frame) : List Announced :=
  frames.filterMap fun f => if f.client = c then some (f.sender, f.event) else none

def welcome (version : JsString) (serverTime : Int) : Announced :=
  (.connection, .hello (js "agent-conductor") version serverTime)

theorem emission?_map (ms : List Emission) : (ms.map ofEmission).filterMap emission? = ms := by
  rw [List.filterMap_map]
  exact List.filterMap_some

theorem announcement?_map (as : List Announcement) :
    (as.map ofAnnouncement).filterMap announcement? = as := by
  rw [List.filterMap_map]
  exact List.filterMap_some

theorem emission?_reminders (as : List Announcement) :
    (as.map ofAnnouncement).filterMap emission? = [] := by
  rw [List.filterMap_map]
  exact List.filterMap_eq_nil_iff.mpr fun _ _ => rfl

theorem announcement?_sessions (ms : List Emission) :
    (ms.map ofEmission).filterMap announcement? = [] := by
  rw [List.filterMap_map]
  exact List.filterMap_eq_nil_iff.mpr fun _ _ => rfl

theorem framesOf_append (c : Nat) (frames frames' : List Frame) :
    framesOf c (frames ++ frames') = framesOf c frames ++ framesOf c frames' := List.filterMap_append

/-- Nothing is addressed to a client that has not connected. -/
theorem framesOf_unknown {c : Nat} {frames : List Frame} (h : ∀ f ∈ frames, f.client < c) :
    framesOf c frames = [] := by
  refine List.filterMap_eq_nil_iff.mpr fun f hf => ?_
  rw [if_neg (Nat.ne_of_lt (h f hf))]

theorem framesOf_one {l : List Nat} (hl : l.Nodup) (c : Nat) (a : Announced) :
    framesOf c (l.map fun d => ⟨d, a.1, a.2⟩) = if c ∈ l then [a] else [] := by
  unfold framesOf
  rw [List.filterMap_map]
  by_cases hc : c ∈ l
  · rw [if_pos hc]
    exact SubscribedClient.filterMap_once hl hc a
  · rw [if_neg hc]
    refine List.filterMap_eq_nil_iff.mpr fun d hd => ?_
    have hne : d ≠ c := fun heq => hc (heq ▸ hd)
    exact if_neg hne

theorem mem_openClients {s : State} {c : Nat} :
    c ∈ openClients s ↔ s.clients[c]? = some .open := by
  unfold openClients
  rw [List.mem_filter, List.mem_range, decide_eq_true_eq]
  exact ⟨fun h => h.2, fun h => ⟨(List.getElem?_eq_some_iff.mp h).1, h⟩⟩

/-- What is announced goes once, and in its order, to every open socket. -/
theorem framesOf_emit (s : State) (announced : List Announced) (c : Nat) :
    framesOf c (emit s announced).frames =
      framesOf c s.frames ++ if s.clients[c]? = some .open then announced else [] := by
  show framesOf c (s.frames ++ announced.flatMap _) = _
  rw [framesOf_append]
  congr 1
  have hnodup : (openClients s).Nodup := List.nodup_range.filter _
  induction announced with
  | nil => simp [framesOf]
  | cons a announced ih =>
    rw [List.flatMap_cons, framesOf_append, ih, framesOf_one hnodup]
    by_cases hopen : s.clients[c]? = some .open
    · rw [if_pos (mem_openClients.mpr hopen), if_pos hopen, if_pos hopen]
      rfl
    · rw [if_neg (fun h => hopen (mem_openClients.mp h)), if_neg hopen, if_neg hopen]
      rfl

/-! ## The hub behind the attachment -/

structure Refines (s : State) (hub : Hub Announced) : Prop where
  members : hub.members.length = s.clients.length
  present : ∀ (c : Nat) m, hub.members[c]? = some m → (m.left = none ↔ s.clients[c]? = some .open)
  known : ∀ f ∈ s.frames, f.client < s.clients.length
  frames : ∀ (c : Nat) m, hub.members[c]? = some m →
    ∃ serverTime, framesOf c s.frames = welcome s.version serverTime :: hub.inbox m
  sessions : hub.log.filterMap emission? = s.sessions.emitted
  reminders : hub.log.filterMap announcement? = s.reminders.announced
  announced : ∀ a ∈ hub.log, Announces a

theorem refines_init (version : JsString) (todos : List ReminderTodo) (now : Int) (disk : Disk)
    (store : Option TimeseriesStore) : Refines (init version todos now disk store) .empty where
  members := rfl
  present c m h := by cases h
  known f h := by cases h
  frames c m h := by cases h
  sessions := rfl
  reminders := rfl
  announced a h := by cases h

/-- A step that writes no frame: some sockets are no longer open. -/
structure Quiet (s t : State) (gone : Nat → Bool) : Prop where
  version : t.version = s.version
  frames : t.frames = s.frames
  clients : t.clients.length = s.clients.length
  opened : ∀ c : Nat, t.clients[c]? = some .open ↔ s.clients[c]? = some .open ∧ gone c = false
  sessions : t.sessions.emitted = s.sessions.emitted
  reminders : t.reminders.announced = s.reminders.announced

variable {s t : State} {hub : Hub Announced}

theorem Refines.quiet {gone : Nat → Bool} (h : Refines s hub) (q : Quiet s t gone) :
    Refines t (hub.leave gone) where
  members := by
    rw [q.clients, ← h.members]
    exact List.length_mapIdx
  present c m hm := by
    rw [members_leave] at hm
    obtain ⟨m', hm', rfl⟩ := Option.map_eq_some_iff.mp hm
    rw [q.opened, ← h.present c m' hm']
    cases gone c with
    | true => simp [Hub.leaving]
    | false => simp
  known f hf := by
    rw [q.clients]
    exact h.known f (q.frames ▸ hf)
  frames c m hm := by
    rw [members_leave] at hm
    obtain ⟨m', hm', rfl⟩ := Option.map_eq_some_iff.mp hm
    obtain ⟨serverTime, hframes⟩ := h.frames c m' hm'
    refine ⟨serverTime, ?_⟩
    rw [q.frames, q.version, hframes]
    split
    · rfl
    · rfl
  sessions := by rw [q.sessions]; exact h.sessions
  reminders := by rw [q.reminders]; exact h.reminders
  announced := h.announced

/-- A client connects: its welcome is the only new frame. -/
theorem Refines.connect (h : Refines s hub) (serverTime : Int) (hversion : t.version = s.version)
    (hclients : t.clients = s.clients ++ [.open])
    (hframes : t.frames = s.frames ++
      [⟨s.clients.length, .connection, .hello (js "agent-conductor") s.version serverTime⟩])
    (hsessions : t.sessions.emitted = s.sessions.emitted)
    (hreminders : t.reminders.announced = s.reminders.announced) : Refines t hub.join where
  members := by
    rw [hclients, List.length_append, ← h.members]
    exact List.length_append
  present c m hm := by
    have hm : (hub.members ++ [⟨hub.log.length, none⟩])[c]? = some m := hm
    rw [hclients]
    rcases Nat.lt_or_ge c hub.members.length with hlt | hge
    · rw [List.getElem?_append_left hlt] at hm
      rw [List.getElem?_append_left (h.members ▸ hlt)]
      exact h.present c m hm
    · rw [List.getElem?_append_right hge] at hm
      obtain ⟨hlt, hget⟩ := List.getElem?_eq_some_iff.mp hm
      rw [List.length_singleton] at hlt
      rw [List.getElem_singleton] at hget
      have hc : c = s.clients.length := by
        rw [← h.members]
        omega
      subst hget hc
      simp
  known f hf := by
    rw [hclients, List.length_append, List.length_singleton]
    rw [hframes] at hf
    rcases List.mem_append.mp hf with hf | hf
    · exact Nat.lt_succ_of_lt (h.known f hf)
    · rw [List.mem_singleton.mp hf]
      exact Nat.lt_succ_self _
  frames c m hm := by
    have hm : (hub.members ++ [⟨hub.log.length, none⟩])[c]? = some m := hm
    rw [hframes, framesOf_append, hversion]
    rcases Nat.lt_or_ge c hub.members.length with hlt | hge
    · rw [List.getElem?_append_left hlt] at hm
      obtain ⟨time, htime⟩ := h.frames c m hm
      refine ⟨time, ?_⟩
      have hne : s.clients.length ≠ c := by
        rw [← h.members]
        omega
      have hnone : framesOf c [⟨s.clients.length, .connection,
          .hello (js "agent-conductor") s.version serverTime⟩] = [] := by
        simp [framesOf, hne]
      rw [hnone, List.append_nil, htime]
      rfl
    · rw [List.getElem?_append_right hge] at hm
      obtain ⟨hlt, hget⟩ := List.getElem?_eq_some_iff.mp hm
      rw [List.length_singleton] at hlt
      rw [List.getElem_singleton] at hget
      have hc : c = s.clients.length := by
        rw [← h.members]
        omega
      subst hget hc
      refine ⟨serverTime, ?_⟩
      rw [framesOf_unknown h.known, inbox_newcomer]
      simp [framesOf, welcome]
  sessions := by rw [hsessions]; exact h.sessions
  reminders := by rw [hreminders]; exact h.reminders
  announced := h.announced

/-- Something is announced, to the sockets that are open. -/
theorem Refines.emit (h : Refines s hub) (announced : List Announced) (hversion : t.version = s.version)
    (hclients : t.clients = s.clients) (hframes : t.frames = (emit s announced).frames)
    (hsessions : t.sessions.emitted = s.sessions.emitted ++ announced.filterMap emission?)
    (hreminders : t.reminders.announced = s.reminders.announced ++ announced.filterMap announcement?)
    (hsender : ∀ a ∈ announced, Announces a) : Refines t (hub.publish announced) where
  members := by rw [hclients]; exact h.members
  present c m hm := by rw [hclients]; exact h.present c m hm
  known f hf := by
    rw [hclients]
    rw [hframes] at hf
    rcases List.mem_append.mp hf with hf | hf
    · exact h.known f hf
    · obtain ⟨a, -, hf⟩ := List.mem_flatMap.mp hf
      obtain ⟨c, hc, rfl⟩ := List.mem_map.mp hf
      exact (List.getElem?_eq_some_iff.mp (mem_openClients.mp hc)).1
  frames c m hm := by
    obtain ⟨serverTime, htime⟩ := h.frames c m hm
    have hmem : m ∈ hub.members := List.mem_of_getElem? hm
    refine ⟨serverTime, ?_⟩
    rw [hframes, framesOf_emit, htime, hversion]
    cases hleft : m.left with
    | none =>
      rw [if_pos ((h.present c m hm).mp hleft), inbox_publish_present hmem hleft]
      rfl
    | some k =>
      have hclosed : ¬ s.clients[c]? = some .open := by
        rw [← h.present c m hm, hleft]
        exact fun hsome => by cases hsome
      rw [if_neg hclosed, inbox_publish_left hmem hleft, List.append_nil]
  sessions := by
    rw [hsessions, ← h.sessions]
    exact List.filterMap_append
  reminders := by
    rw [hreminders, ← h.reminders]
    exact List.filterMap_append
  announced a ha := by
    rcases List.mem_append.mp ha with ha | ha
    · exact h.announced a ha
    · exact hsender a ha

/-! ## Steps -/

@[simp] theorem ensurePollersRunning_version (s : State) :
    (ensurePollersRunning s).version = s.version := by
  unfold ensurePollersRunning
  split
  · rfl
  · cases s.stopReminders <;> cases h : s.stopSessions <;> simp [h]

@[simp] theorem stopPollers_version (s : State) : (stopPollers s).version = s.version := by
  unfold stopPollers
  cases s.stopReminders <;> cases h : s.stopSessions <;> simp [h]

/-- Starting and stopping a poller emits nothing. -/
theorem emitted_administered {u v : SessionsPoller.State} (h : Administered u v) :
    v.emitted = u.emitted := by
  rcases h with rfl | ⟨e, -, hemitted⟩
  · rfl
  · exact hemitted

theorem announced_ensure (s : State) :
    (ensurePollersRunning s).reminders.announced = s.reminders.announced := by
  rcases ensurePollersRunning_reminders s with h | h
  · rw [h]
  · rw [h]
    exact (startReminderPolling_spec s.reminders).1

theorem announced_stop (s : State) :
    (stopPollers s).reminders.announced = s.reminders.announced := by
  rcases stopPollers_reminders s with h | h
  · rw [h]
  · rw [h]
    rfl

theorem quiet_rfl (s : State) : Quiet s s fun _ => false :=
  ⟨rfl, rfl, rfl, fun _ => (and_iff_left rfl).symm, rfl, rfl⟩

/-- Stopping the pollers leaves the sockets as they are. -/
theorem Quiet.stop {gone : Nat → Bool} (q : Quiet s t gone) : Quiet s (stopPollers t) gone where
  version := (stopPollers_version t).trans q.version
  frames := (stopPollers_frames t).trans q.frames
  clients := by rw [stopPollers_clients]; exact q.clients
  opened c := by rw [stopPollers_clients]; exact q.opened c
  sessions := (emitted_administered (administered_stop t)).trans q.sessions
  reminders := (announced_stop t).trans q.reminders

theorem Quiet.maybeStop {gone : Nat → Bool} (q : Quiet s t gone) : Quiet s (maybeStopPollers t) gone := by
  unfold maybeStopPollers
  split
  · exact q.stop
  · exact q

/-- One socket that is no longer open. -/
theorem quiet_set (s : State) (c : Nat) {r : ReadyState} (hr : r ≠ .open) :
    Quiet s { s with clients := s.clients.set c r } fun d => d == c where
  version := rfl
  frames := rfl
  clients := List.length_set
  opened d := by
    rw [List.getElem?_set]
    by_cases hd : c = d
    · subst hd
      rw [if_pos rfl, beq_self_eq_true]
      refine ⟨fun h => ?_, fun h => by cases h.2⟩
      split at h
      · exact absurd (Option.some.inj h) hr
      · cases h
    · rw [if_neg hd, beq_eq_false_iff_ne.mpr (Ne.symm hd)]
      exact (and_iff_left rfl).symm
  sessions := rfl
  reminders := rfl

/-- The attachment closes: no socket is open any more. -/
theorem quiet_close {u : State} (hu : u = stopPollers { s with upgrading := false }) :
    Quiet s { u with clients := u.clients.map fun r => if r = .open then .closing else r }
      fun _ => true where
  version := by rw [hu]; exact stopPollers_version _
  frames := by rw [hu]; exact stopPollers_frames _
  clients := by
    rw [hu, stopPollers_clients]
    exact List.length_map ..
  opened d := by
    rw [List.getElem?_map]
    refine ⟨fun h => ?_, fun h => by cases h.2⟩
    obtain ⟨r, -, h⟩ := Option.map_eq_some_iff.mp h
    split at h
    · cases h
    · contradiction
  sessions := by rw [hu]; exact emitted_administered (administered_stop { s with upgrading := false })
  reminders := by rw [hu]; exact announced_stop _

/-- What a step of the pollers emits comes after what was emitted before. -/
theorem emitted_prefix {u v : SessionsPoller.State} {e : SessionsPoller.Event}
    (h : SessionsPoller.step u e = some v) :
    v.emitted = u.emitted ++ v.emitted.drop u.emitted.length := by
  rcases SessionsPoller.step_emitted h with ⟨g, k, outcome, p, changed, -, -, hemitted⟩ | hsame
  · rw [hemitted, List.drop_left]
  · rw [hsame, List.drop_length, List.append_nil]

/-- Every step of the attachment is a step of the hub: someone joins, some leave, or
something is published. -/
theorem Refines.step {e : Event} (h : Refines s hub) (hstep : step s e = some t) :
    ∃ hub', Refines t hub' := by
  cases e with
  | upgrade req handshake =>
    cases hstep
    split
    · refine ⟨_, h.connect s.sessions.sched.now ?_ ?_ ?_ ?_ ?_⟩
      · exact ensurePollersRunning_version _
      · exact ensurePollersRunning_clients _
      · exact ensurePollersRunning_frames _
      · exact emitted_administered (administered_ensure _)
      · exact announced_ensure _
    · exact ⟨_, h.quiet (quiet_rfl s)⟩
  | closing c =>
    obtain ⟨-, hstep⟩ := socket_cases hstep
    cases hstep
    exact ⟨_, h.quiet (quiet_set s c (by decide))⟩
  | error c =>
    obtain ⟨-, hstep⟩ := socket_cases hstep
    cases hstep
    exact ⟨_, h.quiet (quiet_rfl s)⟩
  | disconnect c =>
    obtain ⟨-, hstep⟩ := socket_cases hstep
    cases hstep
    exact ⟨_, h.quiet (quiet_set s c (by decide)).maybeStop⟩
  | close =>
    cases hstep
    exact ⟨_, h.quiet (quiet_close rfl)⟩
  | reminders e =>
    obtain ⟨reminders, hr, rfl⟩ := step_reminders hstep
    refine ⟨_, h.emit ((reminders.announced.drop s.reminders.announced.length).map ofAnnouncement) rfl rfl rfl ?_ ?_ ?_⟩
    · rw [emission?_reminders, List.append_nil]
      rfl
    · rw [announcement?_map]
      exact announced_prefix hr
    · intro a ha
      obtain ⟨b, -, rfl⟩ := List.mem_map.mp ha
      exact .inr ⟨b, rfl⟩
  | sessions e =>
    obtain ⟨sessions, hs, rfl⟩ := step_sessions hstep
    refine ⟨_, h.emit ((sessions.emitted.drop s.sessions.emitted.length).map ofEmission) rfl rfl rfl ?_ ?_ ?_⟩
    · rw [emission?_map]
      exact emitted_prefix hs
    · rw [announcement?_sessions, List.append_nil]
      rfl
    · intro a ha
      obtain ⟨m, -, rfl⟩ := List.mem_map.mp ha
      exact .inl ⟨m, rfl⟩

/-! ## Runs -/

/-- One log of all announcements, each sender's in its own order, of which every
client has a part without gaps: from its connection on, and to the end of the log
while its socket is open. -/
structure OneLog (t : State) (log : List Announced) : Prop where
  sessions : log.filterMap emission? = t.sessions.emitted
  reminders : log.filterMap announcement? = t.reminders.announced
  announced : ∀ a ∈ log, Announces a
  part : ∀ c < t.clients.length, ∃ serverTime missed got later,
    framesOf c t.frames = welcome t.version serverTime :: got ∧ log = missed ++ got ++ later ∧
      (t.clients[c]? = some .open → later = [])
  suffix : ∀ c d, c ≤ d → t.clients[c]? = some .open → t.clients[d]? = some .open →
    (framesOf d t.frames).tail <:+ (framesOf c t.frames).tail

theorem Refines.member (h : Refines t hub) {c : Nat} (hc : c < t.clients.length) :
    ∃ m, hub.members[c]? = some m := by
  rw [← h.members] at hc
  exact ⟨_, List.getElem?_eq_getElem hc⟩

theorem Refines.oneLog (h : Refines t hub) : OneLog t hub.log where
  sessions := h.sessions
  reminders := h.reminders
  announced := h.announced
  part c hc := by
    obtain ⟨m, hm⟩ := h.member hc
    obtain ⟨serverTime, hframes⟩ := h.frames c m hm
    refine ⟨serverTime, _, _, _, hframes, log_eq (List.mem_of_getElem? hm), fun hopen => ?_⟩
    rw [stop_of_present ((h.present c m hm).mpr hopen)]
    exact List.drop_length
  suffix c d hcd hc hd := by
    obtain ⟨m, hm⟩ := h.member (List.getElem?_eq_some_iff.mp hc).1
    obtain ⟨n, hn⟩ := h.member (List.getElem?_eq_some_iff.mp hd).1
    obtain ⟨_, hframesm⟩ := h.frames c m hm
    obtain ⟨_, hframesn⟩ := h.frames d n hn
    rw [hframesm, hframesn]
    exact inbox_suffix hcd hm hn ((h.present c m hm).mpr hc) ((h.present d n hn).mpr hd)

/-- In every run of an attachment all clients follow one log of announcements. -/
theorem clients_follow_oneLog {version : JsString} {todos : List ReminderTodo} {now : Int} {disk : Disk}
    {store : Option TimeseriesStore} {es : List Event} {t : State}
    (h : exec step (init version todos now disk store) es = some t) : ∃ log, OneLog t log := by
  have hrefines : ∃ hub, Refines t hub := by
    refine exec_invariant (I := fun s => ∃ hub, Refines s hub) (fun s e u hstep hs => ?_) h ⟨_, refines_init ..⟩
    obtain ⟨hub, hs⟩ := hs
    exact hs.step hstep
  obtain ⟨hub, hhub⟩ := hrefines
  exact ⟨hub.log, hhub.oneLog⟩

/-- A second client connects while a first tick is under way, and the first leaves
before the second tick. -/
def twoClients : List Event :=
  [.upgrade SubscribedClient.request true,
    .sessions (.ask 0 0 [(js "claude-code", [Sessions.Types.claudeSession])]),
    .sessions (.sched (.read 0 0)), .sessions (.sched (.settle 0)), .sessions (.complete 0 0 .works),
    .upgrade SubscribedClient.request true, .reminders (.read 0), .reminders (.resume 0), .closing 0]

theorem twoClients_follow :
    ∃ t log, exec step (init (js "dev") [⟨js "1", js "Ship", js "AgentTasks", none, none, .finite 0, false,
        ⟨none, none, none⟩⟩] 0 (fun _ => none) none) twoClients = some t ∧
      (framesOf 0 t.frames).length = 3 ∧ (framesOf 1 t.frames).length = 2 ∧ OneLog t log := by
  obtain ⟨log, hlog⟩ := @clients_follow_oneLog (js "dev") [⟨js "1", js "Ship", js "AgentTasks", none, none,
    .finite 0, false, ⟨none, none, none⟩⟩] 0 (fun _ => none) none twoClients _ rfl
  exact ⟨_, log, rfl, rfl, rfl, hlog⟩

end Conductor.Http.OneOrder
