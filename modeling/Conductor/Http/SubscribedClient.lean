import Conductor.Http.SharedCache
import Conductor.Http.Ws

/-! # A client that subscribed when its poller started

Such a client gets every update that the poller emits, for as long as its socket
is open, and a tick either completes with all of its effects or has none. What
the client has folded together is then never behind the poller's own map. -/
namespace Conductor.Http.SubscribedClient
open Conductor.Lib.Runs Conductor.Js.Text Conductor.Http.Ws
open Conductor.Sessions.Types (PidMap RefinedStatus)
open Conductor.Sessions.RefinedStatus (Disk)
open Conductor.Timeseries.Store (TimeseriesStore)
open Conductor.Reminders.Poll (ReminderTodo)
open Conductor.Http.Server (Request)
open Conductor.Http.SessionsPoller (Update Emission Poller Report Found updates updatePoller_cases
  askTick_cases completeTick_cases reportOf failTick_cases startSessionsDiffPoller)
open Conductor.Http.SharedCache (lastMap lastMap_snoc mem_updates)

/-! ## What the client is told -/

/-- The payloads of the `sessions:update` frames that client `c` has from poller `g`. -/
def received (c g : Nat) (frames : List Frame) : List Update :=
  frames.filterMap fun f => match f with
    | ⟨client, .sessions poller, .sessionsUpdate u⟩ => if client = c ∧ poller = g then some u else none
    | _ => none

/-- The statuses by pid, after one update after the other. -/
def view (us : List Update) : PidMap RefinedStatus := us.map fun u => (u.pid, u.refinedStatus)

/-- What the client was told by a poller whose completed ticks are the reports. -/
structure Told (us : List Update) (reports : List Report) : Prop where
  frames : us = reports.flatMap fun r => r.updates
  folded : ∀ pid status, (lastMap reports).get? pid = some status → (view us).get? pid = some status
  previous : ∀ (i : Nat) r, reports[i]? = some r → ∀ u ∈ r.updates,
    u.previous = (lastMap (reports.take i)).get? u.pid ∧ u.previous ≠ some u.refinedStatus
  once : ∀ r ∈ reports, (r.updates.map fun u => u.pid).Nodup

/-! ## The updates of one tick -/

theorem updates_nodup (prev next : PidMap RefinedStatus) :
    ((updates prev next).map fun u => u.pid).Nodup := by
  have hkeys : (next.entries.map Prod.fst).Nodup := by
    rw [PidMap.entries_keys]
    exact Sessions.Types.nodup_eraseDups _
  refine hkeys.sublist ?_
  unfold updates
  induction next.entries with
  | nil => exact .slnil
  | cons e es ih =>
    rw [List.filterMap_cons]
    split
    · exact ih.cons _
    · rename_i u hu
      split at hu
      · cases hu
        exact ih.cons_cons _
      · cases hu

/-- An update gives the pid's new status, and without one the status is the old. -/
theorem view_updates_get? (prev : PidMap RefinedStatus) {next : PidMap RefinedStatus} {pid : Int} {status : RefinedStatus}
    (h : next.get? pid = some status) :
    (view (updates prev next)).get? pid = some status ∨
      (view (updates prev next)).get? pid = none ∧ prev.get? pid = some status := by
  by_cases hprev : prev.get? pid = some status
  · right
    refine ⟨?_, hprev⟩
    by_contra hsome
    obtain ⟨st, hst⟩ := Option.ne_none_iff_exists'.mp hsome
    obtain ⟨u, hu, heq⟩ := List.mem_map.mp (PidMap.mem_of_get? hst)
    cases heq
    obtain ⟨hnext, hprevu, hne⟩ := mem_updates hu
    rw [h] at hnext
    rw [hprev] at hprevu
    exact hne (hprevu.symm.trans hnext)
  · left
    have hmem : (⟨pid, status, prev.get? pid⟩ : Update) ∈ updates prev next := by
      refine List.mem_filterMap.mpr ⟨(pid, status), PidMap.mem_entries.mpr h, ?_⟩
      rw [if_pos hprev]
    refine PidMap.get?_of_mem ?_ (List.mem_map.mpr ⟨_, hmem, rfl⟩)
    have hkeys : (view (updates prev next)).map Prod.fst = (updates prev next).map fun u => u.pid := by
      unfold view
      rw [List.map_map]
      rfl
    rw [hkeys]
    exact updates_nodup prev next

theorem told_nil : Told [] [] where
  frames := rfl
  folded pid status h := by cases h
  previous i r h := by simp at h
  once r hr := by cases hr

/-- One more tick completes. -/
theorem Told.tick {us : List Update} {reports : List Report} {r : Report} (h : Told us reports)
    (hr : r.updates = updates (lastMap reports) r.next) :
    Told (us ++ r.updates) (reports ++ [r]) where
  frames := by
    rw [h.frames, List.flatMap_append, List.flatMap_singleton]
  folded pid status hget := by
    rw [lastMap_snoc] at hget
    have hview : view (us ++ r.updates) = view us ++ view r.updates := List.map_append
    rw [hview, PidMap.get?_append, hr]
    rcases view_updates_get? (lastMap reports) hget with hnew | ⟨hnone, hold⟩
    · rw [hnew]
      rfl
    · rw [hnone]
      exact h.folded pid status hold
  previous i r' hi u hu := by
    rw [List.getElem?_append] at hi
    split at hi
    · rename_i hlt
      rw [List.take_append_of_le_length (Nat.le_of_lt hlt)]
      exact h.previous i r' hi u hu
    · obtain ⟨hlt, hget⟩ := List.getElem?_eq_some_iff.mp hi
      rw [List.length_singleton] at hlt
      rw [List.getElem_singleton] at hget
      have hi' : i = reports.length := by omega
      subst hget
      rw [hi', List.take_left]
      rw [hr] at hu
      obtain ⟨-, hprev, hne⟩ := mem_updates hu
      exact ⟨hprev.symm, hne⟩
  once r' hr' := by
    rcases List.mem_append.mp hr' with hold | hnew
    · exact h.once r' hold
    · rw [List.mem_singleton.mp hnew, hr]
      exact updates_nodup _ _

/-! ## Steps -/

def emittedBy (g : Nat) (ms : List Emission) : List Update :=
  ms.filterMap fun m => if m.poller = g then some m.update else none

theorem emittedBy_map (g g' : Nat) (us : List Update) :
    emittedBy g (us.map fun u => ⟨g', u⟩) = if g' = g then us else [] := by
  unfold emittedBy
  rw [List.filterMap_map]
  by_cases h : g' = g
  · subst h
    simp
  · simp [h]

/-- What one step is to a poller: it completed a tick and emitted its updates, or
it emitted nothing. -/
inductive Ticked (p : Poller) : Poller → List Update → Prop
  | idle {p' : Poller} (prev : p'.prev = p.prev) (reports : p'.reports = p.reports) : Ticked p p' []
  | completed {p' : Poller} (r : Report) (prev : p'.prev = r.next)
      (reports : p'.reports = p.reports ++ [r]) (updates : r.updates = updates p.prev r.next) :
      Ticked p p' r.updates

/-- A step at one poller, seen from another or from itself. -/
theorem ticked_set {s : SessionsPoller.State} {g g' : Nat} {p q q' : Poller} {us : List Update}
    (hp : s.pollers[g]? = some p) (hq : s.pollers[g']? = some q) (hticked : Ticked q q' us) :
    ∃ p', (s.pollers.set g' q')[g]? = some p' ∧ Ticked p p' (if g' = g then us else []) := by
  by_cases h : g' = g
  · subst h
    cases hp.symm.trans hq
    have hlt : g' < s.pollers.length := (List.getElem?_eq_some_iff.mp hp).1
    refine ⟨q', List.getElem?_set_self hlt, ?_⟩
    rw [if_pos rfl]
    exact hticked
  · refine ⟨p, ?_, ?_⟩
    · rw [List.getElem?_set_ne h]
      exact hp
    · rw [if_neg h]
      exact .idle rfl rfl

/-- A step that changes one poller, and neither its map nor its reports. -/
theorem poller_quiet {s t : SessionsPoller.State} {g g' : Nat} {p q q' : Poller}
    (hp : s.pollers[g]? = some p) (hq : s.pollers[g']? = some q)
    (hpollers : t.pollers = s.pollers.set g' q') (hemitted : t.emitted = s.emitted)
    (hprev : q'.prev = q.prev) (hreports : q'.reports = q.reports) :
    ∃ p' new, t.pollers[g]? = some p' ∧ t.emitted = s.emitted ++ new ∧
      Ticked p p' (emittedBy g new) := by
  obtain ⟨p', hp', hticked⟩ := ticked_set hp hq (.idle hprev hreports)
  rw [ite_self] at hticked
  refine ⟨p', [], ?_, ?_, hticked⟩
  · rw [hpollers]
    exact hp'
  · rw [hemitted, List.append_nil]

theorem poller_step {s t : SessionsPoller.State} {e : SessionsPoller.Event} {g : Nat} {p : Poller}
    (h : SessionsPoller.step s e = some t) (hp : s.pollers[g]? = some p) :
    ∃ p' new, t.pollers[g]? = some p' ∧ t.emitted = s.emitted ++ new ∧ Ticked p p' (emittedBy g new) := by
  cases e with
  | sched e =>
    obtain ⟨sched, _, rfl⟩ := Option.map_eq_some_iff.mp h
    exact ⟨p, [], hp, (List.append_nil _).symm, .idle rfl rfl⟩
  | start =>
    cases h
    refine ⟨p, [], ?_, (List.append_nil _).symm, .idle rfl rfl⟩
    exact (List.getElem?_append_left (List.getElem?_eq_some_iff.mp hp).1).trans hp
  | stop g' =>
    obtain ⟨q, q', hq, hq', rfl⟩ := updatePoller_cases h
    cases hq'
    exact poller_quiet hp hq rfl rfl rfl rfl
  | timer g' =>
    obtain ⟨q, q', hq, hq', rfl⟩ := updatePoller_cases h
    split at hq'
    · cases hq'
    · cases hq'
      exact poller_quiet hp hq rfl rfl rfl rfl
  | ask g' k found =>
    obtain ⟨q, sched, hq, _, _, rfl⟩ := askTick_cases h
    exact poller_quiet hp hq rfl rfl rfl rfl
  | complete g' k outcome =>
    obtain ⟨q, found, askedAt, next, hq, _, hpollers, _, _, hemitted⟩ := completeTick_cases h
    let r := reportOf s q found askedAt next outcome
    have hcompleted : Ticked q
        { q with prev := next, ticks := q.ticks.set k .completed, reports := q.reports ++ [r] }
        r.updates := .completed r rfl rfl rfl
    obtain ⟨p', hp', hticked⟩ := ticked_set hp hq hcompleted
    refine ⟨p', _, by rw [hpollers]; exact hp', hemitted, ?_⟩
    rw [emittedBy_map]
    exact hticked
  | fail g' k =>
    obtain ⟨q, q', hq, hq', rfl⟩ := updatePoller_cases h
    rw [failTick_cases hq']
    exact poller_quiet hp hq rfl rfl rfl rfl
  | closeStore =>
    cases h
    exact ⟨p, [], hp, (List.append_nil _).symm, .idle rfl rfl⟩

/-! ## The socket and the frames -/

theorem received_append (c g : Nat) (frames frames' : List Frame) :
    received c g (frames ++ frames') = received c g frames ++ received c g frames' :=
  List.filterMap_append

/-- The welcome frame is no update. -/
theorem received_connection {c g : Nat} {frames : List Frame}
    (h : ∀ f ∈ frames, f.sender = .connection) : received c g frames = [] := by
  refine List.filterMap_eq_nil_iff.mpr fun f hf => ?_
  obtain ⟨client, sender, event⟩ := f
  have hsender : sender = .connection := h _ hf
  subst hsender
  rfl

theorem filterMap_once {α β : Type} [DecidableEq α] {l : List α} {a : α} (hl : l.Nodup) (ha : a ∈ l)
    (b : β) : (l.filterMap fun x => if x = a then some b else none) = [b] := by
  induction l with
  | nil => cases ha
  | cons x l ih =>
    obtain ⟨hx, hl⟩ := List.nodup_cons.mp hl
    by_cases hxa : x = a
    · subst hxa
      have hrest : (l.filterMap fun y => if y = x then some b else none) = [] := by
        refine List.filterMap_eq_nil_iff.mpr fun y hy => ?_
        rw [if_neg]
        rintro rfl
        exact hx hy
      rw [List.filterMap_cons, if_pos rfl, hrest]
    · have hmem : a ∈ l := (List.mem_cons.mp ha).resolve_left fun h => hxa h.symm
      rw [List.filterMap_cons, if_neg hxa]
      exact ih hl hmem

/-- An update of poller `g` among what is announced. -/
def updateOf (g : Nat) (a : Sender × WsEvent) : Option Update :=
  match a with
  | (.sessions poller, .sessionsUpdate u) => if poller = g then some u else none
  | _ => none

theorem received_one {l : List Nat} {c : Nat} (hl : l.Nodup) (hc : c ∈ l) (g : Nat)
    (a : Sender × WsEvent) :
    received c g (l.map fun d => ⟨d, a.1, a.2⟩) = (updateOf g a).toList := by
  obtain ⟨sender, event⟩ := a
  unfold received
  rw [List.filterMap_map]
  cases sender with
  | connection => exact List.filterMap_eq_nil_iff.mpr fun _ _ => rfl
  | reminders loop => exact List.filterMap_eq_nil_iff.mpr fun _ _ => rfl
  | sessions poller =>
    cases event with
    | hello name version time => exact List.filterMap_eq_nil_iff.mpr fun _ _ => rfl
    | todo payload => exact List.filterMap_eq_nil_iff.mpr fun _ _ => rfl
    | sessionsUpdate u =>
      by_cases hg : poller = g
      · subst hg
        have honce := filterMap_once hl hc u
        simpa [updateOf, Function.comp_def] using honce
      · simp [updateOf, hg]

/-- What is announced is written once to an open socket. -/
theorem received_emit {s : State} {c : Nat} (hc : s.clients[c]? = some .open) (g : Nat)
    (announced : List (Sender × WsEvent)) :
    received c g (announced.flatMap fun a => (openClients s).map fun c => ⟨c, a.1, a.2⟩) =
      announced.filterMap (updateOf g) := by
  have hmem : c ∈ openClients s := by
    refine List.mem_filter.mpr ⟨?_, by simpa using hc⟩
    exact List.mem_range.mpr (List.getElem?_eq_some_iff.mp hc).1
  have hnodup : (openClients s).Nodup := List.nodup_range.filter _
  induction announced with
  | nil => rfl
  | cons a announced ih =>
    rw [List.flatMap_cons, received_append, ih, received_one hnodup hmem, List.filterMap_cons]
    cases updateOf g a <;> rfl

theorem updateOf_sessions (g : Nat) (ms : List Emission) :
    (ms.map fun m => (Sender.sessions m.poller, WsEvent.sessionsUpdate m.update)).filterMap (updateOf g) =
      emittedBy g ms := List.filterMap_map

theorem updateOf_reminders (g : Nat) (as : List Reminders.Poll.Announcement) :
    (as.map fun a => (Sender.reminders a.loop, WsEvent.todo a.event)).filterMap (updateOf g) = [] := by
  rw [List.filterMap_map]
  exact List.filterMap_eq_nil_iff.mpr fun _ _ => rfl

section Step

variable {s t : State} {e : Event} {c g : Nat} {p : Poller}

theorem open_of_set {clients : List ReadyState} {d : Nat} {r : ReadyState} (hr : r ≠ .open)
    (h : (clients.set d r)[c]? = some .open) : clients[c]? = some .open := by
  rw [List.getElem?_set] at h
  split at h
  · split at h
    · exact absurd (Option.some.inj h) hr
    · cases h
  · exact h

/-- A socket that is open was open before, since it connected. -/
theorem open_before (h : step s e = some t) (hlt : c < s.clients.length)
    (hopen : t.clients[c]? = some .open) : s.clients[c]? = some .open := by
  cases e with
  | upgrade req handshake =>
    cases h
    split at hopen
    · rw [connect, ensurePollersRunning_clients] at hopen
      exact (List.getElem?_append_left hlt).symm.trans hopen
    · exact hopen
  | closing d =>
    obtain ⟨_, h⟩ := socket_cases h
    cases h
    exact open_of_set (by decide) hopen
  | error d =>
    obtain ⟨_, h⟩ := socket_cases h
    cases h
    exact hopen
  | disconnect d =>
    obtain ⟨_, h⟩ := socket_cases h
    cases h
    rw [maybeStopPollers_clients] at hopen
    exact open_of_set (by decide) hopen
  | close =>
    cases h
    simp only [stopPollers_clients, List.getElem?_map, Option.map_eq_some_iff] at hopen
    obtain ⟨r, hr, hopen⟩ := hopen
    split at hopen
    · cases hopen
    · rw [hr, hopen]
  | reminders e =>
    obtain ⟨reminders, _, rfl⟩ := step_reminders h
    exact hopen
  | sessions e =>
    obtain ⟨sessions, _, rfl⟩ := step_sessions h
    exact hopen

theorem length_clients_le (h : step s e = some t) : s.clients.length ≤ t.clients.length := by
  cases e with
  | upgrade req handshake =>
    cases h
    split
    · rw [connect, ensurePollersRunning_clients, List.length_append]
      exact Nat.le_add_right _ _
    · exact le_refl _
  | closing d =>
    obtain ⟨_, h⟩ := socket_cases h
    cases h
    simp
  | error d =>
    obtain ⟨_, h⟩ := socket_cases h
    cases h
    exact le_refl _
  | disconnect d =>
    obtain ⟨_, h⟩ := socket_cases h
    cases h
    simp
  | close =>
    cases h
    simp
  | reminders e =>
    obtain ⟨reminders, _, rfl⟩ := step_reminders h
    exact le_refl _
  | sessions e =>
    obtain ⟨sessions, _, rfl⟩ := step_sessions h
    exact le_refl _

/-- The pollers are as they were, or one of them was started or stopped. -/
def Administered (u v : SessionsPoller.State) : Prop :=
  v = u ∨ ∃ e, SessionsPoller.step u e = some v ∧ v.emitted = u.emitted

theorem administered_ensure (s : State) : Administered s.sessions (ensurePollersRunning s).sessions := by
  rcases ensurePollersRunning_sessions s with h | h
  · exact .inl h
  · rw [h]
    exact .inr ⟨.start, rfl, rfl⟩

theorem administered_stop (s : State) : Administered s.sessions (stopPollers s).sessions := by
  rcases stopPollers_sessions s with h | ⟨g, h⟩
  · exact .inl h
  · refine .inr ⟨.stop g, h, ?_⟩
    obtain ⟨p, p', _, _, ht⟩ := updatePoller_cases h
    rw [ht]

theorem administered_maybeStop (s : State) : Administered s.sessions (maybeStopPollers s).sessions := by
  unfold maybeStopPollers
  split
  · exact administered_stop s
  · exact .inl rfl

/-- What one step of the attachment is to a client and a poller. -/
structure Followed (c g : Nat) (p : Poller) (s t : State) (p' : Poller) (us : List Update) : Prop where
  poller : t.sessions.pollers[g]? = some p'
  ticked : Ticked p p' us
  frames : ∃ frames, t.frames = s.frames ++ frames ∧
    (t.clients[c]? = some .open → received c g frames = us)

theorem followed_administered (hp : s.sessions.pollers[g]? = some p)
    (hsessions : Administered s.sessions t.sessions)
    (hframes : ∃ frames, t.frames = s.frames ++ frames ∧ ∀ f ∈ frames, f.sender = .connection) :
    ∃ p' us, Followed c g p s t p' us := by
  obtain ⟨frames, hframes, hconn⟩ := hframes
  rcases hsessions with h | ⟨e, h, hemitted⟩
  · exact ⟨p, [], by rw [h]; exact hp, .idle rfl rfl, frames, hframes,
      fun _ => received_connection hconn⟩
  · obtain ⟨p', new, hp', hnew, hticked⟩ := poller_step h hp
    have hnil : new = [] := by
      rw [hemitted] at hnew
      exact List.self_eq_append_right.mp hnew
    subst hnil
    exact ⟨p', [], hp', hticked, frames, hframes, fun _ => received_connection hconn⟩

theorem followed_step (h : step s e = some t)
    (hp : s.sessions.pollers[g]? = some p) : ∃ p' us, Followed c g p s t p' us := by
  have none_new : ∃ frames, s.frames = s.frames ++ frames ∧ ∀ f ∈ frames, f.sender = .connection :=
    ⟨[], (List.append_nil _).symm, fun f hf => by cases hf⟩
  cases e with
  | upgrade req handshake =>
    cases h
    split
    · exact followed_administered hp (administered_ensure _) (handled_connect s).frames
    · exact followed_administered hp (.inl rfl) none_new
  | closing d =>
    obtain ⟨_, h⟩ := socket_cases h
    cases h
    exact followed_administered hp (.inl rfl) none_new
  | error d =>
    obtain ⟨_, h⟩ := socket_cases h
    cases h
    exact followed_administered hp (.inl rfl) none_new
  | disconnect d =>
    obtain ⟨_, h⟩ := socket_cases h
    cases h
    exact followed_administered hp (administered_maybeStop _) (handled_maybeStop _).frames
  | close =>
    cases h
    exact followed_administered hp (administered_stop _) (by simp)
  | reminders e =>
    obtain ⟨reminders, _, rfl⟩ := step_reminders h
    refine ⟨p, [], hp, .idle rfl rfl, _, rfl, fun hopen => ?_⟩
    exact (received_emit hopen g _).trans (updateOf_reminders g _)
  | sessions e =>
    obtain ⟨sessions, hs, rfl⟩ := step_sessions h
    obtain ⟨p', new, hp', hnew, hticked⟩ := poller_step hs hp
    refine ⟨p', _, hp', hticked, _, rfl, fun hopen => ?_⟩
    refine (received_emit hopen g _).trans ((updateOf_sessions g _).trans ?_)
    rw [hnew, List.drop_left]

end Step

/-! ## Runs -/

/-- Client `c` has the frames after `old`, and as long as its socket is open it was
told all that poller `g` reported. -/
structure Following (c g : Nat) (old : List Frame) (s : State) : Prop where
  connected : c < s.clients.length
  told : ∃ p frames, s.sessions.pollers[g]? = some p ∧ p.prev = lastMap p.reports ∧
    s.frames = old ++ frames ∧ (s.clients[c]? = some .open → Told (received c g frames) p.reports)

theorem Following.step {c g : Nat} {old : List Frame} {s t : State} {e : Event}
    (h : Following c g old s) (ht : step s e = some t) : Following c g old t := by
  obtain ⟨p, frames, hp, hprev, hframes, htold⟩ := h.told
  obtain ⟨p', us, hp', hticked, frames', hframes', hreceived⟩ := followed_step ht hp
  refine ⟨h.connected.trans_le (length_clients_le ht), p', frames ++ frames', hp', ?_, ?_, ?_⟩
  · cases hticked with
    | idle hprev' hreports => rw [hprev', hreports, hprev]
    | completed r hprev' hreports _ => rw [hprev', hreports, lastMap_snoc]
  · rw [hframes', hframes, List.append_assoc]
  · intro hopen
    have hbefore := htold (open_before ht h.connected hopen)
    rw [received_append, hreceived hopen]
    cases hticked with
    | idle _ hreports =>
      rw [hreports, List.append_nil]
      exact hbefore
    | completed r _ hreports hupdates =>
      rw [hreports]
      rw [hprev] at hupdates
      exact hbefore.tick hupdates

/-- The client that connects while no sessions poller is running starts one. -/
theorem following_connect {s : State} (hidle : s.stopSessions = none) :
    Following s.clients.length s.sessions.pollers.length s.frames (connect s) := by
  have hmem : s.clients.length ∈ subscribers { s with clients := s.clients ++ [.open] } :=
    mem_subscribers.mpr (by simp)
  have hsessions : (connect s).sessions = startSessionsDiffPoller s.sessions :=
    ensurePollersRunning_startsSessions (List.ne_nil_of_mem hmem) hidle
  refine ⟨?_, ⟨false, [], [.discovering], []⟩, ?_⟩
  · rw [connect, ensurePollersRunning_clients, List.length_append]
    exact Nat.lt_succ_self _
  · obtain ⟨frames, hframes, hconn⟩ := (handled_connect s).frames
    refine ⟨frames, ?_, rfl, hframes, fun _ => ?_⟩
    · rw [hsessions]
      exact List.getElem?_concat_length
    · rw [received_connection hconn]
      exact told_nil

/-- A client with an open socket was told every completed tick of the poller that
was started for it: its folded view has the statuses of the last of them. -/
theorem subscriber_told {s t : State} {req : Request} {es : List Event}
    (hupgrading : s.upgrading = true) (hreq : onUpgrade req = .handleUpgrade)
    (hidle : s.stopSessions = none) (h : exec step s (.upgrade req true :: es) = some t)
    (hopen : t.clients[s.clients.length]? = some .open) :
    ∃ p frames, t.sessions.pollers[s.sessions.pollers.length]? = some p ∧
      t.frames = s.frames ++ frames ∧
      Told (received s.clients.length s.sessions.pollers.length frames) p.reports := by
  have hconnect : step s (.upgrade req true) = some (connect s) := by
    simp [step, hupgrading, hreq]
  rw [exec_cons, hconnect] at h
  obtain ⟨p, frames, hp, -, hframes, htold⟩ :=
    (exec_invariant (fun _ _ _ hst hf => hf.step hst) h (following_connect hidle)).told
  exact ⟨p, frames, hp, hframes, htold hopen⟩

def start : State := init (js "dev") [] 0 (fun _ => none) none

def request : Request := ⟨js "GET", some (js "localhost"), some (js "/events")⟩

/-- Two ticks; the session of the first has exited when the second asks. -/
def twoTicks : List Event :=
  [.sessions (.ask 0 0 [(js "claude-code", [Sessions.Types.claudeSession])]),
    .sessions (.sched (.read 0 0)), .sessions (.sched (.settle 0)), .sessions (.complete 0 0 .works),
    .sessions (.timer 0), .sessions (.sched (.tick 5000)), .sessions (.ask 0 1 []),
    .sessions (.sched (.settle 1)), .sessions (.complete 0 1 .works)]

theorem subscriber_told_twoTicks :
    ∃ t p frames, exec step start (.upgrade request true :: twoTicks) = some t ∧
      t.sessions.pollers[0]? = some p ∧ p.reports.length = 2 ∧ t.frames = [] ++ frames ∧
      Told (received 0 0 frames) p.reports := by
  obtain ⟨p, frames, hp, hframes, htold⟩ :=
    @subscriber_told start _ request twoTicks rfl (by decide) rfl rfl rfl
  cases hp
  exact ⟨_, _, frames, rfl, rfl, rfl, hframes, htold⟩

end Conductor.Http.SubscribedClient
