import Conductor.Http.OneOrder

/-! # A client that connects while a poller is running

It is told what changes from then on and nothing of what it missed. Laid over the
map that the poller had when the client connected, the updates give the poller's
map at every later moment; without that map, the client never hears of a session
whose status stays what it was. -/
namespace Conductor.Http.LateJoiner
open Conductor.Lib.Runs Conductor.Js.Text Conductor.Http.Ws
open Conductor.Sessions.Types (PidMap RefinedStatus)
open Conductor.Http.Server (Request)
open Conductor.Http.SessionsPoller (Update Poller Report updates)
open Conductor.Http.SharedCache (mem_updates)
open Conductor.Http.SubscribedClient

/-- A client that connected when the poller's map was `seed`, after the ticks `new`
have led to the map `current`. -/
structure CaughtUp (seed : PidMap RefinedStatus) (us : List Update) (new : List Report)
    (current : PidMap RefinedStatus) : Prop where
  frames : us = new.flatMap fun r => r.updates
  overlay : ∀ pid status, current.get? pid = some status →
    ((view us).get? pid).or (seed.get? pid) = some status
  untold : ∀ pid, (∀ r ∈ new, r.next.get? pid = seed.get? pid) →
    (view us).get? pid = none ∧ current.get? pid = seed.get? pid

theorem caughtUp_start (seed : PidMap RefinedStatus) : CaughtUp seed [] [] seed :=
  ⟨rfl, fun _ _ h => h, fun _ _ => ⟨rfl, rfl⟩⟩

/-- A status that stays is no update. -/
theorem view_updates_none {prev next : PidMap RefinedStatus} {pid : Int}
    (h : next.get? pid = prev.get? pid) : (view (updates prev next)).get? pid = none := by
  by_contra hsome
  obtain ⟨status, hstatus⟩ := Option.ne_none_iff_exists'.mp hsome
  obtain ⟨u, hu, heq⟩ := List.mem_map.mp (PidMap.mem_of_get? hstatus)
  cases heq
  obtain ⟨hnext, hprev, hne⟩ := mem_updates hu
  rw [← h, hnext] at hprev
  exact hne hprev.symm

variable {seed current : PidMap RefinedStatus} {us : List Update} {new : List Report}

/-- One more tick completes. -/
theorem CaughtUp.tick (h : CaughtUp seed us new current) {r : Report}
    (hr : r.updates = updates current r.next) :
    CaughtUp seed (us ++ r.updates) (new ++ [r]) r.next where
  frames := by rw [h.frames, List.flatMap_append, List.flatMap_singleton]
  overlay pid status hget := by
    have hview : view (us ++ r.updates) = view us ++ view r.updates := List.map_append
    rw [hview, PidMap.get?_append, hr]
    rcases view_updates_get? current hget with hnew | ⟨hnone, hold⟩
    · rw [hnew]
      rfl
    · rw [hnone]
      exact h.overlay pid status hold
  untold pid hsteady := by
    have hbefore := h.untold pid fun q hq => hsteady q (List.mem_append_left _ hq)
    have hnext := hsteady r (List.mem_append_right _ List.mem_cons_self)
    refine ⟨?_, hnext⟩
    have hview : view (us ++ r.updates) = view us ++ view r.updates := List.map_append
    rw [hview, PidMap.get?_append, hbefore.1, hr, view_updates_none (hnext.trans hbefore.2.symm)]
    rfl

/-- Client `c` has the frames after `old`; poller `g` had the reports `past` and the
map `seed` when it connected. -/
structure Joined (c g : Nat) (old : List Frame) (seed : PidMap RefinedStatus) (past : List Report)
    (s : State) : Prop where
  connected : c < s.clients.length
  told : ∃ p frames new, s.sessions.pollers[g]? = some p ∧ s.frames = old ++ frames ∧
    p.reports = past ++ new ∧
    (s.clients[c]? = some .open → CaughtUp seed (received c g frames) new p.prev)

variable {c g : Nat} {old : List Frame} {past : List Report} {s t : State}

theorem Joined.step {e : Event} (h : Joined c g old seed past s) (ht : step s e = some t) :
    Joined c g old seed past t := by
  obtain ⟨p, frames, new, hp, hframes, hreports, htold⟩ := h.told
  obtain ⟨p', us, hp', hticked, frames', hframes', hreceived⟩ := followed_step ht hp
  refine ⟨h.connected.trans_le (length_clients_le ht), ?_⟩
  have hall : t.frames = old ++ (frames ++ frames') := by
    rw [hframes', hframes, List.append_assoc]
  cases hticked with
  | idle hprev hreports' =>
    refine ⟨p', _, new, hp', hall, hreports'.trans hreports, fun hopen => ?_⟩
    rw [received_append, hreceived hopen, hprev, List.append_nil]
    exact htold (open_before ht h.connected hopen)
  | completed r hprev hreports' hupdates =>
    refine ⟨p', _, new ++ [r], hp', hall, ?_, fun hopen => ?_⟩
    · rw [hreports', hreports, List.append_assoc]
    · rw [received_append, hreceived hopen, hprev]
      exact (htold (open_before ht h.connected hopen)).tick hupdates

theorem pollers_ensure {p : Poller} (hp : s.sessions.pollers[g]? = some p) :
    (ensurePollersRunning s).sessions.pollers[g]? = some p := by
  rcases ensurePollersRunning_sessions s with h | h
  · rw [h]
    exact hp
  · rw [h]
    exact (List.getElem?_append_left (List.getElem?_eq_some_iff.mp hp).1).trans hp

theorem joined_connect {p : Poller} (hp : s.sessions.pollers[g]? = some p) :
    Joined s.clients.length g s.frames p.prev p.reports (connect s) := by
  obtain ⟨frames, hframes, hconn⟩ := (handled_connect s).frames
  refine ⟨?_, p, frames, [], pollers_ensure hp, hframes, (List.append_nil _).symm, fun _ => ?_⟩
  · rw [connect, ensurePollersRunning_clients, List.length_append]
    exact Nat.lt_succ_self _
  · rw [received_connection hconn]
    exact caughtUp_start p.prev

/-- Whenever a client connects: as long as its socket is open, it has the updates of
all ticks that the running poller completes from then on. -/
theorem late_client_caughtUp {req : Request} {es : List Event} {p : Poller}
    (hupgrading : s.upgrading = true) (hreq : onUpgrade req = .handleUpgrade)
    (hp : s.sessions.pollers[g]? = some p) (h : exec step s (.upgrade req true :: es) = some t)
    (hopen : t.clients[s.clients.length]? = some .open) :
    ∃ p' frames new, t.sessions.pollers[g]? = some p' ∧ t.frames = s.frames ++ frames ∧
      p'.reports = p.reports ++ new ∧
      CaughtUp p.prev (received s.clients.length g frames) new p'.prev := by
  have hconnect : step s (.upgrade req true) = some (connect s) := by
    simp [step, hupgrading, hreq]
  rw [exec_cons, hconnect] at h
  obtain ⟨p', frames, new, hp', hframes, hreports, htold⟩ :=
    (exec_invariant (fun _ _ _ hst hj => hj.step hst) h (joined_connect hp)).told
  exact ⟨p', frames, new, hp', hframes, hreports, htold hopen⟩

/-- One client, and one tick that found session 100. -/
def oneTick : List Event :=
  [.upgrade request true, .sessions (.ask 0 0 [(js "claude-code", [Sessions.Types.claudeSession])]),
    .sessions (.sched (.read 0 0)), .sessions (.sched (.settle 0)), .sessions (.complete 0 0 .works)]

/-- The next tick finds session 200 beside it. -/
def anotherTick : List Event :=
  [.sessions (.timer 0), .sessions (.sched (.tick 5000)),
    .sessions (.ask 0 1 [(js "claude-code", [Sessions.Types.claudeSession, ⟨200, js "/b", js "b", none, none⟩])]),
    .sessions (.sched (.read 1 0)), .sessions (.sched (.read 1 1)), .sessions (.sched (.settle 1)),
    .sessions (.complete 0 1 .works)]

/-- The second client hears of session 200 and not of session 100. -/
theorem second_client_caughtUp :
    ∃ s t, ∃ p p' : Poller, ∃ frames new, exec step start oneTick = some s ∧
      exec step s (.upgrade request true :: anotherTick) = some t ∧ s.sessions.pollers[0]? = some p ∧
      t.frames = s.frames ++ frames ∧ (received 1 0 t.frames).map (fun u => u.pid) = [200] ∧
      CaughtUp p.prev (received 1 0 frames) new p'.prev := by
  obtain ⟨p', frames, new, -, hframes, -, hcaught⟩ :=
    @late_client_caughtUp 0 ((exec step start oneTick).get rfl) _ request anotherTick _ rfl (by decide)
      rfl rfl rfl
  exact ⟨_, _, _, p', frames, new, rfl, rfl, rfl, hframes, rfl, hcaught⟩

end Conductor.Http.LateJoiner
