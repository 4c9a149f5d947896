import Conductor.Lib.Once
import Conductor.Lib.Runs
import Mathlib.Data.List.Basic

/-! # Closing the server and the daemon

`gracefulClose` sets its flag before it waits for the responses in flight and for
the server, and every later call returns at once. The daemon's `close` does the
same around the websocket clients, the server and the store. Which response ends
when, when a budget expires and when a pending call continues is the choice of
the events. -/
namespace Conductor.Http.Shutdown
open Conductor.Lib.Runs Conductor.Lib.Once

/-! ## The system -/

/-- What `gracefulClose` resolves to. -/
structure DrainReport where
  drained : Bool
  inflightAtStart : Nat
  inflightAtEnd : Nat
  deriving DecidableEq

structure ShutdownReport where
  httpDrained : Bool
  inflightAtStart : Nat
  wsClientsClosed : Nat
  elapsedMs : Int
  samplesWritten : Nat
  deriving DecidableEq

/-- A call of `gracefulClose`. -/
inductive Call
  /-- It waits for the `close` of the responses that were in flight when it was made. -/
  | draining (inflightAtStart : Nat) (pending : List Nat)
  /-- Its drain promise is resolved. -/
  | drainedTo (inflightAtStart : Nat) (drained : Bool)
  /-- It waits for the server. -/
  | closing (inflightAtStart : Nat) (drained : Bool)
  | resolved (report : DrainReport)
  deriving DecidableEq

/-- A call of the daemon's `close`. -/
inductive Close
  /-- It waits for the websocket clients. -/
  | closingWs (t0 : Int) (wsClientsAtStart : Nat)
  /-- It waits for its call of `gracefulClose`. -/
  | closingHttp (t0 : Int) (wsClientsAtStart call : Nat)
  | resolved (report : ShutdownReport)
  deriving DecidableEq

structure State where
  now : Int
  listening : Bool
  /-- Open connections that are not upgraded. -/
  connections : Nat
  /-- The upgraded ones, `wss.clients`. -/
  clients : Nat
  upgrading : Bool
  inflight : List Nat
  /-- Responses so far. -/
  arrived : Nat
  /-- `closeAllConnections` was called. -/
  forced : Bool
  closed : Bool
  calls : List Call
  /-- There is a store and it is open. -/
  storeOpen : Bool
  writtenCount : Nat
  daemonClosed : Bool
  cachedReport : Option ShutdownReport
  closes : List Close

inductive Event
  | clock (ms : Nat)
  | sample
  | connect
  | request
  | upgrade
  /-- The `close` event of a response. -/
  | responseClosed (r : Nat)
  | disconnect
  | clientGone
  /-- The drain budget of a call expires. -/
  | drainTimer (k : Nat)
  /-- A call of `gracefulClose` continues after its `await`. -/
  | resume (k : Nat)
  | gracefulClose
  | close
  /-- A call of `close` continues after `ws.close`. -/
  | resumeWs (k : Nat)
  /-- It continues after `gracefulClose`. -/
  | resumeHttp (k : Nat)

def init (now : Int) (store : Bool) : State :=
  ⟨now, true, 0, 0, true, [], 0, false, false, [], store, 0, false, none, []⟩

/-- What `server.close` waits for: it stopped listening, and no connection is left. -/
def serverClosed (s : State) : Prop :=
  s.listening = false ∧ s.connections = 0 ∧ s.clients = 0

instance (s : State) : Decidable (serverClosed s) := inferInstanceAs (Decidable (_ ∧ _ ∧ _))

/-- What a call returns when the flag is set. -/
def lateReport (s : State) : DrainReport := ⟨true, s.inflight.length, 0⟩

/-- A call up to its first `await`. -/
def gracefulClose (s : State) : State :=
  if s.closed then { s with calls := s.calls ++ [.resolved (lateReport s)] }
  else { s with
    closed := true
    listening := false
    calls := s.calls ++ [
      if s.inflight = [] then .drainedTo 0 true else .draining s.inflight.length s.inflight] }

/-- The `check` that a draining call attached to response `r`. -/
def check (r : Nat) (inflight : List Nat) : Call → Call
  | .draining n pending =>
    if r ∈ pending ∧ inflight = [] then .drainedTo n true else .draining n pending
  | call => call

/-- A call of the daemon's `close` up to its first `await`. -/
def close (s : State) : State :=
  if s.daemonClosed then { s with
    closes := s.closes ++ [.resolved (s.cachedReport.getD ⟨true, 0, 0, 0, s.writtenCount⟩)] }
  else { s with
    daemonClosed := true
    upgrading := false
    closes := s.closes ++ [.closingWs s.now (if s.listening then s.clients else 0)] }

def resumeStep (s : State) (k : Nat) : Option State :=
  match s.calls[k]? with
  | some (.drainedTo n drained) => some { s with
      calls := s.calls.set k (.closing n drained), forced := s.forced || !drained }
  | some (.closing n drained) =>
    if serverClosed s then some { s with
      calls := s.calls.set k (.resolved ⟨drained, n, s.inflight.length⟩) }
    else none
  | _ => none

def resumeWsStep (s : State) (k : Nat) : Option State :=
  match s.closes[k]? with
  | some (.closingWs t0 clients) =>
    if s.clients = 0 then some (gracefulClose { s with
      closes := s.closes.set k (.closingHttp t0 clients s.calls.length) })
    else none
  | _ => none

def resumeHttpStep (s : State) (k : Nat) : Option State :=
  match s.closes[k]? with
  | some (.closingHttp t0 clients call) =>
    match s.calls[call]? with
    | some (.resolved http) =>
      let report : ShutdownReport :=
        ⟨http.drained, http.inflightAtStart, clients, s.now - t0, s.writtenCount⟩
      some { s with
        storeOpen := false
        closes := s.closes.set k (.resolved report)
        cachedReport := some report }
    | _ => none
  | _ => none

def step (s : State) : Event → Option State
  | .clock ms => some { s with now := s.now + ms }
  | .sample => if s.storeOpen then some { s with writtenCount := s.writtenCount + 1 } else none
  | .connect => if s.listening then some { s with connections := s.connections + 1 } else none
  | .request =>
    if s.connections = 0 then none
    else some { s with inflight := s.inflight ++ [s.arrived], arrived := s.arrived + 1 }
  | .upgrade =>
    if s.upgrading ∧ s.connections ≠ 0 then some { s with
      connections := s.connections - 1, clients := s.clients + 1 }
    else none
  | .responseClosed r =>
    if r ∈ s.inflight then some { s with
      inflight := s.inflight.erase r
      calls := s.calls.map (check r (s.inflight.erase r)) }
    else none
  | .disconnect =>
    if s.connections = 0 then none else some { s with connections := s.connections - 1 }
  | .clientGone => if s.clients = 0 then none else some { s with clients := s.clients - 1 }
  | .drainTimer k =>
    match s.calls[k]? with
    | some (.draining n _) => some { s with calls := s.calls.set k (.drainedTo n false) }
    | _ => none
  | .resume k => resumeStep s k
  | .gracefulClose => some (gracefulClose s)
  | .close => some (close s)
  | .resumeWs k => resumeWsStep s k
  | .resumeHttp k => resumeHttpStep s k

/-! ## What every caller may rely on -/

/-- Every call that has resolved found the server closed, and the daemon's also
the clients gone and the store closed; all calls of one handle resolved to one report. -/
structure ClosedOnce (s : State) : Prop where
  served : ∀ r, .resolved r ∈ s.calls → serverClosed s
  drain : ∀ r r', .resolved r ∈ s.calls → .resolved r' ∈ s.calls → r = r'
  torn : ∀ r, .resolved r ∈ s.closes → serverClosed s ∧ s.clients = 0 ∧ s.storeOpen = false
  report : ∀ r r', .resolved r ∈ s.closes → .resolved r' ∈ s.closes → r = r'

/-- A call of `gracefulClose` is the first, or it comes after one that resolved
drained, with as many responses in flight at its start as there are now and none
at its end. -/
def AfterDrain (s : State) : Prop :=
  s.closed = true → ∃ r, .resolved r ∈ s.calls ∧
    r.drained = true ∧ r.inflightAtStart = s.inflight.length ∧ r.inflightAtEnd = 0

/-- Every call but the first of its handle comes after the first has resolved;
the daemon's first call calls `gracefulClose` itself. -/
def InTurn (s : State) : Event → Prop
  | .gracefulClose => AfterDrain s
  | .resumeWs _ => AfterDrain s
  | .close => s.daemonClosed = true → ∃ r, .resolved r ∈ s.closes
  | _ => True

def Call.answer : Call → Option DrainReport
  | .resolved r => some r
  | _ => none

def Close.answer : Close → Option ShutdownReport
  | .resolved r => some r
  | _ => none

@[simp] theorem answer_check (r : Nat) (inflight : List Nat) (c : Call) :
    (check r inflight c).answer = c.answer := by
  cases c with
  | draining n pending =>
    simp only [check]
    split <;> rfl
  | drainedTo _ _ => rfl
  | closing _ _ => rfl
  | resolved _ => rfl

/-- The server is closed, and nobody's store is open. -/
def tornDown (s : State) : Prop := serverClosed s ∧ s.storeOpen = false

structure Kept (s : State) : Prop where
  unasked : s.closed = false → s.calls = []
  stopped : s.closed = true → s.listening = false
  calls : OneAnswer Call.answer (serverClosed s) s.calls
  running : s.daemonClosed = false → s.closes = []
  cached : ∀ r, .resolved r ∈ s.closes → s.cachedReport = some r
  closes : OneAnswer Close.answer (tornDown s) s.closes

theorem kept_init (now : Int) (store : Bool) : Kept (init now store) :=
  ⟨fun _ => rfl, fun h => (by cases h), oneAnswer_nil, fun _ => rfl, fun _ h => (by cases h), oneAnswer_nil⟩

theorem Kept.closedOnce {s : State} (h : Kept s) : ClosedOnce s where
  served r hr := h.calls.finished _ hr r rfl
  drain r r' hr hr' := h.calls.same _ hr _ hr' r r' rfl rfl
  torn r hr :=
    have htorn := h.closes.finished _ hr r rfl
    ⟨htorn.1, htorn.1.2.2, htorn.2⟩
  report r r' hr hr' := h.closes.same _ hr _ hr' r r' rfl rfl

/-- A step of the connections, the clock or the store that reopens nothing. -/
structure Quiet (s t : State) : Prop where
  closed : t.closed = s.closed
  listening : t.listening = s.listening
  calls : t.calls = s.calls
  daemonClosed : t.daemonClosed = s.daemonClosed
  cachedReport : t.cachedReport = s.cachedReport
  closes : t.closes = s.closes
  served : serverClosed s → serverClosed t
  store : s.storeOpen = false → t.storeOpen = false

theorem Kept.quiet {s t : State} (h : Kept s) (q : Quiet s t) : Kept t where
  unasked hc := by rw [q.calls]; exact h.unasked (q.closed ▸ hc)
  stopped hc := by rw [q.listening]; exact h.stopped (q.closed ▸ hc)
  calls := by rw [q.calls]; exact h.calls.imp q.served
  running hd := by rw [q.closes]; exact h.running (q.daemonClosed ▸ hd)
  cached r hr := by rw [q.cachedReport]; exact h.cached r (q.closes ▸ hr)
  closes := by rw [q.closes]; exact h.closes.imp fun htorn => ⟨q.served htorn.1, q.store htorn.2⟩

/-- One pending call of `gracefulClose` moves on; nothing else that counts changes. -/
theorem Kept.moved {s t : State} (h : Kept s) {calls : List Call}
    (hcalls : OneAnswer Call.answer (serverClosed s) calls) (hne : s.calls ≠ [])
    (q : Quiet { s with calls } t) : Kept t := by
  have hmoved : Kept { s with calls } :=
    ⟨fun hc => absurd (h.unasked hc) hne, h.stopped, hcalls, h.running, h.cached, h.closes⟩
  exact hmoved.quiet q

theorem ne_nil_of_getElem? {α : Type*} {l : List α} {k : Nat} {a : α} (h : l[k]? = some a) :
    l ≠ [] := List.ne_nil_of_mem (List.mem_of_getElem? h)

theorem gracefulClose_late {s : State} (h : s.closed = true) :
    gracefulClose s = { s with calls := s.calls ++ [.resolved (lateReport s)] } := if_pos h

theorem gracefulClose_first {s : State} (h : s.closed = false) :
    gracefulClose s = { s with
      closed := true
      listening := false
      calls := s.calls ++ [
        if s.inflight = [] then .drainedTo 0 true else .draining s.inflight.length s.inflight] } :=
  if_neg (by simp [h])

theorem close_late {s : State} (h : s.daemonClosed = true) :
    close s = { s with
      closes := s.closes ++ [.resolved (s.cachedReport.getD ⟨true, 0, 0, 0, s.writtenCount⟩)] } :=
  if_pos h

theorem close_first {s : State} (h : s.daemonClosed = false) :
    close s = { s with
      daemonClosed := true
      upgrading := false
      closes := s.closes ++ [.closingWs s.now (if s.listening then s.clients else 0)] } :=
  if_neg (by simp [h])

theorem Kept.gracefulClose {s : State} (h : Kept s) (hafter : AfterDrain s) :
    Kept (gracefulClose s) := by
  cases hclosed : s.closed with
  | true =>
    rw [gracefulClose_late hclosed]
    obtain ⟨r, hr, hdrained, hstart, hend⟩ := hafter hclosed
    have hlate : r = lateReport s := by
      cases r
      cases hdrained
      cases hstart
      cases hend
      rfl
    refine h.moved (h.calls.late hr rfl ?_) (List.ne_nil_of_mem hr) ⟨rfl, rfl, rfl, rfl, rfl, rfl, id, id⟩
    rw [hlate]
    rfl
  | false =>
    rw [gracefulClose_first hclosed, h.unasked hclosed]
    refine ⟨fun hc => (by cases hc), fun _ => rfl, ?_, h.running, h.cached, ?_⟩
    · refine oneAnswer_singleton fun r hr => ?_
      split at hr <;> cases hr
    · exact h.closes.imp fun htorn => ⟨⟨rfl, htorn.1.2⟩, htorn.2⟩

theorem Kept.close {s : State} (h : Kept s)
    (hturn : s.daemonClosed = true → ∃ r, .resolved r ∈ s.closes) : Kept (close s) := by
  cases hclosed : s.daemonClosed with
  | true =>
    rw [close_late hclosed]
    obtain ⟨r, hr⟩ := hturn hclosed
    have hcached : s.cachedReport = some r := h.cached r hr
    have hcloses : OneAnswer Close.answer (tornDown s)
        (s.closes ++ [.resolved (s.cachedReport.getD ⟨true, 0, 0, 0, s.writtenCount⟩)]) :=
      h.closes.late hr rfl (by rw [hcached]; rfl)
    refine ⟨h.unasked, h.stopped, h.calls, fun hd => ?_, fun r' hr' => ?_, hcloses⟩
    · cases hclosed.symm.trans hd
    · rw [hcloses.same _ hr' _ (List.mem_append_left _ hr) r' r rfl rfl]
      exact hcached
  | false =>
    rw [close_first hclosed, h.running hclosed]
    refine ⟨h.unasked, h.stopped, h.calls, fun hd => (by cases hd), fun r hr => ?_, ?_⟩
    · rcases List.mem_singleton.mp hr with ⟨⟩
    · exact oneAnswer_singleton fun r hr => by cases hr

theorem Kept.resume {s t : State} {k : Nat} (h : Kept s) (ht : resumeStep s k = some t) : Kept t := by
  unfold resumeStep at ht
  split at ht
  · rename_i n drained hk
    cases ht
    refine h.moved (h.calls.set hk rfl fun r hr => ?_) (ne_nil_of_getElem? hk)
      ⟨rfl, rfl, rfl, rfl, rfl, rfl, id, id⟩
    cases hr
  · rename_i n drained hk
    split at ht
    · rename_i hserved
      cases ht
      exact h.moved (h.calls.set hk rfl fun _ _ => hserved) (ne_nil_of_getElem? hk)
        ⟨rfl, rfl, rfl, rfl, rfl, rfl, id, id⟩
    · cases ht
  · cases ht

/-- A pending call of the daemon's `close` has moved on and is still pending. -/
theorem Kept.waits {s : State} (h : Kept s) {k : Nat} {c : Close} (c' : Close) (hk : s.closes[k]? = some c)
    (hc : c.answer = none) (hc' : c'.answer = none) : Kept { s with closes := s.closes.set k c' } := by
  have hone : s.closes = [c] := h.closes.alone c (List.mem_of_getElem? hk) hc
  refine ⟨h.unasked, h.stopped, h.calls, fun hd => ?_, fun r hr => ?_, ?_⟩
  · exact absurd (h.running hd) (ne_nil_of_getElem? hk)
  · have hmem := List.mem_or_eq_of_mem_set hr
    rw [hone, List.mem_singleton] at hmem
    rcases hmem with rfl | rfl
    · cases hc
    · cases hc'
  · exact h.closes.set hk hc fun r hr => by rw [hc'] at hr; cases hr

theorem Kept.resumeWs {s t : State} {k : Nat} (h : Kept s) (hafter : AfterDrain s)
    (ht : resumeWsStep s k = some t) : Kept t := by
  unfold resumeWsStep at ht
  split at ht
  · rename_i t0 clients hk
    split at ht
    · cases ht
      have hwaits := h.waits (.closingHttp t0 clients s.calls.length) hk rfl rfl
      exact hwaits.gracefulClose hafter
    · cases ht
  · cases ht

theorem Kept.resumeHttp {s t : State} {k : Nat} (h : Kept s) (ht : resumeHttpStep s k = some t) :
    Kept t := by
  unfold resumeHttpStep at ht
  split at ht
  · rename_i t0 clients call hk
    split at ht
    · rename_i http hcall
      cases ht
      have hserved : serverClosed s := h.calls.finished _ (List.mem_of_getElem? hcall) http rfl
      have hone : s.closes = [.closingHttp t0 clients call] :=
        h.closes.alone _ (List.mem_of_getElem? hk) rfl
      let report : ShutdownReport :=
        ⟨http.drained, http.inflightAtStart, clients, s.now - t0, s.writtenCount⟩
      have hcloses : OneAnswer Close.answer (serverClosed s) (s.closes.set k (.resolved report)) :=
        (h.closes.imp And.left).set hk rfl fun _ _ => hserved
      refine ⟨h.unasked, h.stopped, h.calls, fun hd => ?_, fun r hr => ?_, ?_⟩
      · exact absurd (h.running hd) (ne_nil_of_getElem? hk)
      · rcases List.mem_or_eq_of_mem_set hr with hr | hr
        · rw [hone, List.mem_singleton] at hr
          cases hr
        · cases hr
          rfl
      · exact hcloses.imp fun hserved => ⟨hserved, rfl⟩
    · cases ht
  · cases ht

theorem Kept.responseClosed {s : State} (h : Kept s) (r : Nat) (inflight : List Nat) :
    Kept { s with inflight, calls := s.calls.map (check r inflight) } := by
  refine ⟨fun hc => ?_, h.stopped, h.calls.map (answer_check r inflight), h.running, h.cached, h.closes⟩
  simp [h.unasked hc]

theorem Kept.step {s t : State} {e : Event} (h : Kept s) (ht : step s e = some t)
    (hturn : InTurn s e) : Kept t := by
  cases e with
  | clock ms =>
    cases ht
    exact h.quiet ⟨rfl, rfl, rfl, rfl, rfl, rfl, id, id⟩
  | sample =>
    simp only [Shutdown.step] at ht
    split at ht
    · cases ht
      exact h.quiet ⟨rfl, rfl, rfl, rfl, rfl, rfl, id, id⟩
    · cases ht
  | connect =>
    simp only [Shutdown.step] at ht
    split at ht
    · rename_i hlistening
      cases ht
      refine h.quiet ⟨rfl, rfl, rfl, rfl, rfl, rfl, fun hserved => ?_, id⟩
      cases hlistening.symm.trans hserved.1
    · cases ht
  | request =>
    simp only [Shutdown.step] at ht
    split at ht
    · cases ht
    · cases ht
      exact h.quiet ⟨rfl, rfl, rfl, rfl, rfl, rfl, id, id⟩
  | upgrade =>
    simp only [Shutdown.step] at ht
    split at ht
    · rename_i hopen
      cases ht
      exact h.quiet ⟨rfl, rfl, rfl, rfl, rfl, rfl, fun hserved => absurd hserved.2.1 hopen.2, id⟩
    · cases ht
  | responseClosed r =>
    simp only [Shutdown.step] at ht
    split at ht
    · cases ht
      exact h.responseClosed r _
    · cases ht
  | disconnect =>
    simp only [Shutdown.step] at ht
    split at ht
    · cases ht
    · rename_i hopen
      cases ht
      exact h.quiet ⟨rfl, rfl, rfl, rfl, rfl, rfl, fun hserved => absurd hserved.2.1 hopen, id⟩
  | clientGone =>
    simp only [Shutdown.step] at ht
    split at ht
    · cases ht
    · rename_i hopen
      cases ht
      exact h.quiet ⟨rfl, rfl, rfl, rfl, rfl, rfl, fun hserved => absurd hserved.2.2 hopen, id⟩
  | drainTimer k =>
    simp only [Shutdown.step] at ht
    split at ht
    · rename_i n pending hk
      cases ht
      refine h.moved (h.calls.set hk rfl fun r hr => ?_) (ne_nil_of_getElem? hk)
        ⟨rfl, rfl, rfl, rfl, rfl, rfl, id, id⟩
      cases hr
    · cases ht
  | resume k => exact h.resume ht
  | gracefulClose =>
    cases ht
    exact h.gracefulClose hturn
  | close =>
    cases ht
    exact h.close hturn
  | resumeWs k => exact h.resumeWs hturn ht
  | resumeHttp k => exact h.resumeHttp ht

/-- While every call that is not the first waits for the first, no caller is told
that the server is closed before it is, and all are told the same. -/
theorem close_once (now : Int) (store : Bool) {es : List Event}
    (hturn : Along step InTurn (init now store) es) :
    ∀ t, Visited step (init now store) es t → ClosedOnce t := by
  intro t ht
  obtain ⟨past, ⟨rest, rfl⟩, hpast⟩ := ht
  have hkept : Kept t := exec_invariant_along hpast (along_append.mp hturn).1 (kept_init now store)
    fun s e t hst hturn hkept => hkept.step hst hturn
  exact hkept.closedOnce

/-- A second call while a response is in flight. -/
def secondCall : List Event := [.connect, .request, .gracefulClose, .gracefulClose]

/-- A second signal while a client is connected. -/
def secondSignal : List Event := [.connect, .upgrade, .close, .close]

/-- The second caller is told that all is closed while the first still waits. -/
theorem second_call_returns_early :
    (∃ s, exec step (init 0 true) secondCall = some s ∧ .resolved ⟨true, 1, 0⟩ ∈ s.calls ∧
        ¬ serverClosed s ∧ ¬ ClosedOnce s) ∧
      ∃ s, exec step (init 0 true) secondSignal = some s ∧
        .resolved ⟨true, 0, 0, 0, 0⟩ ∈ s.closes ∧ s.clients = 1 ∧ s.storeOpen = true ∧
        ¬ ClosedOnce s := by
  refine ⟨⟨_, rfl, by decide, by decide, fun h => ?_⟩, ⟨_, rfl, by decide, rfl, rfl, fun h => ?_⟩⟩
  · have hserved := h.served ⟨true, 1, 0⟩ (by decide)
    revert hserved
    decide
  · have htorn := h.torn ⟨true, 0, 0, 0, 0⟩ (by decide)
    cases htorn.2.1

/-- The daemon closes with one client connected, and each handle is asked once more. -/
def orderly : List Event :=
  [.connect, .upgrade, .close, .clientGone, .resumeWs 0, .resume 0, .resume 0, .resumeHttp 0,
    .gracefulClose, .close]

theorem close_once_orderly : (∃ t, exec step (init 0 true) orderly = some t) ∧
    ∀ t, Visited step (init 0 true) orderly t → ClosedOnce t := by
  refine ⟨⟨_, rfl⟩, close_once 0 true ?_⟩
  refine along_cons_of trivial rfl (along_cons_of trivial rfl ?_)
  refine along_cons_of (fun h => (by cases h)) rfl (along_cons_of trivial rfl ?_)
  refine along_cons_of (fun h => (by cases h)) rfl (along_cons_of trivial rfl ?_)
  refine along_cons_of trivial rfl (along_cons_of trivial rfl ?_)
  refine along_cons_of (fun _ => ⟨⟨true, 0, 0⟩, by decide, rfl, rfl, rfl⟩) rfl ?_
  exact along_cons_of (fun _ => ⟨⟨true, 0, 1, 0, 0⟩, by decide⟩) rfl trivial

end Conductor.Http.Shutdown
