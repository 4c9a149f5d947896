import Conductor.Lib.Runs
import Mathlib.Algebra.Order.BigOperators.Group.List
import Mathlib.Algebra.Order.Ring.Nat
import Mathlib.Data.List.Basic
import Mathlib.Logic.Function.Basic

/-! # Closing the websocket attachment

`close` detaches the upgrade handler, sends every client a close frame with code 1001
and waits for their `close` events, but no longer than a budget; then it terminates
whoever is left and waits for the server. It may be called again at any time, and its
timer is never cleared. When clients leave, when sockets end, when a budget expires and
when a call continues is the choice of the events. -/
namespace Conductor.Http.WsDrain
open Conductor.Lib.Runs

/-- A websocket of the server, until its `close` event. -/
inductive Socket
  | open
  /-- The client has begun to close it. -/
  | leaving
  /-- The frame with code 1001 was sent on it. -/
  | goingAway
  | terminated
  | closed
  deriving DecidableEq

inductive Phase
  /-- The promise that races the clients against the budget is pending. -/
  | racing
  /-- It is resolved. -/
  | raced
  /-- `wss.close` was called. -/
  | closingServer
  | resolved
  deriving DecidableEq

/-- A call of `close`. -/
structure CloseCall where
  clients : List Nat
  remaining : Int
  /-- Its budget has not expired. -/
  timer : Bool
  phase : Phase
  deriving DecidableEq

structure State where
  /-- The upgrade handler is attached. -/
  upgrading : Bool
  /-- The clients so far are the numbers below. -/
  joined : Nat
  socket : Nat → Socket
  /-- The sockets that a close frame with code 1001 was sent on. -/
  sent : List Nat
  calls : List CloseCall

inductive Event
  | upgrade
  /-- A client begins to close its socket. -/
  | leave (c : Nat)
  /-- The `close` event of a socket. -/
  | gone (c : Nat)
  | close
  | timer (k : Nat)
  /-- A call continues after the race. -/
  | resume (k : Nat)
  /-- It continues after `wss.close`. -/
  | finish (k : Nat)
  deriving DecidableEq

def init : State := ⟨true, 0, fun _ => .closed, [], []⟩

/-- `wss.clients`, which a socket leaves with its `close` event. -/
def wssClients (s : State) : List Nat := (List.range s.joined).filter fun c => s.socket c ≠ .closed

def openClients (s : State) : List Nat := (List.range s.joined).filter fun c => s.socket c = .open

/-- The listener that a call attached to the `close` event of a client. -/
def done (c : Nat) (call : CloseCall) : CloseCall :=
  if c ∈ call.clients then
    let remaining := call.remaining - 1
    { call with
      remaining
      phase := if call.phase = .racing ∧ remaining ≤ 0 then .raced else call.phase }
  else call

/-- `c.close(1001, ..)`: only an open socket sends a frame. -/
def goAway : Socket → Socket
  | .open => .goingAway
  | socket => socket

/-- `c.terminate()`, unless it is closed. -/
def terminate : Socket → Socket
  | .closed => .closed
  | _ => .terminated

/-- A call up to its first `await`. -/
def closeStep (s : State) : State :=
  let clients := wssClients s
  { s with
    upgrading := false
    socket := fun c => if c ∈ clients then goAway (s.socket c) else s.socket c
    sent := s.sent ++ clients.filter fun c => s.socket c = .open
    calls := s.calls ++ [
      if clients = [] then ⟨[], 0, false, .closingServer⟩ else ⟨clients, clients.length, true, .racing⟩] }

/-- The budget of a call expires, whatever became of the call. -/
def timerStep (s : State) (k : Nat) : Option State :=
  match s.calls[k]? with
  | some call =>
    if call.timer then some { s with
      socket := fun c => if c ∈ call.clients then terminate (s.socket c) else s.socket c
      calls := s.calls.set k { call with
        timer := false, phase := if call.phase = .racing then .raced else call.phase } }
    else none
  | none => none

def step (s : State) : Event → Option State
  | .upgrade =>
    if s.upgrading then some { s with
      joined := s.joined + 1, socket := Function.update s.socket s.joined .open }
    else none
  | .leave c =>
    if c < s.joined ∧ s.socket c = .open then some { s with socket := Function.update s.socket c .leaving }
    else none
  | .gone c =>
    if c < s.joined ∧ s.socket c ≠ .closed then some { s with
      socket := Function.update s.socket c .closed, calls := s.calls.map (done c) }
    else none
  | .close => some (closeStep s)
  | .timer k => timerStep s k
  | .resume k => match s.calls[k]? with
    | some call =>
      if call.phase = .raced then some { s with calls := s.calls.set k { call with phase := .closingServer } }
      else none
    | none => none
  | .finish k => match s.calls[k]? with
    | some call =>
      if call.phase = .closingServer ∧ wssClients s = [] then
        some { s with calls := s.calls.set k { call with phase := .resolved } }
      else none
    | none => none

/-- What a step does. -/
inductive Stepped (s : State) : Event → State → Prop
  | upgrade (h : s.upgrading = true) : Stepped s .upgrade
      { s with joined := s.joined + 1, socket := Function.update s.socket s.joined .open }
  | leave {c : Nat} (hc : c < s.joined) (ho : s.socket c = .open) :
      Stepped s (.leave c) { s with socket := Function.update s.socket c .leaving }
  | gone {c : Nat} (hc : c < s.joined) (hne : s.socket c ≠ .closed) : Stepped s (.gone c)
      { s with socket := Function.update s.socket c .closed, calls := s.calls.map (done c) }
  | close : Stepped s .close (closeStep s)
  | timer {k : Nat} {call : CloseCall} (hk : s.calls[k]? = some call) (htimer : call.timer = true) :
      Stepped s (.timer k) { s with
        socket := fun c => if c ∈ call.clients then terminate (s.socket c) else s.socket c
        calls := s.calls.set k { call with
          timer := false, phase := if call.phase = .racing then .raced else call.phase } }
  | resume {k : Nat} {call : CloseCall} (hk : s.calls[k]? = some call) (hp : call.phase = .raced) :
      Stepped s (.resume k) { s with calls := s.calls.set k { call with phase := .closingServer } }
  | finish {k : Nat} {call : CloseCall} (hk : s.calls[k]? = some call) (hp : call.phase = .closingServer)
      (hnone : wssClients s = []) :
      Stepped s (.finish k) { s with calls := s.calls.set k { call with phase := .resolved } }

theorem stepped {s t : State} {e : Event} (h : step s e = some t) : Stepped s e t := by
  cases e with
  | upgrade =>
    obtain ⟨hup, ⟨⟩⟩ := Option.ite_none_right_eq_some.mp h
    exact .upgrade hup
  | leave c =>
    obtain ⟨⟨hc, ho⟩, ⟨⟩⟩ := Option.ite_none_right_eq_some.mp h
    exact .leave hc ho
  | gone c =>
    obtain ⟨⟨hc, hne⟩, ⟨⟩⟩ := Option.ite_none_right_eq_some.mp h
    exact .gone hc hne
  | close => cases h; exact .close
  | timer k =>
    simp only [step, timerStep] at h
    split at h
    · rename_i call hk
      obtain ⟨htimer, ⟨⟩⟩ := Option.ite_none_right_eq_some.mp h
      exact .timer hk htimer
    · cases h
  | resume k =>
    simp only [step] at h
    split at h
    · rename_i call hk
      obtain ⟨hp, ⟨⟩⟩ := Option.ite_none_right_eq_some.mp h
      exact .resume hk hp
    · cases h
  | finish k =>
    simp only [step] at h
    split at h
    · rename_i call hk
      obtain ⟨⟨hp, hnone⟩, ⟨⟩⟩ := Option.ite_none_right_eq_some.mp h
      exact .finish hk hp hnone
    · cases h

/-! ## Counting -/

/-- How many of the sockets are not closed. -/
def unclosed (socket : Nat → Socket) (l : List Nat) : Nat := l.countP fun c => socket c ≠ .closed

theorem unclosed_congr {socket socket' : Nat → Socket} {l : List Nat}
    (h : ∀ c ∈ l, socket' c = .closed ↔ socket c = .closed) : unclosed socket' l = unclosed socket l :=
  List.countP_congr fun c hc => by simp [h c hc]

theorem unclosed_eq_zero {socket : Nat → Socket} {l : List Nat} :
    unclosed socket l = 0 ↔ ∀ c ∈ l, socket c = .closed := by
  rw [unclosed, List.countP_eq_zero]
  simp

/-- One socket less, where it counts. -/
theorem unclosed_gone {socket : Nat → Socket} {l : List Nat} (hl : l.Nodup) {c : Nat}
    (hc : socket c ≠ .closed) : unclosed (Function.update socket c .closed) l + (if c ∈ l then 1 else 0) =
      unclosed socket l := by
  induction l with
  | nil => rfl
  | cons d l ih =>
    obtain ⟨hd, hl⟩ := List.nodup_cons.mp hl
    have hih := ih hl
    unfold unclosed at hih ⊢
    rw [List.countP_cons, List.countP_cons]
    by_cases hcd : c = d
    · subst hcd
      rw [if_neg hd] at hih
      simp only [Function.update_self, ne_eq, not_true, decide_false, List.mem_cons_self, if_true, hc,
        not_false_eq_true, decide_true] at hih ⊢
      simpa using hih
    · have hmem : c ∈ d :: l ↔ c ∈ l := by simp [hcd]
      rw [Function.update_of_ne (Ne.symm hcd), if_congr hmem rfl rfl, ← hih]
      omega

/-! ## The invariant -/

structure CallOk (s : State) (call : CloseCall) : Prop where
  nodup : call.clients.Nodup
  known : ∀ c ∈ call.clients, c < s.joined
  /-- Nobody is connected that it does not know. -/
  all : ∀ c < s.joined, s.socket c ≠ .closed → c ∈ call.clients
  remaining : call.remaining = unclosed s.socket call.clients
  racing : call.phase = .racing → call.timer = true ∧ 0 < call.remaining
  ended : call.phase ≠ .racing → ∀ c ∈ call.clients, s.socket c = .terminated ∨ s.socket c = .closed
  resolved : call.phase = .resolved → ∀ c ∈ call.clients, s.socket c = .closed

structure Inv (s : State) : Prop where
  calls : ∀ call ∈ s.calls, CallOk s call
  closing : s.calls ≠ [] → s.upgrading = false ∧ ∀ c < s.joined, s.socket c ≠ .open
  /-- Only an expired budget terminates. -/
  expired : ∀ c < s.joined, s.socket c = .terminated →
    ∃ call ∈ s.calls, c ∈ call.clients ∧ call.timer = false

theorem inv_init : Inv init :=
  ⟨fun _ h => (by cases h), fun h => absurd rfl h, fun _ h => (by cases h)⟩

variable {s t : State} {call : CloseCall} {c k : Nat}

theorem mem_wssClients : c ∈ wssClients s ↔ c < s.joined ∧ s.socket c ≠ .closed := by
  simp [wssClients]

/-- Nobody has closed, and who was terminated still is. -/
theorem CallOk.socket (h : CallOk s call) (hjoined : t.joined = s.joined)
    (hclosed : ∀ c, t.socket c = .closed ↔ s.socket c = .closed)
    (hterminated : ∀ c, s.socket c = .terminated → t.socket c = .terminated) : CallOk t call where
  nodup := h.nodup
  known c hc := hjoined ▸ h.known c hc
  all c hc hne := h.all c (hjoined ▸ hc) fun he => hne ((hclosed c).mpr he)
  remaining := by rw [h.remaining, unclosed_congr fun c _ => hclosed c]
  racing := h.racing
  ended hp c hc := (h.ended hp c hc).imp (hterminated c) (hclosed c).mpr
  resolved hp c hc := (hclosed c).mpr (h.resolved hp c hc)

theorem goAway_closed (x : Socket) : goAway x = .closed ↔ x = .closed := by cases x <;> simp [goAway]

theorem terminate_closed (x : Socket) : terminate x = .closed ↔ x = .closed := by cases x <;> simp [terminate]

theorem terminate_over (x : Socket) : terminate x = .terminated ∨ terminate x = .closed := by
  cases x <;> simp [terminate]

/-- The socket's listener keeps the count, and ends the race with the last one. -/
theorem CallOk.gone (h : CallOk s call) (hc : c < s.joined) (hne : s.socket c ≠ .closed)
    (hjoined : t.joined = s.joined) (hsocket : t.socket = Function.update s.socket c .closed) :
    CallOk t (done c call) := by
  have hmem : c ∈ call.clients := h.all c hc hne
  have hcount := unclosed_gone h.nodup hne
  rw [if_pos hmem, ← hsocket] at hcount
  have hremaining : call.remaining - 1 = unclosed t.socket call.clients := by
    rw [h.remaining]
    omega
  have hclosed : ∀ d, s.socket d = .closed → t.socket d = .closed := by
    intro d hd
    by_cases hdc : d = c
    · rw [hsocket, hdc, Function.update_self]
    · rw [hsocket, Function.update_of_ne hdc, hd]
  have hover : call.phase ≠ .racing → ∀ d ∈ call.clients, t.socket d = .terminated ∨ t.socket d = .closed := by
    intro hp d hd
    by_cases hdc : d = c
    · rw [hsocket, hdc, Function.update_self]
      exact .inr rfl
    · rw [hsocket, Function.update_of_ne hdc]
      exact h.ended hp d hd
  unfold done
  rw [if_pos hmem]
  refine ⟨h.nodup, fun d hd => hjoined ▸ h.known d hd, fun d hd hdne => ?_, hremaining, fun hp => ?_,
    fun hp d hd => ?_, fun hp d hd => ?_⟩
  · exact h.all d (hjoined ▸ hd) fun he => hdne (hclosed d he)
  · simp only at hp ⊢
    split at hp
    · cases hp
    · rename_i hlast
      obtain ⟨htimer, -⟩ := h.racing hp
      exact ⟨htimer, by simpa [hp] using hlast⟩
  · simp only at hp
    split at hp
    · rename_i hlast
      have hzero : unclosed t.socket call.clients = 0 := by omega
      exact .inr (unclosed_eq_zero.mp hzero d hd)
    · exact hover hp d hd
  · simp only at hp
    split at hp
    · cases hp
    · exact hclosed d (h.resolved hp d hd)

theorem Inv.close (h : Inv s) : Inv (closeStep s) := by
  have hclosed : ∀ d, (closeStep s).socket d = .closed ↔ s.socket d = .closed := by
    intro d
    show (if d ∈ wssClients s then goAway (s.socket d) else s.socket d) = .closed ↔ _
    split
    · exact goAway_closed _
    · rfl
  have hterminated : ∀ d, s.socket d = .terminated → (closeStep s).socket d = .terminated := by
    intro d hd
    show (if d ∈ wssClients s then goAway (s.socket d) else s.socket d) = .terminated
    rw [hd]
    split
    · rfl
    · rfl
  refine ⟨fun call hcall => ?_, fun _ => ⟨rfl, fun d hd ho => ?_⟩, fun d hd ht => ?_⟩
  · rcases List.mem_append.mp hcall with hcall | hcall
    · exact (h.calls call hcall).socket rfl hclosed hterminated
    · rw [List.mem_singleton.mp hcall]
      by_cases hnone : wssClients s = []
      · rw [if_pos hnone]
        refine ⟨List.nodup_nil, fun _ hc => (by cases hc), fun d hd hne => ?_, rfl, fun hp => (by cases hp),
          fun _ _ hc => (by cases hc), fun _ _ hc => (by cases hc)⟩
        rw [← hnone]
        exact mem_wssClients.mpr ⟨hd, fun he => hne ((hclosed d).mpr he)⟩
      · rw [if_neg hnone]
        have hall : unclosed (closeStep s).socket (wssClients s) = (wssClients s).length := by
          rw [unclosed_congr fun d _ => hclosed d, unclosed, List.countP_eq_length]
          intro d hd
          simpa using (mem_wssClients.mp hd).2
        refine ⟨List.nodup_range.filter _, fun d hd => (mem_wssClients.mp hd).1, fun d hd hne => ?_,
          congrArg Nat.cast hall.symm, fun _ => ⟨rfl, ?_⟩, fun hp => absurd rfl hp, fun hp => (by cases hp)⟩
        · exact mem_wssClients.mpr ⟨hd, fun he => hne ((hclosed d).mpr he)⟩
        · exact Int.natCast_pos.mpr (List.length_pos_iff.mpr hnone)
  · have hd' : (if d ∈ wssClients s then goAway (s.socket d) else s.socket d) = .open := ho
    split at hd'
    · cases hs : s.socket d <;> rw [hs] at hd' <;> cases hd'
    · rename_i hmem
      exact hmem (mem_wssClients.mpr ⟨hd, fun he => by rw [he] at hd'; cases hd'⟩)
  · have hd' : (if d ∈ wssClients s then goAway (s.socket d) else s.socket d) = .terminated := ht
    have hs : s.socket d = .terminated := by
      split at hd'
      · cases hs : s.socket d <;> rw [hs] at hd' <;> first | rfl | cases hd'
      · exact hd'
    obtain ⟨call, hcall, hmem, htimer⟩ := h.expired d hd hs
    exact ⟨call, List.mem_append_left _ hcall, hmem, htimer⟩

/-- A call moves on, the sockets stay as they are. -/
theorem Inv.move (h : Inv s) {phase : Phase} (hk : s.calls[k]? = some call) (hracing : call.phase ≠ .racing)
    (hphase : phase ≠ .racing) (hresolved : phase = .resolved → wssClients s = []) :
    Inv { s with calls := s.calls.set k { call with phase := phase } } := by
  have hmem : call ∈ s.calls := List.mem_of_getElem? hk
  have hne : s.calls ≠ [] := List.ne_nil_of_mem hmem
  refine ⟨fun d hd => ?_, fun _ => h.closing hne, fun c hc ht => ?_⟩
  · rcases List.mem_or_eq_of_mem_set hd with hd | rfl
    · exact (h.calls d hd).socket rfl (fun _ => .rfl) fun _ => id
    · have hold := h.calls call hmem
      refine ⟨hold.nodup, hold.known, hold.all, hold.remaining, fun hp => absurd hp hphase,
        fun _ => hold.ended hracing, fun hp c hc => ?_⟩
      by_contra hclosed
      have hclient := mem_wssClients.mpr ⟨hold.known c hc, hclosed⟩
      rw [hresolved hp] at hclient
      cases hclient
  · obtain ⟨d, hd, hin, htimer⟩ := h.expired c hc ht
    obtain ⟨j, hj⟩ := List.getElem?_of_mem hd
    by_cases hjk : j = k
    · subst hjk
      cases hk.symm.trans hj
      exact ⟨_, List.mem_of_getElem? (List.getElem?_set_self (List.getElem?_eq_some_iff.mp hk).1), hin, htimer⟩
    · exact ⟨d, List.mem_of_getElem? (by rw [List.getElem?_set_ne (Ne.symm hjk)]; exact hj), hin, htimer⟩

/-- Where a call was, there is one with the same clients. -/
theorem mem_set_of_mem {d new : CloseCall} (hk : s.calls[k]? = some call) (hd : d ∈ s.calls)
    (hne : d ≠ call) : d ∈ s.calls.set k new := by
  obtain ⟨j, hj⟩ := List.getElem?_of_mem hd
  have hjk : k ≠ j := by
    rintro rfl
    exact hne (Option.some.inj (hj.symm.trans hk))
  exact List.mem_of_getElem? (by rw [List.getElem?_set_ne hjk]; exact hj)

theorem mem_set_self {new : CloseCall} (hk : s.calls[k]? = some call) : new ∈ s.calls.set k new :=
  List.mem_of_getElem? (List.getElem?_set_self (List.getElem?_eq_some_iff.mp hk).1)

/-- The budget of a call expires. -/
theorem Inv.timer (h : Inv s) (hk : s.calls[k]? = some call) :
    Inv { s with
      socket := fun c => if c ∈ call.clients then terminate (s.socket c) else s.socket c
      calls := s.calls.set k { call with
        timer := false, phase := if call.phase = .racing then .raced else call.phase } } := by
  have hmem : call ∈ s.calls := List.mem_of_getElem? hk
  have hne : s.calls ≠ [] := List.ne_nil_of_mem hmem
  let socket := fun c => if c ∈ call.clients then terminate (s.socket c) else s.socket c
  have hclosed : ∀ d, socket d = .closed ↔ s.socket d = .closed := by
    intro d
    show (if d ∈ call.clients then terminate (s.socket d) else s.socket d) = .closed ↔ _
    split
    · exact terminate_closed _
    · rfl
  have hterminated : ∀ d, s.socket d = .terminated → socket d = .terminated := by
    intro d hd
    show (if d ∈ call.clients then terminate (s.socket d) else s.socket d) = .terminated
    rw [hd]
    split
    · rfl
    · rfl
  refine ⟨fun d hd => ?_, fun _ => ⟨(h.closing hne).1, fun d hd ho => ?_⟩, fun d hd ht => ?_⟩
  · rcases List.mem_or_eq_of_mem_set hd with hd | rfl
    · exact (h.calls d hd).socket rfl hclosed hterminated
    · have hold := (h.calls call hmem).socket (t := { s with socket := socket }) rfl hclosed hterminated
      refine ⟨hold.nodup, hold.known, hold.all, hold.remaining, fun hp => ?_, fun _ c hc => ?_, fun hp => ?_⟩
      · simp only at hp
        split at hp
        · cases hp
        · rename_i hraced
          exact absurd hp hraced
      · show socket c = .terminated ∨ socket c = .closed
        rw [show socket c = terminate (s.socket c) from if_pos hc]
        exact terminate_over _
      · simp only at hp
        split at hp
        · cases hp
        · exact hold.resolved hp
  · have hd' : (if d ∈ call.clients then terminate (s.socket d) else s.socket d) = .open := ho
    split at hd'
    · cases hs : s.socket d <;> rw [hs] at hd' <;> cases hd'
    · exact (h.closing hne).2 d hd hd'
  · by_cases hin : d ∈ call.clients
    · exact ⟨_, mem_set_self hk, hin, rfl⟩
    · have hd' : (if d ∈ call.clients then terminate (s.socket d) else s.socket d) = .terminated := ht
      rw [if_neg hin] at hd'
      obtain ⟨e, he, hmemE, htimerE⟩ := h.expired d hd hd'
      refine ⟨e, mem_set_of_mem hk he ?_, hmemE, htimerE⟩
      rintro rfl
      exact hin hmemE

theorem of_update {f : Nat → Socket} {x y : Socket} {d : Nat} (h : Function.update f c x d = y) (hxy : x ≠ y) :
    d ≠ c ∧ f d = y := by
  by_cases hdc : d = c
  · rw [hdc, Function.update_self] at h
    exact absurd h hxy
  · rw [Function.update_of_ne hdc] at h
    exact ⟨hdc, h⟩

theorem Inv.step {e : Event} (h : Inv s) (hst : step s e = some t) : Inv t := by
  cases stepped hst with
  | upgrade hup =>
    have hcalls : s.calls = [] := by
      by_contra hne
      rw [(h.closing hne).1] at hup
      cases hup
    refine ⟨fun d hd => ?_, fun hne => absurd hcalls hne, fun d hd ht => ?_⟩
    · rw [hcalls] at hd
      cases hd
    · obtain ⟨hds, ht⟩ := of_update ht (by decide)
      exact h.expired d (by simp only at hd; omega) ht
  | leave hc ho =>
    have hcalls : s.calls = [] := by
      by_contra hne
      exact (h.closing hne).2 _ hc ho
    refine ⟨fun d hd => ?_, fun hne => absurd hcalls hne, fun d hd ht => ?_⟩
    · rw [hcalls] at hd
      cases hd
    · exact h.expired d hd (of_update ht (by decide)).2
  | gone hc hne =>
    refine ⟨fun d hd => ?_, fun hne => ?_, fun d hd ht => ?_⟩
    · obtain ⟨call, hcall, rfl⟩ := List.mem_map.mp hd
      exact (h.calls call hcall).gone hc hne rfl rfl
    · have hcalls : s.calls ≠ [] := fun he => hne (by rw [he]; rfl)
      exact ⟨(h.closing hcalls).1, fun d hd ho => (h.closing hcalls).2 d hd (of_update ho (by decide)).2⟩
    · obtain ⟨call, hcall, hmem, htimer⟩ := h.expired d hd (of_update ht (by decide)).2
      refine ⟨done _ call, List.mem_map.mpr ⟨call, hcall, rfl⟩, ?_, ?_⟩
      · unfold done
        split
        · exact hmem
        · exact hmem
      · unfold done
        split
        · exact htimer
        · exact htimer
  | close => exact h.close
  | timer hk _ => exact h.timer hk
  | resume hk hp => exact h.move hk (by rw [hp]; decide) (by decide) fun hp => (by cases hp)
  | finish hk hp hnone => exact h.move hk (by rw [hp]; decide) (by decide) fun _ => hnone

theorem inv_run {es : List Event} (hs : Inv s) (h : exec WsDrain.step s es = some t) : Inv t :=
  exec_invariant (fun _ _ _ hst hi => Inv.step hi hst) h hs

/-! ## Who is told -/

/-- Before the first call nobody is told. -/
theorem untold_step {e : Event} (hst : step s e = some t) (he : e ≠ .close) (hcalls : s.calls = []) :
    t.calls = [] ∧ t.sent = s.sent := by
  have hnone : ∀ {k : Nat} {call : CloseCall}, s.calls[k]? ≠ some call := by simp [hcalls]
  cases stepped hst with
  | upgrade _ => exact ⟨hcalls, rfl⟩
  | leave _ _ => exact ⟨hcalls, rfl⟩
  | gone _ _ => exact ⟨by rw [hcalls]; rfl, rfl⟩
  | close => exact absurd rfl he
  | timer hk _ => exact absurd hk hnone
  | resume hk _ => exact absurd hk hnone
  | finish hk _ _ => exact absurd hk hnone

/-- After it nobody joins, and nobody is told again. -/
theorem told_step {e : Event} (h : Inv s) (hst : step s e = some t) (hcalls : s.calls ≠ []) :
    t.calls ≠ [] ∧ t.sent = s.sent ∧ t.joined = s.joined := by
  have hset : ∀ {k : Nat} {new : CloseCall}, s.calls.set k new ≠ [] := by simpa using hcalls
  cases stepped hst with
  | upgrade hup =>
    rw [(h.closing hcalls).1] at hup
    cases hup
  | leave _ _ => exact ⟨hcalls, rfl, rfl⟩
  | gone _ _ => exact ⟨by simpa using hcalls, rfl, rfl⟩
  | close =>
    refine ⟨by simp [closeStep], ?_, rfl⟩
    have hnone : (wssClients s).filter (fun c => s.socket c = .open) = [] :=
      List.filter_eq_nil_iff.mpr fun c hc => by
        simpa using (h.closing hcalls).2 c (mem_wssClients.mp hc).1
    show s.sent ++ (wssClients s).filter (fun c => s.socket c = .open) = s.sent
    rw [hnone, List.append_nil]
  | timer _ _ => exact ⟨hset, rfl, rfl⟩
  | resume _ _ => exact ⟨hset, rfl, rfl⟩
  | finish _ _ _ => exact ⟨hset, rfl, rfl⟩

theorem untold_run {es : List Event} (hes : .close ∉ es) (hcalls : s.calls = [])
    (h : exec step s es = some t) : t.calls = [] ∧ t.sent = s.sent := by
  induction es generalizing s with
  | nil => cases h; exact ⟨hcalls, rfl⟩
  | cons e es ih =>
    rw [exec_cons] at h
    obtain ⟨u, hu, ht⟩ := Option.bind_eq_some_iff.mp h
    obtain ⟨hu', hsent⟩ := untold_step hu (fun he => hes (he ▸ List.mem_cons_self)) hcalls
    rw [← hsent]
    exact ih (fun he => hes (List.mem_cons_of_mem _ he)) hu' ht

theorem told_run {es : List Event} (hi : Inv s) (hcalls : s.calls ≠ []) (h : exec step s es = some t) :
    t.sent = s.sent ∧ t.joined = s.joined := by
  induction es generalizing s with
  | nil => cases h; exact ⟨rfl, rfl⟩
  | cons e es ih =>
    rw [exec_cons] at h
    obtain ⟨u, hu, ht⟩ := Option.bind_eq_some_iff.mp h
    obtain ⟨hu', hsent, hjoined⟩ := told_step hi hu hcalls
    rw [← hsent, ← hjoined]
    exact ih (Inv.step hi hu) hu' ht

/-! ## The end -/

def Phase.rank : Phase → Nat
  | .racing => 3
  | .raced => 2
  | .closingServer => 1
  | .resolved => 0

/-- What is left to happen. -/
def work (s : State) : Nat :=
  (s.calls.map fun call => call.phase.rank).sum + unclosed s.socket (List.range s.joined)

theorem sum_set_lt {calls : List CloseCall} {new : CloseCall} (hk : calls[k]? = some call)
    (h : new.phase.rank < call.phase.rank) :
    ((calls.set k new).map fun call => call.phase.rank).sum < (calls.map fun call => call.phase.rank).sum := by
  induction calls generalizing k with
  | nil => cases hk
  | cons d calls ih =>
    cases k with
    | zero =>
      cases hk
      simpa using h
    | succ k =>
      simp only [List.set_cons_succ, List.map_cons, List.sum_cons]
      exact Nat.add_lt_add_left (ih hk) _

/-- The clients have no part in the event. -/
def Unaided (s : State) : Event → Prop
  | .timer _ | .resume _ | .finish _ => True
  | .gone c => s.socket c = .terminated
  | .upgrade | .leave _ | .close => False

theorem rank_done (c : Nat) (call : CloseCall) : (done c call).phase.rank ≤ call.phase.rank := by
  unfold done
  split
  · simp only
    split
    · rename_i h
      rw [h.1]
      decide
    · exact Nat.le_refl _
  · exact Nat.le_refl _

/-- As long as a call is pending, something happens without the clients. -/
theorem unaided_step (h : Inv s) (hpending : ∃ call ∈ s.calls, call.phase ≠ .resolved) :
    ∃ e t, step s e = some t ∧ Unaided s e ∧ work t < work s := by
  obtain ⟨call, hcall, hphase⟩ := hpending
  by_cases hracing : ∃ call ∈ s.calls, call.phase = .racing
  · obtain ⟨call, hcall, hphase⟩ := hracing
    obtain ⟨k, hk⟩ := List.getElem?_of_mem hcall
    have htimer := ((h.calls call hcall).racing hphase).1
    refine ⟨.timer k, { s with
      socket := fun c => if c ∈ call.clients then terminate (s.socket c) else s.socket c
      calls := s.calls.set k { call with
        timer := false, phase := if call.phase = .racing then .raced else call.phase } }, ?_, trivial, ?_⟩
    · show timerStep s k = some _
      unfold timerStep
      rw [hk]
      exact if_pos htimer
    · have hsame : unclosed (fun c => if c ∈ call.clients then terminate (s.socket c) else s.socket c)
          (List.range s.joined) = unclosed s.socket (List.range s.joined) := by
        refine unclosed_congr fun d _ => ?_
        split
        · exact terminate_closed _
        · rfl
      unfold work
      simp only
      rw [hsame]
      exact Nat.add_lt_add_right (sum_set_lt hk (by simp [hphase, Phase.rank])) _
  push Not at hracing
  by_cases hconnected : ∃ c < s.joined, s.socket c ≠ .closed
  · obtain ⟨c, hc, hne⟩ := hconnected
    have hok := h.calls call hcall
    have hterminated : s.socket c = .terminated :=
      (hok.ended (hracing call hcall) c (hok.all c hc hne)).resolve_right hne
    refine ⟨.gone c, _, if_pos ⟨hc, hne⟩, hterminated, ?_⟩
    have hcount := unclosed_gone List.nodup_range hne (l := List.range s.joined)
    rw [if_pos (List.mem_range.mpr hc)] at hcount
    have hsum : ((s.calls.map (done c)).map fun call => call.phase.rank).sum ≤
        (s.calls.map fun call => call.phase.rank).sum := by
      rw [List.map_map]
      exact List.sum_le_sum fun call _ => rank_done c call
    unfold work
    simp only
    omega
  push Not at hconnected
  have hnone : wssClients s = [] := by
    refine List.filter_eq_nil_iff.mpr fun c hc => ?_
    simpa using hconnected c (List.mem_range.mp hc)
  obtain ⟨k, hk⟩ := List.getElem?_of_mem hcall
  cases hp : call.phase with
  | racing => exact absurd hp (hracing call hcall)
  | resolved => exact absurd hp hphase
  | raced =>
    refine ⟨.resume k, { s with calls := s.calls.set k { call with phase := .closingServer } }, ?_, trivial, ?_⟩
    · simp only [step, hk]
      exact if_pos hp
    · exact Nat.add_lt_add_right (sum_set_lt hk (by simp [hp, Phase.rank])) _
  | closingServer =>
    refine ⟨.finish k, { s with calls := s.calls.set k { call with phase := .resolved } }, ?_, trivial, ?_⟩
    · simp only [step, hk]
      exact if_pos ⟨hp, hnone⟩
    · exact Nat.add_lt_add_right (sum_set_lt hk (by simp [hp, Phase.rank])) _

/-- Whatever the clients do, every call can come to its end without them. -/
theorem unaided_end (h : Inv s) : ∃ es t, exec step s es = some t ∧ Along step Unaided s es ∧
    ∀ call ∈ t.calls, call.phase = .resolved := by
  induction hn : work s using Nat.strongRecOn generalizing s with
  | ind n ih =>
    by_cases hpending : ∃ call ∈ s.calls, call.phase ≠ .resolved
    · obtain ⟨e, t, hst, hunaided, hless⟩ := unaided_step h hpending
      obtain ⟨es, u, hu, halong, hend⟩ := ih (work t) (hn ▸ hless) (Inv.step h hst) rfl
      refine ⟨e :: es, u, ?_, along_cons_of hunaided hst halong, hend⟩
      rw [exec_cons, hst]
      exact hu
    · push Not at hpending
      exact ⟨[], s, rfl, trivial, hpending⟩

/-! ## The first call and what comes after it -/

theorem sent_close (h : s.sent = []) : (closeStep s).sent = openClients s := by
  show s.sent ++ (wssClients s).filter (fun c => s.socket c = .open) = _
  rw [h, List.nil_append, wssClients, openClients, List.filter_filter]
  refine List.filter_congr fun c _ => ?_
  cases s.socket c <;> rfl

/-- From the first call on nobody joins. Exactly the clients with an open socket are
told, each once; a call resolves only when nobody is connected; only an expired budget
terminates a client; and no client can keep a call from its end. -/
theorem close_of_run {before after : List Event} {u : State} (hu : exec step init before = some u)
    (hfirst : .close ∉ before) (h : exec step u (.close :: after) = some t) :
    t.sent = openClients u ∧ t.joined = u.joined ∧
      (∀ call ∈ t.calls, call.phase = .resolved → t.upgrading = false ∧ ∀ c < t.joined, t.socket c = .closed) ∧
      (∀ c < t.joined, t.socket c = .terminated → ∃ call ∈ t.calls, c ∈ call.clients ∧ call.timer = false) ∧
      ∃ es v, exec step t es = some v ∧ Along step Unaided t es ∧ ∀ call ∈ v.calls, call.phase = .resolved := by
  have hinvU : Inv u := inv_run inv_init hu
  obtain ⟨-, hsentU⟩ := untold_run hfirst rfl hu
  have hafter : exec step (closeStep u) after = some t := h
  have hinvT : Inv t := inv_run hinvU.close hafter
  obtain ⟨hsent, hjoined⟩ := told_run hinvU.close (by simp [closeStep]) hafter
  refine ⟨hsent.trans (sent_close hsentU), hjoined, fun call hcall hp => ?_, hinvT.expired, unaided_end hinvT⟩
  have hok := hinvT.calls call hcall
  refine ⟨(hinvT.closing (List.ne_nil_of_mem hcall)).1, fun c hc => ?_⟩
  by_contra hne
  exact hne (hok.resolved hp c (hok.all c hc hne))

/-- Of three clients one is leaving; a second one answers the close frame, and the
third never does. -/
def threeClients : List Event := [.upgrade, .upgrade, .upgrade, .leave 2]

def hangingClient : List Event := [.gone 2, .close, .gone 0]

theorem close_of_hanging : ∃ u t, exec step init threeClients = some u ∧
    exec step u (.close :: hangingClient) = some t ∧ t.sent = [0, 1] ∧ t.socket 1 = .goingAway ∧
    ∃ es v, exec step t es = some v ∧ ∀ call ∈ v.calls, call.phase = .resolved := by
  obtain ⟨hsent, -, -, -, es, v, hv, -, hend⟩ :=
    @close_of_run _ threeClients hangingClient _ rfl (by decide) rfl
  exact ⟨_, _, rfl, rfl, hsent, rfl, es, v, hv, hend⟩

end Conductor.Http.WsDrain
