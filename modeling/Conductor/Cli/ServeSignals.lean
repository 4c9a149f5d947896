import Conductor.Http.Server
import Conductor.Http.Shutdown

/-! # Signals to a serving process

Each signal closes the daemon, and the process exits when that close has resolved. The
close of a later signal resolves at once, whatever the first one still waits for: it ends
the process, always with success and with the report of an orderly end. What else ends a
serving process is a request that its handler is rejected for: nobody handles that. -/
namespace Conductor.Cli.ServeSignals
open Conductor.Lib.Runs Conductor.Js.Text Conductor.Http
open Conductor.Http.Server (Daemon Request Admitted IsServed handleRequest request_served_iff targetOf someDaemon)
open Conductor.Http.Shutdown (Call Close ShutdownReport Quiet serverClosed tornDown check resumeStep
  resumeWsStep resumeHttpStep)

/-! ## The system -/

inductive Signal
  | SIGINT
  | SIGTERM

def Signal.name : Signal → JsString
  | .SIGINT => js "SIGINT"
  | .SIGTERM => js "SIGTERM"

inductive Cause
  /-- A handler of a signal calls `process.exit(0)`. -/
  | handler (k : Nat) (report : ShutdownReport)
  /-- The runtime ends the process for an unhandled rejection. -/
  | rejection (req : Request)

structure Exit where
  code : Nat
  cause : Cause

structure State where
  daemon : Shutdown.State
  /-- Handler `k` runs for the `k`-th signal, and made the `k`-th call of `close`. -/
  signals : List Signal
  stdout : List JsString
  exited : Option Exit

inductive Event
  | daemon (e : Shutdown.Event)
  | request (req : Request)
  | signal (signal : Signal)
  /-- A handler continues after its `close`. -/
  | report (k : Nat)

def init (now : Int) (store : Bool) : State := ⟨Shutdown.init now store, [], [], none⟩

def receivedText (signal : Signal) : JsString :=
  js "\nagent-conductor: " ++ signal.name ++ js " received — draining...\n"

def closedText (report : ShutdownReport) : JsString :=
  let status := if report.httpDrained then js "clean" else js "timed out (forced)"
  js "agent-conductor: closed " ++ status ++ js " in " ++ ofInt report.elapsedMs ++ js "ms (http inflight " ++
    ofInt report.inflightAtStart ++ js "→0, ws clients " ++ ofInt report.wsClientsClosed ++
    (if 0 < report.samplesWritten then js ", " ++ ofInt report.samplesWritten ++ js " samples written" else []) ++
    js ")\n"

/-- What is not the daemon's own: the handlers are its only callers, and a request has
its content. -/
def foreign : Shutdown.Event → Bool
  | .close | .gracefulClose | .request => true
  | _ => false

/-- The code of an unhandled rejection is 1. -/
def step (http : Daemon) (s : State) (e : Event) : Option State :=
  if s.exited.isSome then none
  else match e with
    | .daemon e =>
      if foreign e then none else (Shutdown.step s.daemon e).map fun daemon => { s with daemon }
    | .request req => (Shutdown.step s.daemon .request).map fun daemon => { s with
        daemon
        exited := if (handleRequest http req).rejected then some ⟨1, .rejection req⟩ else none }
    | .signal signal => some { s with
        daemon := Shutdown.close s.daemon
        signals := s.signals ++ [signal]
        stdout := s.stdout ++ [receivedText signal] }
    | .report k =>
      match s.daemon.closes[k]? with
      | some (.resolved report) => some { s with
          stdout := s.stdout ++ [closedText report]
          exited := some ⟨0, .handler k report⟩ }
      | _ => none

/-! ## What the daemon does by itself -/

variable {d d' : Shutdown.State}

/-- Its steps, by what they do to the calls. -/
inductive Own (d : Shutdown.State) : Shutdown.State → Prop
  | quiet {d' : Shutdown.State} (h : Quiet d d') : Own d d'
  | responded (r : Nat) (inflight : List Nat) :
      Own d { d with inflight, calls := d.calls.map (check r inflight) }
  | expired {k n : Nat} {pending : List Nat} (h : d.calls[k]? = some (.draining n pending)) :
      Own d { d with calls := d.calls.set k (.drainedTo n false) }
  | resumed {d' : Shutdown.State} {k : Nat} (h : resumeStep d k = some d') : Own d d'
  | resumedWs {d' : Shutdown.State} {k : Nat} (h : resumeWsStep d k = some d') : Own d d'
  | resumedHttp {d' : Shutdown.State} {k : Nat} (h : resumeHttpStep d k = some d') : Own d d'

theorem own_of_step {e : Shutdown.Event} (hclose : e ≠ .close) (hgraceful : e ≠ .gracefulClose)
    (h : Shutdown.step d e = some d') : Own d d' := by
  cases e with
  | close => exact absurd rfl hclose
  | gracefulClose => exact absurd rfl hgraceful
  | resume k => exact .resumed h
  | resumeWs k => exact .resumedWs h
  | resumeHttp k => exact .resumedHttp h
  | clock ms =>
    cases h
    exact .quiet ⟨rfl, rfl, rfl, rfl, rfl, rfl, id, id⟩
  | sample =>
    simp only [Shutdown.step] at h
    split at h
    · cases h
      exact .quiet ⟨rfl, rfl, rfl, rfl, rfl, rfl, id, id⟩
    · cases h
  | connect =>
    simp only [Shutdown.step] at h
    split at h
    · rename_i hlistening
      cases h
      refine .quiet ⟨rfl, rfl, rfl, rfl, rfl, rfl, fun hserved => ?_, id⟩
      cases hlistening.symm.trans hserved.1
    · cases h
  | request =>
    simp only [Shutdown.step] at h
    split at h
    · cases h
    · cases h
      exact .quiet ⟨rfl, rfl, rfl, rfl, rfl, rfl, id, id⟩
  | upgrade =>
    simp only [Shutdown.step] at h
    split at h
    · rename_i hopen
      cases h
      exact .quiet ⟨rfl, rfl, rfl, rfl, rfl, rfl, fun hserved => absurd hserved.2.1 hopen.2, id⟩
    · cases h
  | responseClosed r =>
    simp only [Shutdown.step] at h
    split at h
    · cases h
      exact .responded r _
    · cases h
  | disconnect =>
    simp only [Shutdown.step] at h
    split at h
    · cases h
    · rename_i hopen
      cases h
      exact .quiet ⟨rfl, rfl, rfl, rfl, rfl, rfl, fun hserved => absurd hserved.2.1 hopen, id⟩
  | clientGone =>
    simp only [Shutdown.step] at h
    split at h
    · cases h
    · rename_i hopen
      cases h
      exact .quiet ⟨rfl, rfl, rfl, rfl, rfl, rfl, fun hserved => absurd hserved.2.2 hopen, id⟩
  | drainTimer k =>
    simp only [Shutdown.step] at h
    split at h
    · rename_i hk
      cases h
      exact .expired hk
    · cases h

/-! ## How far the first close has come -/

inductive Phase (d : Shutdown.State) : Option Close → Prop
  | running (up : d.daemonClosed = false) (asked : d.closed = false) (calls : d.calls = [])
      (cached : d.cachedReport = none) : Phase d none
  | closingWs {t0 : Int} {clients : Nat} (down : d.daemonClosed = true) (asked : d.closed = false)
      (calls : d.calls = []) (cached : d.cachedReport = none) : Phase d (some (.closingWs t0 clients))
  /-- Its call of `gracefulClose` is the only one. -/
  | closingHttp {t0 : Int} {clients : Nat} {call : Call} (down : d.daemonClosed = true)
      (calls : d.calls = [call]) (served : ∀ r, call = .resolved r → serverClosed d)
      (cached : d.cachedReport = none) : Phase d (some (.closingHttp t0 clients 0))
  | done {report : ShutdownReport} (down : d.daemonClosed = true) (torn : tornDown d)
      (cached : d.cachedReport = some report) : Phase d (some (.resolved report))

/-- What a close that is not the first was told. -/
def Late (first : Option Close) (c : Close) : Prop :=
  ∃ report, c = .resolved report ∧ (first = some (.resolved report) ∨ ∃ samples, report = ⟨true, 0, 0, 0, samples⟩)

structure Closing (d : Shutdown.State) : Prop where
  phase : Phase d d.closes.head?
  late : ∀ c ∈ d.closes.tail, Late d.closes.head? c

theorem closing_init (now : Int) (store : Bool) : Closing (Shutdown.init now store) :=
  ⟨.running rfl rfl rfl rfl, fun _ h => (by cases h)⟩

theorem Phase.quiet {first : Option Close} (h : Phase d first) (q : Quiet d d') : Phase d' first := by
  cases h with
  | running up asked calls cached =>
    exact .running (q.daemonClosed.trans up) (q.closed.trans asked) (q.calls.trans calls) (q.cachedReport.trans cached)
  | closingWs down asked calls cached =>
    exact .closingWs (q.daemonClosed.trans down) (q.closed.trans asked) (q.calls.trans calls)
      (q.cachedReport.trans cached)
  | closingHttp down calls served cached =>
    exact .closingHttp (q.daemonClosed.trans down) (q.calls.trans calls) (fun r hr => q.served (served r hr))
      (q.cachedReport.trans cached)
  | done down torn cached =>
    exact .done (q.daemonClosed.trans down) ⟨q.served torn.1, q.store torn.2⟩ (q.cachedReport.trans cached)

/-- The calls of `gracefulClose` move on, and nothing else that counts. -/
theorem Phase.calls {first : Option Close} (h : Phase d first) {calls : List Call} {inflight : List Nat} {forced : Bool}
    (hnone : d.calls = [] → calls = [])
    (hone : ∀ call, d.calls = [call] → ∃ call', calls = [call'] ∧
      ∀ r, call' = .resolved r → call = .resolved r ∨ serverClosed d) :
    Phase { d with calls, inflight, forced } first := by
  cases h with
  | running up asked hcalls cached => exact .running up asked (hnone hcalls) cached
  | closingWs down asked hcalls cached => exact .closingWs down asked (hnone hcalls) cached
  | closingHttp down hcalls served cached =>
    obtain ⟨call', hcall', hserved⟩ := hone _ hcalls
    exact .closingHttp down hcall' (fun r hr => (hserved r hr).elim (fun hr => served r hr) id) cached
  | done down torn cached => exact .done down torn cached

theorem Phase.closes {first : Option Close} (h : Phase d first) (closes : List Close) : Phase { d with closes } first := by
  cases h with
  | running up asked calls cached => exact .running up asked calls cached
  | closingWs down asked calls cached => exact .closingWs down asked calls cached
  | closingHttp down calls served cached => exact .closingHttp down calls served cached
  | done down torn cached => exact .done down torn cached

theorem check_resolved {r : Nat} {inflight : List Nat} {call : Call} {report : Shutdown.DrainReport}
    (h : check r inflight call = .resolved report) : call = .resolved report := by
  cases call with
  | draining n pending =>
    simp only [check] at h
    split at h
    · cases h
    · cases h
  | drainedTo _ _ => exact h
  | closing _ _ => exact h
  | resolved _ => exact h

/-- The call at a position of one call is that one. -/
theorem of_getElem?_singleton {α : Type} {a b : α} {k : Nat} (h : ([a] : List α)[k]? = some b) : k = 0 ∧ a = b := by
  cases k with
  | zero => exact ⟨rfl, Option.some.inj h⟩
  | succ k => cases h

theorem Phase.resumed {first : Option Close} (h : Phase d first) {k : Nat} (hres : resumeStep d k = some d') :
    Phase d' first ∧ d'.closes = d.closes := by
  unfold resumeStep at hres
  split at hres
  · rename_i n drained hk
    cases hres
    refine ⟨h.calls (fun hnone => ?_) fun call hcall => ?_, rfl⟩
    · rw [hnone] at hk
      cases hk
    · rw [hcall] at hk ⊢
      obtain ⟨rfl, -⟩ := of_getElem?_singleton hk
      exact ⟨_, rfl, fun r hr => by cases hr⟩
  · rename_i n drained hk
    split at hres
    · rename_i hserved
      cases hres
      refine ⟨h.calls (fun hnone => ?_) fun call hcall => ?_, rfl⟩
      · rw [hnone] at hk
        cases hk
      · rw [hcall] at hk ⊢
        obtain ⟨rfl, -⟩ := of_getElem?_singleton hk
        exact ⟨_, rfl, fun _ _ => .inr hserved⟩
    · cases hres
  · cases hres

/-- Only the first close is pending. -/
theorem Closing.pending (h : Closing d) {k : Nat} {c : Close} (hk : d.closes[k]? = some c)
    (hc : ∀ report, c ≠ .resolved report) : k = 0 ∧ d.closes.head? = some c := by
  cases hcloses : d.closes with
  | nil =>
    rw [hcloses] at hk
    cases hk
  | cons first rest =>
    rw [hcloses] at hk
    cases k with
    | zero => exact ⟨rfl, hk⟩
    | succ k =>
      have hmem : c ∈ d.closes.tail := by
        rw [hcloses]
        exact List.mem_of_getElem? hk
      obtain ⟨report, hreport, -⟩ := h.late c hmem
      exact absurd hreport (hc report)

/-- The first close moves on; it had no report yet, so the later ones were told nothing. -/
theorem Closing.advance (h : Closing d) {c c' : Close} (hc : d.closes.head? = some c)
    (hpending : ∀ report, c ≠ .resolved report) (hcloses : d'.closes = d.closes.set 0 c')
    (hphase : Phase d' (some c')) : Closing d' := by
  obtain ⟨rest, hrest⟩ := List.head?_eq_some_iff.mp hc
  have hset : d'.closes = c' :: rest := by
    rw [hcloses, hrest]
    rfl
  refine ⟨by rw [hset]; exact hphase, fun x hx => ?_⟩
  rw [hset] at hx
  have hmem : x ∈ d.closes.tail := by
    rw [hrest]
    exact hx
  obtain ⟨report, rfl, htold⟩ := h.late x hmem
  refine ⟨report, rfl, .inr (htold.resolve_left fun heq => ?_)⟩
  rw [hc] at heq
  exact hpending report (Option.some.inj heq)

/-- What leaves the closes alone. -/
theorem Closing.keep (h : Closing d) (hcloses : d'.closes = d.closes) (hphase : Phase d' d.closes.head?) :
    Closing d' :=
  ⟨by rw [hcloses]; exact hphase, by rw [hcloses]; exact h.late⟩

theorem Closing.resumedWs (h : Closing d) {k : Nat} (hres : resumeWsStep d k = some d') : Closing d' := by
  unfold resumeWsStep at hres
  split at hres
  · rename_i t0 clients hk
    split at hres
    · cases hres
      obtain ⟨rfl, hfirst⟩ := h.pending hk fun _ hc => by cases hc
      have hphase := h.phase
      rw [hfirst] at hphase
      cases hphase with
      | closingWs down asked calls cached =>
        have hasked : ({ d with closes := d.closes.set 0 (.closingHttp t0 clients d.calls.length) } :
            Shutdown.State).closed = false := asked
        rw [Shutdown.gracefulClose_first hasked]
        have hmoved : d.closes.set 0 (.closingHttp t0 clients d.calls.length) =
            d.closes.set 0 (.closingHttp t0 clients 0) := by
          rw [calls]
          rfl
        have hcalls : ∀ call, d.calls ++ [call] = [call] := fun call => by rw [calls]; rfl
        refine h.advance hfirst (fun _ hc => by cases hc) hmoved (.closingHttp down (hcalls _) (fun r hr => ?_) cached)
        split at hr
        · cases hr
        · cases hr
    · cases hres
  · cases hres

theorem Closing.resumedHttp (h : Closing d) {k : Nat} (hres : resumeHttpStep d k = some d') : Closing d' := by
  unfold resumeHttpStep at hres
  split at hres
  · rename_i t0 clients call hk
    split at hres
    · rename_i http hcall
      cases hres
      obtain ⟨rfl, hfirst⟩ := h.pending hk fun _ hc => by cases hc
      have hphase := h.phase
      rw [hfirst] at hphase
      cases hphase with
      | closingHttp down calls served cached =>
        rw [calls] at hcall
        obtain ⟨-, rfl⟩ := of_getElem?_singleton hcall
        exact h.advance hfirst (fun _ hc => by cases hc) rfl (.done down ⟨served http rfl, rfl⟩ rfl)
    · cases hres
  · cases hres

theorem Closing.own (h : Closing d) (hown : Own d d') : Closing d' := by
  cases hown with
  | quiet q => exact h.keep q.closes (h.phase.quiet q)
  | responded r inflight =>
    refine h.keep rfl (h.phase.calls (fun hnone => by rw [hnone]; rfl) fun call hcall => ?_)
    rw [hcall]
    exact ⟨_, rfl, fun report hr => .inl (check_resolved hr)⟩
  | expired hk =>
    refine h.keep rfl (h.phase.calls (fun hnone => ?_) fun call hcall => ?_)
    · rw [hnone] at hk
      cases hk
    · rw [hcall] at hk ⊢
      obtain ⟨rfl, -⟩ := of_getElem?_singleton hk
      exact ⟨_, rfl, fun r hr => by cases hr⟩
  | resumed hres =>
    obtain ⟨hphase, hcloses⟩ := h.phase.resumed hres
    exact h.keep hcloses hphase
  | resumedWs hres => exact h.resumedWs hres
  | resumedHttp hres => exact h.resumedHttp hres

/-- A signal makes the first call, or one that has its report at once. -/
theorem Closing.close (h : Closing d) : Closing (Shutdown.close d) := by
  have hphase := h.phase
  cases hfirst : d.closes.head? with
  | none =>
    rw [hfirst] at hphase
    cases hphase with
    | running up asked calls cached =>
      rw [Shutdown.close_first up, List.head?_eq_none_iff.mp hfirst]
      exact ⟨.closingWs rfl asked calls cached, fun _ hx => by cases hx⟩
  | some c =>
    have hdown : d.daemonClosed = true := by
      rw [hfirst] at hphase
      cases hphase with
      | closingWs down | closingHttp down | done down => exact down
    rw [Shutdown.close_late hdown]
    obtain ⟨rest, hrest⟩ := List.head?_eq_some_iff.mp hfirst
    have hhead : ∀ x, (d.closes ++ [x]).head? = d.closes.head? := fun x => by rw [hrest]; rfl
    have htail : ∀ x, (d.closes ++ [x]).tail = d.closes.tail ++ [x] := fun x => by rw [hrest]; rfl
    refine ⟨?_, fun x hx => ?_⟩
    · show Phase _ (d.closes ++ [_]).head?
      rw [hhead]
      exact h.phase.closes _
    · show Late (d.closes ++ [_]).head? x
      rw [hhead]
      have hx' : x ∈ d.closes.tail ++ [.resolved (d.cachedReport.getD ⟨true, 0, 0, 0, d.writtenCount⟩)] := by
        rw [← htail]
        exact hx
      rcases List.mem_append.mp hx' with hx | hx
      · exact h.late x hx
      · refine ⟨_, List.mem_singleton.mp hx, ?_⟩
        rw [hfirst] at hphase ⊢
        cases hphase with
        | closingWs _ _ _ cached | closingHttp _ _ _ cached => exact .inr ⟨_, by rw [cached]; rfl⟩
        | done _ _ cached => exact .inl (by rw [cached]; rfl)

theorem closes_gracefulClose (d : Shutdown.State) : (Shutdown.gracefulClose d).closes = d.closes := by
  unfold Shutdown.gracefulClose
  split
  · rfl
  · rfl

/-- No call of `close` is added. -/
theorem length_closes (hown : Own d d') : d'.closes.length = d.closes.length := by
  cases hown with
  | quiet q => rw [q.closes]
  | responded r inflight => rfl
  | expired hk => rfl
  | @resumed _ k hres =>
    unfold resumeStep at hres
    split at hres
    · cases hres
      rfl
    · split at hres
      · cases hres
        rfl
      · cases hres
    · cases hres
  | @resumedWs _ k hres =>
    unfold resumeWsStep at hres
    split at hres
    · split at hres
      · cases hres
        rw [closes_gracefulClose]
        exact List.length_set
      · cases hres
    · cases hres
  | @resumedHttp _ k hres =>
    unfold resumeHttpStep at hres
    split at hres
    · split at hres
      · cases hres
        exact List.length_set
      · cases hres
    · cases hres

theorem length_close (d : Shutdown.State) : (Shutdown.close d).closes.length = d.closes.length + 1 := by
  unfold Shutdown.close
  split
  · exact List.length_append
  · exact List.length_append

/-! ## The process -/

structure Inv (http : Daemon) (s : State) : Prop where
  closing : Closing s.daemon
  /-- Every call of `close` is that of a handler. -/
  handlers : s.daemon.closes.length = s.signals.length
  ended : ∀ x ∈ s.exited, match x.cause with
    | .handler k report => x.code = 0 ∧ s.daemon.closes[k]? = some (.resolved report) ∧
        s.stdout.getLast? = some (closedText report)
    | .rejection req => x.code = 1 ∧ (handleRequest http req).rejected = true

variable {http : Daemon}

/-- What the daemon does by itself, and whatever ends the process with it. -/
theorem Inv.own {s : State} (h : Inv http s) (hmoved : Own s.daemon d') {exited : Option Exit}
    (hexited : ∀ x ∈ exited, ∃ req, x = ⟨1, .rejection req⟩ ∧ (handleRequest http req).rejected = true) :
    Inv http { s with daemon := d', exited } := by
  refine ⟨h.closing.own hmoved, (length_closes hmoved).trans h.handlers, fun x hx => ?_⟩
  obtain ⟨req, rfl, hrejected⟩ := hexited x hx
  exact ⟨rfl, hrejected⟩

theorem Inv.step {s t : State} {e : Event} (h : Inv http s) (ht : step http s e = some t) : Inv http t := by
  unfold ServeSignals.step at ht
  split at ht
  · cases ht
  rename_i hup
  have hnone : s.exited = none := by simpa using hup
  cases e with
  | daemon e =>
    simp only at ht
    split at ht
    · cases ht
    rename_i hown
    obtain ⟨d, hd, rfl⟩ := Option.map_eq_some_iff.mp ht
    have hmoved : Own s.daemon d := by
      refine own_of_step ?_ ?_ hd
      · rintro rfl
        exact hown rfl
      · rintro rfl
        exact hown rfl
    exact h.own hmoved fun x hx => by rw [hnone] at hx; cases hx
  | request req =>
    obtain ⟨d, hd, rfl⟩ := Option.map_eq_some_iff.mp ht
    refine h.own (own_of_step (fun h => by cases h) (fun h => by cases h) hd) fun x hx => ?_
    split at hx
    · rename_i hrejected
      cases hx
      exact ⟨req, rfl, hrejected⟩
    · cases hx
  | signal signal =>
    cases ht
    refine ⟨h.closing.close, ?_, fun x hx => ?_⟩
    · show (Shutdown.close s.daemon).closes.length = _
      rw [length_close, h.handlers, List.length_append]
      rfl
    · have hx : x ∈ s.exited := hx
      rw [hnone] at hx
      cases hx
  | report k =>
    simp only at ht
    split at ht
    · rename_i report hk
      cases ht
      refine ⟨h.closing, h.handlers, fun x hx => ?_⟩
      cases hx
      exact ⟨rfl, hk, List.getLast?_concat⟩
    · cases ht

theorem inv_init (now : Int) (store : Bool) : Inv http (init now store) :=
  ⟨closing_init now store, rfl, fun _ hx => by cases hx⟩

/-- What a handler leaves that ends the process. -/
structure Left (s : State) (k : Nat) (report : ShutdownReport) : Prop where
  said : s.stdout.getLast? = some (closedText report)
  asked : k < s.signals.length
  /-- The handler of the first signal waits for everything. -/
  orderly : k = 0 → tornDown s.daemon
  /-- Anything that is left was left by a later one, which reports an orderly end. -/
  abandoned : ¬ tornDown s.daemon → ∃ samples, report = ⟨true, 0, 0, 0, samples⟩

/-- The guards let the request pass, and its target is no URL. -/
def Unservable (http : Daemon) (req : Request) : Prop :=
  Admitted req ∧ ∀ query, http.newURL (targetOf req) ≠ .ok query

/-- How a process has ended. -/
inductive Ended (http : Daemon) (s : State) : Exit → Prop
  | handler {k : Nat} {report : ShutdownReport} (left : Left s k report) : Ended http s ⟨0, .handler k report⟩
  | rejection {req : Request} (unservable : Unservable http req) : Ended http s ⟨1, .rejection req⟩

/-- The handler of the server is rejected for exactly these. -/
theorem rejected_iff {req : Request} : (handleRequest http req).rejected = true ↔ Unservable http req := by
  have hserved : IsServed http req ↔ (handleRequest http req).rejected = false := by
    refine ⟨fun h => h.2.2, fun h => Server.isServed_iff_ok.mpr ?_⟩
    unfold handleRequest at h
    split at h
    · cases h
    · exact ⟨_, ‹_›⟩
    · exact ⟨_, ‹_›⟩
  rw [← Bool.not_eq_false, ← hserved, request_served_iff, Unservable]
  push Not
  rfl

theorem Inv.left {s : State} (h : Inv http s) {k : Nat} {report : ShutdownReport}
    (hreport : s.daemon.closes[k]? = some (.resolved report)) (hsaid : s.stdout.getLast? = some (closedText report)) :
    Left s k report := by
  have hphase := h.closing.phase
  have htorn : ∀ report, s.daemon.closes.head? = some (.resolved report) → tornDown s.daemon := by
    intro report hfirst
    rw [hfirst] at hphase
    cases hphase with
    | done _ torn => exact torn
  refine ⟨hsaid, ?_, fun hzero => ?_, fun hleft => ?_⟩
  · rw [← h.handlers]
    exact (List.getElem?_eq_some_iff.mp hreport).1
  · rw [hzero, ← List.head?_eq_getElem?] at hreport
    exact htorn _ hreport
  · cases hcloses : s.daemon.closes with
    | nil =>
      rw [hcloses] at hreport
      cases hreport
    | cons first rest =>
      cases k with
      | zero =>
        rw [← List.head?_eq_getElem?] at hreport
        exact absurd (htorn _ hreport) hleft
      | succ k =>
        rw [hcloses] at hreport
        have hmem : .resolved report ∈ s.daemon.closes.tail := by
          rw [hcloses]
          exact List.mem_of_getElem? hreport
        obtain ⟨report', heq, htold⟩ := h.closing.late _ hmem
        cases heq
        exact htold.resolve_left fun hfirst => hleft (htorn _ hfirst)

theorem Inv.isEnded {s : State} (h : Inv http s) {x : Exit} (hx : x ∈ s.exited) : Ended http s x := by
  have hended := h.ended x hx
  obtain ⟨code, cause⟩ := x
  cases cause with
  | handler k report =>
    obtain ⟨rfl, hreport, hsaid⟩ := hended
    exact .handler (h.left hreport hsaid)
  | rejection req =>
    obtain ⟨rfl, hrejected⟩ := hended
    exact .rejection (rejected_iff.mp hrejected)

/-- After a signal the daemon is closing. -/
theorem Inv.down {s : State} (h : Inv http s) (hasked : s.signals ≠ []) : s.daemon.daemonClosed = true := by
  have hphase := h.closing.phase
  cases hfirst : s.daemon.closes.head? with
  | none =>
    have hlen := h.handlers
    rw [List.head?_eq_none_iff.mp hfirst] at hlen
    exact absurd (List.length_eq_zero_iff.mp hlen.symm) hasked
  | some c =>
    rw [hfirst] at hphase
    cases hphase with
    | closingWs down | closingHttp down | done down => exact down

theorem step_signal {s : State} (hup : s.exited = none) (signal : Signal) : step http s (.signal signal) = some { s with
    daemon := Shutdown.close s.daemon
    signals := s.signals ++ [signal]
    stdout := s.stdout ++ [receivedText signal] } := by
  unfold step
  rw [hup]
  rfl

theorem step_report {s : State} (hup : s.exited = none) {k : Nat} {report : ShutdownReport}
    (hk : s.daemon.closes[k]? = some (.resolved report)) : step http s (.report k) = some { s with
      stdout := s.stdout ++ [closedText report]
      exited := some ⟨0, .handler k report⟩ } := by
  unfold step
  simp only [hup, hk]
  rfl

/-- One more signal, and the process can end at once. -/
theorem once_more {s : State} (h : Inv http s) (hup : s.exited = none) (hasked : s.signals ≠ []) (signal : Signal) :
    ∃ t u report, step http s (.signal signal) = some t ∧ step http t (.report s.signals.length) = some u ∧
      u.exited = some ⟨0, .handler s.signals.length report⟩ := by
  have hcloses : (Shutdown.close s.daemon).closes[s.signals.length]? =
      some (.resolved (s.daemon.cachedReport.getD ⟨true, 0, 0, 0, s.daemon.writtenCount⟩)) := by
    rw [Shutdown.close_late (h.down hasked), ← h.handlers]
    exact List.getElem?_concat_length
  refine ⟨_, _, _, step_signal hup signal, step_report ?_ hcloses, rfl⟩
  exact hup

/-- A request that comes in on an open connection and cannot be served ends the process. -/
theorem step_unservable {s : State} (hup : s.exited = none) (hopen : s.daemon.connections ≠ 0) {req : Request}
    (hreq : Unservable http req) : ∃ t, step http s (.request req) = some t ∧ t.exited = some ⟨1, .rejection req⟩ := by
  unfold step
  simp only [hup, Shutdown.step, if_neg hopen, rejected_iff.mpr hreq]
  exact ⟨_, rfl, rfl⟩

/-- However the daemon, its clients and the signals interleave: a process ends by a
signal, with success and with one last line, or by a request that cannot be served,
with failure. The handler of the first signal leaves nothing open, and whatever a later
one leaves, it reports that nothing was there. Any later signal can end the process at
once, and any such request does. -/
theorem signals_end {now : Int} {store : Bool} {es : List Event} {s : State}
    (h : exec (step http) (init now store) es = some s) :
    (∀ x ∈ s.exited, Ended http s x) ∧
      (s.exited = none → s.signals ≠ [] → ∀ signal, ∃ t u report, step http s (.signal signal) = some t ∧
        step http t (.report s.signals.length) = some u ∧
        u.exited = some ⟨0, .handler s.signals.length report⟩ ∧ Left u s.signals.length report) ∧
      (s.exited = none → s.daemon.connections ≠ 0 → ∀ req, Unservable http req →
        ∃ t, step http s (.request req) = some t ∧ t.exited = some ⟨1, .rejection req⟩) := by
  have hinv : Inv http s := exec_invariant (fun _ _ _ hst hi => hi.step hst) h (inv_init now store)
  refine ⟨fun x hx => hinv.isEnded hx, fun hup hasked signal => ?_, fun hup hopen req hreq =>
    step_unservable hup hopen hreq⟩
  obtain ⟨t, u, report, ht, hu, hx⟩ := once_more hinv hup hasked signal
  refine ⟨t, u, report, ht, hu, hx, ?_⟩
  cases ((hinv.step ht).step hu).isEnded hx with
  | handler left => exact left

/-- Ctrl+C twice, while a client is connected. -/
def twice : List Event :=
  [.daemon .connect, .daemon .upgrade, .daemon .sample, .signal .SIGINT, .signal .SIGINT, .report 1]

/-- `GET //` on a connection of its own, while a websocket client is there. -/
def doubleSlash : Request := ⟨js "GET", some (js "127.0.0.1"), some (js "//")⟩

def rejectedRun : List Event := [.daemon .connect, .daemon .upgrade, .daemon .connect, .request doubleSlash]

/-- Nothing was closed, and the last line says that all was closed clean in no time; and
without any signal, a request ends the process. -/
theorem signals_end_twice :
    (∃ s report, exec (step someDaemon) (init 0 true) twice = some s ∧ s.exited = some ⟨0, .handler 1 report⟩ ∧
      Left s 1 report ∧ s.daemon.clients = 1 ∧ s.daemon.storeOpen = true ∧ s.stdout.getLast? =
        some (js "agent-conductor: closed clean in 0ms (http inflight 0→0, ws clients 0, 1 samples written)\n")) ∧
    ∃ s, exec (step someDaemon) (init 0 true) rejectedRun = some s ∧
      s.exited = some ⟨1, .rejection doubleSlash⟩ ∧ Ended someDaemon s ⟨1, .rejection doubleSlash⟩ := by
  refine ⟨?_, ?_⟩
  · have hrun : ∃ s, exec (step someDaemon) (init 0 true) twice = some s := ⟨_, rfl⟩
    obtain ⟨s, hs⟩ := hrun
    have hends := (signals_end hs).1
    cases hs
    cases hends _ rfl with
    | handler left => exact ⟨_, _, rfl, rfl, left, rfl, rfl, by decide +kernel⟩
  · have hrun : ∃ s, exec (step someDaemon) (init 0 true) rejectedRun = some s := ⟨_, rfl⟩
    obtain ⟨s, hs⟩ := hrun
    have hends := (signals_end hs).1
    cases hs
    exact ⟨_, rfl, rfl, hends _ rfl⟩

end Conductor.Cli.ServeSignals
