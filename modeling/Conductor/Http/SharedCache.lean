import Conductor.Http.SessionsPoller

/-! # Ticks beside other callers of the status cache

A tick that finds the cache fresh gets the map of whoever filled it. Where that
map was derived for the sessions of the tick, two ticks in a row see a session
with a steady status alike, and every sample belongs to a discovered session. -/
namespace Conductor.Http.SharedCache
open Conductor.Lib.Runs Conductor.Js.Text Conductor.Js.Values Conductor.Sessions
open Conductor.Sessions.Types Conductor.Sessions.RefinedStatus Conductor.Sessions.Provenance
open Conductor.Timeseries.Store Conductor.Http.SessionsPoller
open Conductor.Sessions.Schedule (Call Returned SameTargets sameTargets_refl)

variable {s t : State}

/-- A pid that is discovered twice has the same transcript both times. -/
def Agreeing (l : List LocalSession) : Prop :=
  ∀ o ∈ l, ∀ o' ∈ l, o.pid = o'.pid → transcriptOf o = transcriptOf o'

/-- A tick asks about sessions whose pids agree, and a fresh cache was filled
for a list with the same targets. -/
def OwnAnswers (s : State) : Event → Prop
  | .ask _ _ found => Agreeing (sessionsOf found) ∧
      ((fresh s.sched.cache s.sched.now).isSome = true → SameTargets (sessionsOf found) s.sched.filledFrom)
  | _ => True

/-- Since a moment, every derivation for the transcript gave the status. -/
def SteadySince (s : Schedule.State) (since : Int) (transcript : Option JsString)
    (status : RefinedStatus) : Prop :=
  ∀ (k : Nat) (c : Call) (r : Returned) (i : Nat) (o : LocalSession) (st : RefinedStatus),
    s.calls[k]? = some c → c.returned = some r → since < r.time → c.sessions[i]? = some o →
    transcriptOf o = transcript → c.progress[i]? = some (.done st) → st = status

/-! ## The invariant -/

/-- A tick that has asked. -/
structure AskInv (c : Schedule.State) (found : Found) (call : Nat) : Prop where
  asked : ∃ askedAt, Asked c call (sessionsOf found) (SameTargets (sessionsOf found)) askedAt
  agreeing : Agreeing (sessionsOf found)

structure ReportInv (c : Schedule.State) (r : Report) : Prop where
  source : Source c (SameTargets (sessionsOf r.found)) (r.askedAt - CACHE_TTL_MS) r.next
  agreeing : Agreeing (sessionsOf r.found)
  wrote : ∀ x ∈ r.wrote, ∃ now, x ∈ samplesOf now r.found r.next

/-- The map of the last of some reports. -/
def lastMap (reports : List Report) : PidMap RefinedStatus := (reports.getLast?.map (·.next)).getD []

structure PollerInv (c : Schedule.State) (p : Poller) : Prop where
  ticks : ∀ (k : Nat) found call, p.ticks[k]? = some (TickPhase.asked found call) →
    AskInv c found call
  reports : ∀ r ∈ p.reports, ReportInv c r
  prev : p.prev = lastMap p.reports
  chain : ∀ (i : Nat) r, p.reports[i]? = some r →
    r.updates = updates (lastMap (p.reports.take i)) r.next

structure Inv (s : State) : Prop where
  cache : CacheInv s.sched
  pollers : ∀ (g : Nat) p, s.pollers[g]? = some p → PollerInv s.sched p

variable {c c' : Schedule.State}

theorem PollerInv.sched {e : Schedule.Event} {p : Poller} (h : PollerInv c p)
    (hst : Schedule.step c e = some c') : PollerInv c' p := by
  refine ⟨fun k found call hk => ?_, fun r hr => ?_, h.prev, h.chain⟩
  · obtain ⟨⟨askedAt, hasked⟩, hagree⟩ := h.ticks k found call hk
    exact ⟨⟨askedAt, hasked.step (sameTargets_refl _) hst⟩, hagree⟩
  · obtain ⟨hsource, hagree, hwrote⟩ := h.reports r hr
    exact ⟨hsource.step hst, hagree, hwrote⟩

/-- A step that changes poller `g` only. -/
theorem Inv.set {g : Nat} {p' : Poller} (h : Inv s) (hsched : t.sched = s.sched)
    (hpollers : t.pollers = s.pollers.set g p') (hp' : PollerInv s.sched p') : Inv t := by
  refine ⟨by rw [hsched]; exact h.cache, fun g' q hq => ?_⟩
  rw [hpollers] at hq
  rw [hsched]
  by_cases hg : g = g'
  · subst hg
    have hlt : g < s.pollers.length := by
      have hlt := (List.getElem?_eq_some_iff.mp hq).1
      rwa [List.length_set] at hlt
    rw [List.getElem?_set_self hlt] at hq
    cases hq
    exact hp'
  · rw [List.getElem?_set_ne hg] at hq
    exact h.pollers g' q hq

/-- A tick that ends, or is not yet asked, adds nothing to be said. -/
theorem PollerInv.setTick {p : Poller} (k : Nat) {phase : TickPhase} (h : PollerInv c p)
    (hphase : ∀ found call, phase ≠ .asked found call) :
    PollerInv c { p with ticks := p.ticks.set k phase } := by
  refine ⟨fun k' found call hk' => ?_, h.reports, h.prev, h.chain⟩
  have hk' : (p.ticks.set k phase)[k']? = some (.asked found call) := hk'
  rw [List.getElem?_set] at hk'
  split at hk'
  · split at hk'
    · exact absurd (Option.some.inj hk') (hphase found call)
    · cases hk'
  · exact h.ticks k' found call hk'

theorem PollerInv.newTick {p : Poller} (h : PollerInv c p) :
    PollerInv c { p with ticks := p.ticks ++ [.discovering] } := by
  refine ⟨fun k found call hk => ?_, h.reports, h.prev, h.chain⟩
  have hk : (p.ticks ++ [TickPhase.discovering])[k]? = some (.asked found call) := hk
  rw [List.getElem?_append] at hk
  split at hk
  · exact h.ticks k found call hk
  · have hmem := List.mem_of_getElem? hk
    simp at hmem

theorem pollerInv_new (c : Schedule.State) : PollerInv c ⟨false, [], [.discovering], []⟩ := by
  refine ⟨fun k found call hk => ?_, fun r hr => (by cases hr), rfl, fun i r hr => (by simp at hr)⟩
  have hmem := List.mem_of_getElem? hk
  simp at hmem

/-! ## Steps -/

theorem inv_ask {g k : Nat} {found : Found} (h : Inv s) (hst : askTick s g k found = some t)
    (hc : OwnAnswers s (.ask g k found)) : Inv t := by
  obtain ⟨p, sched, hp, hk, hsched, rfl⟩ := askTick_cases hst
  have hcache : CacheInv sched := cacheInv_step hsched h.cache
  have hasked := asked_newCall h.cache hc.2 hsched
  refine ⟨hcache, fun g' q hq => ?_⟩
  have hq : (s.pollers.set g _)[g']? = some q := hq
  rw [List.getElem?_set] at hq
  split at hq
  · split at hq
    · cases hq
      have hold := (h.pollers g p hp).sched hsched
      refine ⟨fun k' found' call hk' => ?_, hold.reports, hold.prev, hold.chain⟩
      have hk' : (p.ticks.set k _)[k']? = some (.asked found' call) := hk'
      rw [List.getElem?_set] at hk'
      split at hk'
      · split at hk'
        · cases hk'
          exact ⟨⟨_, hasked⟩, hc.1⟩
        · cases hk'
      · exact hold.ticks k' found' call hk'
    · cases hq
  · exact (h.pollers g' q hq).sched hsched

theorem record_wrote {store : Option TimeseriesStore} {samples : List Sample} {outcome : StoreOutcome}
    {x : Sample} (h : x ∈ (record store samples outcome).2) : x ∈ samples := by
  unfold record at h
  split at h
  · cases h
  · split at h
    · cases h
    · split at h
      · cases h
      · cases h
      · exact h
      · exact h

theorem lastMap_snoc (reports : List Report) (r : Report) : lastMap (reports ++ [r]) = r.next := by
  simp [lastMap]

/-- A tick that completes adds a report to the chain. -/
theorem PollerInv.complete {p : Poller} {k : Nat} {r : Report} (h : PollerInv c p)
    (hr : ReportInv c r) (hup : r.updates = updates p.prev r.next) :
    PollerInv c { p with
      prev := r.next, ticks := p.ticks.set k .completed, reports := p.reports ++ [r] } := by
  have hticks := (h.setTick k fun found call (hp : TickPhase.completed = _) => by cases hp).ticks
  refine ⟨hticks, fun r' hr' => ?_, (lastMap_snoc p.reports r).symm, fun i r' hi => ?_⟩
  · rcases List.mem_append.mp hr' with hold | hnew
    · exact h.reports r' hold
    · rw [List.mem_singleton.mp hnew]
      exact hr
  · have hi : (p.reports ++ [r])[i]? = some r' := hi
    show r'.updates = updates (lastMap ((p.reports ++ [r]).take i)) r'.next
    rw [List.getElem?_append] at hi
    split at hi
    · rename_i hlt
      rw [List.take_append_of_le_length (Nat.le_of_lt hlt)]
      exact h.chain i r' hi
    · rename_i hge
      obtain ⟨hlt, hget⟩ := List.getElem?_eq_some_iff.mp hi
      rw [List.length_singleton] at hlt
      have hi' : i = p.reports.length := by omega
      rw [List.getElem_singleton] at hget
      rw [← hget, hi', List.take_left, ← h.prev]
      exact hup

theorem inv_complete {g k : Nat} {outcome : StoreOutcome} (h : Inv s)
    (hst : completeTick s g k outcome = some t) : Inv t := by
  obtain ⟨p, found, askedAt, next, hp, hans, hpollers, hsched, -, -⟩ := completeTick_cases hst
  obtain ⟨call, c, r, hk, hcall, hret, rfl, rfl⟩ := answerTo_cases hans
  have hinv := h.pollers g p hp
  obtain ⟨⟨askedAt, c', hcall', -, hstart, -, hsource⟩, hagree⟩ := hinv.ticks k found call hk
  rw [hcall] at hcall'
  cases hcall'
  have hreport : ReportInv s.sched (reportOf s p found c.startedAt r.statuses outcome) := by
    refine ⟨?_, hagree, fun x hx => ⟨s.sched.now, record_wrote hx⟩⟩
    show Source s.sched _ (c.startedAt - CACHE_TTL_MS) r.statuses
    rw [hstart]
    exact hsource r hret
  exact h.set hsched hpollers (hinv.complete hreport rfl)

theorem inv_step {e : Event} (hst : step s e = some t)
    (hc : OwnAnswers s e) (h : Inv s) : Inv t := by
  cases e with
  | sched e =>
    obtain ⟨sched, hsched, rfl⟩ := Option.map_eq_some_iff.mp hst
    exact ⟨cacheInv_step hsched h.cache, fun g p hp => (h.pollers g p hp).sched hsched⟩
  | start =>
    cases hst
    refine ⟨h.cache, fun g p hp => ?_⟩
    have hp : (s.pollers ++ [_])[g]? = some p := hp
    rw [List.getElem?_append] at hp
    split at hp
    · exact h.pollers g p hp
    · have hmem := List.mem_of_getElem? hp
      rw [List.mem_singleton.mp hmem]
      exact pollerInv_new _
  | stop g =>
    obtain ⟨p, p', hp, hp', rfl⟩ := updatePoller_cases hst
    cases hp'
    have hinv := h.pollers g p hp
    exact h.set rfl rfl ⟨hinv.ticks, hinv.reports, hinv.prev, hinv.chain⟩
  | timer g =>
    obtain ⟨p, p', hp, hp', rfl⟩ := updatePoller_cases hst
    split at hp'
    · cases hp'
    · cases hp'
      exact h.set rfl rfl (h.pollers g p hp).newTick
  | ask g k found => exact inv_ask h hst hc
  | complete g k outcome => exact inv_complete h hst
  | fail g k =>
    obtain ⟨p, p', hp, hp', rfl⟩ := updatePoller_cases hst
    rw [failTick_cases hp']
    exact h.set rfl rfl ((h.pollers g p hp).setTick _ fun found call hf => by cases hf)
  | closeStore =>
    cases hst
    exact ⟨h.cache, h.pollers⟩

theorem inv_run {now : Int} {disk : Disk} {store : Option TimeseriesStore}
    {es : List Event} (h : exec step (init now disk store) es = some s)
    (hc : Along step OwnAnswers (init now disk store) es) : Inv s :=
  exec_invariant_along h hc ⟨cacheInv_init now disk, fun g p hp => by cases hp⟩
    fun _ _ _ hst hce hi => inv_step hst hce hi

/-! ## What a tick sees of a steady session -/

/-- An answer over the targets of a list has the steady status of a session of the list. -/
theorem steady_get? {l : List LocalSession} {since since' : Int} {m : PidMap RefinedStatus}
    (h : Source c (SameTargets l) since m) (hagree : Agreeing l) {o : LocalSession} (ho : o ∈ l)
    {status : RefinedStatus} (hsteady : SteadySince c since' (transcriptOf o) status)
    (hle : since' ≤ since) : m.get? o.pid = some status := by
  obtain ⟨k, l', ended, ⟨d, hk, rfl, hret, hm⟩, hsame, hlt⟩ := h
  obtain ⟨o₁, ho₁⟩ := owner_isSome ho
  obtain ⟨hmem, hpid⟩ := owner_mem ho₁
  obtain ⟨o₂, ho₂, htranscript⟩ :=
    StatusCache.owner_of_sameTargets (fun pid => (hsame pid).symm) ho₁
  have hrel := settled_get? hm o.pid
  rw [ho₂] at hrel
  generalize hget : m.get? o.pid = x at hrel
  cases hrel with
  | some hdone =>
    obtain ⟨i, hi, hpi⟩ := hdone
    have htr : transcriptOf o₂ = transcriptOf o := htranscript.trans (hagree o₁ hmem o ho hpid)
    rw [hsteady k d _ i o₂ _ hk hret (by show since' < ended; omega) hi htr hpi]

theorem lastMap_take_succ {reports : List Report} {i : Nat} {r : Report} (h : reports[i]? = some r) :
    lastMap (reports.take (i + 1)) = r.next := by
  rw [List.take_add_one, h]
  exact lastMap_snoc _ _

/-- An update is about a pid whose status is new. -/
theorem mem_updates {prev next : PidMap RefinedStatus} {u : Update} (h : u ∈ updates prev next) :
    next.get? u.pid = some u.refinedStatus ∧ prev.get? u.pid = u.previous ∧
      u.previous ≠ some u.refinedStatus := by
  obtain ⟨e, he, hu⟩ := List.mem_filterMap.mp h
  split at hu
  · rename_i hne
    cases hu
    exact ⟨PidMap.mem_entries.mp he, rfl, hne⟩
  · cases hu

theorem providerByPid_get? {found : Found} {pid : Int} {name : JsString}
    (h : (providerByPid found).get? pid = some name) :
    ∃ b ∈ found, name = b.1 ∧ ∃ o ∈ b.2, o.pid = pid := by
  obtain ⟨b, hb, hmem⟩ := List.mem_flatMap.mp (PidMap.mem_of_get? h)
  obtain ⟨o, ho, heq⟩ := List.mem_map.mp hmem
  cases heq
  exact ⟨b, hb, rfl, o, ho, rfl⟩

theorem providerByPid_isSome {found : Found} {pid : Int} :
    ((providerByPid found).get? pid).isSome = true ↔ ∃ o ∈ sessionsOf found, o.pid = pid := by
  rw [PidMap.get?_isSome]
  unfold providerByPid sessionsOf
  simp only [List.map_flatMap, List.map_map, List.mem_flatMap, List.mem_map, Function.comp]
  constructor
  · intro h
    obtain ⟨b, hb, o, ho, rfl⟩ := h
    exact ⟨o, ⟨b, hb, ho⟩, rfl⟩
  · intro h
    obtain ⟨o, ⟨b, hb, ho⟩, rfl⟩ := h
    exact ⟨b, hb, o, ho, rfl⟩

/-- An answer over the targets of a list has exactly the pids of the list. -/
theorem source_isSome {l : List LocalSession} {since : Int} {m : PidMap RefinedStatus}
    (h : Source c (SameTargets l) since m) (pid : Int) :
    (m.get? pid).isSome = true ↔ pid ∈ l.map (·.pid) := by
  obtain ⟨k, l', ended, ⟨d, -, rfl, -, hm⟩, hsame, -⟩ := h
  rw [← StatusCache.owner_isSome_iff, StatusCache.isSome_of_sameTargets hsame pid]
  have hrel := settled_get? hm pid
  generalize owner d.sessions pid = x, m.get? pid = y at hrel
  cases hrel with
  | some _ => exact Iff.rfl
  | none => exact Iff.rfl

/-- A sample names a session that the tick discovered, with its provider. -/
theorem sample_discovered {r : Report} (h : ReportInv c r) {x : Sample} (hx : x ∈ r.wrote) :
    ∃ b ∈ r.found, x.provider = b.1 ∧ ∃ o ∈ b.2, o.pid = x.pid := by
  obtain ⟨now, hx⟩ := h.wrote x hx
  obtain ⟨e, he, rfl⟩ := List.mem_map.mp hx
  have hsome : (r.next.get? e.1).isSome = true := by
    rw [PidMap.mem_entries.mp he]
    rfl
  obtain ⟨o, ho, hpid⟩ := List.mem_map.mp ((source_isSome h.source e.1).mp hsome)
  obtain ⟨name, hname⟩ := Option.isSome_iff_exists.mp (providerByPid_isSome.mpr ⟨o, ho, hpid⟩)
  obtain ⟨b, hb, rfl, hrest⟩ := providerByPid_get? hname
  refine ⟨b, hb, ?_, hrest⟩
  show ((providerByPid r.found).get? e.1).getD _ = _
  rw [hname]
  rfl

/-- In two ticks of a poller that completed one after the other, a session with a
steady status gets no update from the later one. -/
def SteadyUnannounced (s : State) (p : Poller) : Prop :=
  ∀ (i : Nat) (r r' : Report), p.reports[i]? = some r → p.reports[i + 1]? = some r' →
    ∀ o ∈ sessionsOf r.found, ∀ o' ∈ sessionsOf r'.found, o.pid = o'.pid →
      transcriptOf o = transcriptOf o' → ∀ status,
        SteadySince s.sched (min r.askedAt r'.askedAt - CACHE_TTL_MS) (transcriptOf o) status →
        ∀ u ∈ r'.updates, u.pid ≠ o.pid

/-- Every sample a tick wrote names a session and the provider that discovered it. -/
def SamplesDiscovered (p : Poller) : Prop :=
  ∀ r ∈ p.reports, ∀ x ∈ r.wrote, ∃ b ∈ r.found, x.provider = b.1 ∧ ∃ o ∈ b.2, o.pid = x.pid

/-- In every run whose ticks get answers of their own. -/
theorem own_answers_suffice {now : Int} {disk : Disk} {store : Option TimeseriesStore}
    {es : List Event} {s : State} (h : exec step (init now disk store) es = some s)
    (hc : Along step OwnAnswers (init now disk store) es) :
    ∀ (g : Nat) (p : Poller), s.pollers[g]? = some p → SteadyUnannounced s p ∧ SamplesDiscovered p := by
  intro g p hp
  have hinv := (inv_run h hc).pollers g p hp
  refine ⟨fun i r r' hi hi' o ho o' ho' hpid htr status hsteady u hu hup => ?_,
    fun r hr x hx => sample_discovered (hinv.reports r hr) hx⟩
  have hr := hinv.reports r (List.mem_of_getElem? hi)
  have hr' := hinv.reports r' (List.mem_of_getElem? hi')
  have hbefore : r.next.get? o.pid = some status :=
    steady_get? hr.source hr.agreeing ho hsteady (by omega)
  have hafter : r'.next.get? o'.pid = some status := by
    rw [htr] at hsteady
    exact steady_get? hr'.source hr'.agreeing ho' hsteady (by omega)
  rw [hinv.chain (i + 1) r' hi', lastMap_take_succ hi] at hu
  obtain ⟨hnext, hprev, hne⟩ := mem_updates hu
  rw [hup, hpid, hafter] at hnext
  rw [hup, hbefore] at hprev
  rw [← hprev] at hne
  exact hne hnext

/-! ## A tick that gets the map of somebody else -/

/-- What the three providers discover. -/
def discovered (claude aider : List LocalSession) : Found :=
  [(js "claude-code", claude), (js "aider", aider), (js "cursor-cli", [])]

/-- The clock starts at zero, and the store is empty. -/
def start : State := init 0 (fun _ => none) (some ⟨100, [], false⟩)

/-- A poller's first tick derives the statuses; the next one finds them half a second later. -/
def twoTicks : List Event :=
  [.start, .ask 0 0 (discovered [claudeSession] []), .sched (.read 0 0), .sched (.settle 0),
   .complete 0 0 .works, .sched (.tick 500), .timer 0, .ask 0 1 (discovered [claudeSession] []),
   .complete 0 1 .works]

/-- Somebody asks for the aider session, which exits; then a poller starts. Its
second tick comes when the cache is no longer fresh. -/
def foreignCache : List Event :=
  [.sched (.call [aiderSession]), .sched (.read 0 0), .sched (.settle 0),
   .start, .ask 0 0 (discovered [claudeSession] []), .complete 0 0 .works,
   .sched (.tick 2500), .timer 0, .ask 0 1 (discovered [claudeSession] []),
   .sched (.read 2 0), .sched (.settle 2), .complete 0 1 .works]

theorem agreeing_single (o : LocalSession) : Agreeing [o] := by
  intro o₁ h₁ o₂ h₂ _
  rw [List.mem_singleton.mp h₁, List.mem_singleton.mp h₂]

theorem ownAnswers_twoTicks : Along step OwnAnswers start twoTicks := by
  refine ⟨trivial, fun _ hs => ?_⟩
  cases hs
  refine ⟨⟨agreeing_single _, fun hf => (by cases hf)⟩, fun _ hs => ?_⟩
  cases hs
  refine ⟨trivial, fun _ hs => ⟨trivial, fun _ hs' => ⟨trivial, fun _ hs'' => ⟨trivial, fun _ hs₃ =>
    ⟨trivial, fun _ hs₄ => ⟨⟨agreeing_single _, fun _ => ?_⟩, fun _ _ => ⟨trivial, fun _ _ =>
      trivial⟩⟩⟩⟩⟩⟩⟩
  cases hs
  cases hs'
  cases hs''
  cases hs₃
  cases hs₄
  exact sameTargets_refl _

theorem two_ticks_unannounced :
    ∃ s, exec step start twoTicks = some s ∧ ∀ (g : Nat) (p : Poller), s.pollers[g]? = some p →
      SteadyUnannounced s p ∧ SamplesDiscovered p :=
  ⟨_, rfl, own_answers_suffice rfl ownAnswers_twoTicks⟩

/-- The first tick writes a sample of a pid it did not discover; the second one
announces a session that was idle all the time. -/
theorem foreign_cache_announced :
    ∃ s p, exec step start foreignCache = some s ∧ s.pollers[0]? = some p ∧
      ¬ SteadyUnannounced s p ∧ ¬ SamplesDiscovered p := by
  refine ⟨_, _, rfl, rfl, fun h => ?_, fun h => ?_⟩
  · refine h 0 _ _ rfl rfl claudeSession (by decide) claudeSession (by decide) rfl rfl .idle ?_
      ⟨100, .idle, none⟩ (by decide) rfl
    intro k call r i o st hk _ _ _ _ hdone
    have hcall : call ∈
        [⟨[aiderSession], 0, [.done .idle], some ⟨[(200, .idle)], 0⟩, [], none⟩,
         ⟨[claudeSession], 0, [], some ⟨[(200, .idle)], 0⟩, [], none⟩,
         ⟨[claudeSession], 2500, [.done .idle], some ⟨[(100, .idle)], 2500⟩, [], none⟩] :=
      List.mem_of_getElem? hk
    have hprogress := List.mem_of_getElem? hdone
    simp only [List.mem_cons, List.not_mem_nil, or_false] at hcall
    rcases hcall with rfl | rfl | rfl
    · simpa using hprogress
    · cases hprogress
    · simpa using hprogress
  · obtain ⟨b, hb, -, o, ho, hpid⟩ := h _ List.mem_cons_self
      ⟨0, js "unknown", 200, .idle, none, none, none⟩ (by decide)
    have hb : b ∈ discovered [claudeSession] [] := hb
    simp only [discovered, List.mem_cons, List.not_mem_nil, or_false] at hb
    rcases hb with rfl | rfl | rfl
    · rw [List.mem_singleton.mp ho] at hpid
      cases hpid
    · cases ho
    · cases ho

end Conductor.Http.SharedCache
