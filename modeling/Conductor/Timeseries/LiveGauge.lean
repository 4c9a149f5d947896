import Conductor.Http.SharedCache
import Conductor.Timeseries.Prometheus

/-! # The session gauge against the sessions that are there

The gauge counts the newest sample of every pid in the store. Right after a
tick these are the sessions that the tick discovered, exactly when the tick
leaves no row behind that it does not supersede. -/
namespace Conductor.Timeseries.LiveGauge
open Conductor.Lib.Runs Conductor.Lib.Latest Conductor.Js.Text Conductor.Js.Values Conductor.Sessions
open Conductor.Sessions.Types Conductor.Sessions.RefinedStatus Conductor.Sessions.Provenance
open Conductor.Timeseries.Store Conductor.Timeseries.Prometheus Conductor.Http.SessionsPoller
open Conductor.Http.SharedCache
open Conductor.Sessions.Schedule (SameTargets sameTargets_refl)

/-- How many sessions of a provider a tick discovered that have the status in its map. -/
def discoveredCount (found : Found) (next : PidMap RefinedStatus) (provider : JsString)
    (status : RefinedStatus) : Nat :=
  ((found.filter fun b => b.1 == provider).flatMap fun b => b.2).countP fun o =>
    next.get? o.pid == some status

/-- The body rendered from the store has the counts of a tick, for every provider and status. -/
def Shows (store : TimeseriesStore) (found : Found) (next : PidMap RefinedStatus) : Prop :=
  ∀ input : PrometheusInput, input.store = some store → ∀ provider status,
    sessionsTotal (renderPrometheus input) provider status =
      js (toString (discoveredCount found next provider status))

/-- The tick that an event completes: what it found, and the map it was given. -/
def completing (s : State) : Event → Option (Found × PidMap RefinedStatus)
  | .complete g k _ => do
    let p ← s.pollers[g]?
    let (found, _, next) ← answerTo s p k
    return (found, next)
  | _ => none

/-- The store does not fail a tick, and its cap is not below the number of live sessions. -/
def StoreWorks (s : State) (e : Event) : Prop :=
  ∀ found next, completing s e = some (found, next) → (∃ g k, e = .complete g k .works) ∧
    ∃ store, s.store = some store ∧ store.closed = false ∧
      ((sessionsOf found).length : Int) ≤ store.maxRows

/-- The rows that a tick with `n` samples leaves beside its own. -/
def oldRows (store : TimeseriesStore) (n : Nat) : List Sample :=
  if n = 0 then store.rows else keptBeside store n

/-- The pids of the tick are distinct, and the rows it leaves beside its own are
earlier and of pids that it discovered. -/
def NoLeftovers (s : State) (e : Event) : Prop :=
  ∀ found next store, completing s e = some (found, next) → s.store = some store →
    ((sessionsOf found).map (·.pid)).Nodup ∧
      ∀ r ∈ oldRows store (sessionsOf found).length,
        r.ts < s.sched.now ∧ ∃ o ∈ sessionsOf found, o.pid = r.pid

/-! ## The samples of a tick -/

section Samples

variable {c : Schedule.State} {found : Found} {next : PidMap RefinedStatus} {since : Int}

theorem providerByPid_keys (found : Found) :
    (providerByPid found).map Prod.fst = (sessionsOf found).map (·.pid) := by
  unfold providerByPid sessionsOf
  simp only [List.map_flatMap, List.map_map, Function.comp_def]

/-- The map of a tick has one entry for each session it discovered. -/
theorem entries_perm (hsource : Source c (SameTargets (sessionsOf found)) since next)
    (hpids : ((sessionsOf found).map (·.pid)).Nodup) :
    (next.entries.map Prod.fst).Perm ((sessionsOf found).map (·.pid)) := by
  have hkeys : (next.entries.map Prod.fst).Nodup := by
    rw [PidMap.entries_keys]
    exact nodup_eraseDups _
  refine (List.perm_ext_iff_of_nodup hkeys hpids).mpr fun pid => ?_
  rw [← source_isSome hsource pid, PidMap.get?_isSome, PidMap.entries_keys, List.mem_eraseDups]

theorem countP_byProvider (found : Found) (provider : JsString) (p q : LocalSession → Bool)
    (h : ∀ b ∈ found, ∀ o ∈ b.2, q o = (b.1 == provider && p o)) :
    (found.flatMap fun b => b.2).countP q =
      ((found.filter fun b => b.1 == provider).flatMap fun b => b.2).countP p := by
  induction found with
  | nil => rfl
  | cons b found ih =>
    have hrest := ih fun b' hb' => h b' (by simp [hb'])
    have hb := h b (by simp)
    rw [List.flatMap_cons, List.countP_append, hrest]
    by_cases hname : (b.1 == provider) = true
    · rw [List.filter_cons, if_pos hname, List.flatMap_cons, List.countP_append]
      congr 1
      refine List.countP_congr fun o ho => ?_
      rw [hb o ho, hname, Bool.true_and]
    · have hzero : b.2.countP q = 0 := by
        rw [List.countP_eq_zero]
        intro o ho hq
        rw [hb o ho, Bool.and_eq_true] at hq
        exact hname hq.1
      rw [List.filter_cons, if_neg hname, hzero, Nat.zero_add]

/-- The samples of a tick are counted like the sessions it discovered. -/
theorem countP_samplesOf (hsource : Source c (SameTargets (sessionsOf found)) since next)
    (hpids : ((sessionsOf found).map (·.pid)).Nodup) (now : Int) (provider : JsString)
    (status : RefinedStatus) :
    (samplesOf now found next).countP (fun s => decide ((s.provider, s.refinedStatus) = (provider, status))) =
      discoveredCount found next provider status := by
  have hprovider : ∀ b ∈ found, ∀ o ∈ b.2, (providerByPid found).get? o.pid = some b.1 := by
    intro b hb o ho
    refine PidMap.get?_of_mem (by rw [providerByPid_keys]; exact hpids) ?_
    exact List.mem_flatMap.mpr ⟨b, hb, List.mem_map.mpr ⟨o, ho, rfl⟩⟩
  -- what decides about a sample is its pid
  let q : Int → Bool := fun pid =>
    ((providerByPid found).get? pid).getD (js "unknown") == provider && next.get? pid == some status
  have hentry : ∀ e ∈ next.entries, (next.get? e.1 == some status) = decide (e.2 = status) := by
    intro e he
    rw [PidMap.mem_entries.mp he]
    rfl
  calc (samplesOf now found next).countP
        (fun s => decide ((s.provider, s.refinedStatus) = (provider, status)))
      = next.entries.countP (q ∘ Prod.fst) := by
        unfold samplesOf
        rw [List.countP_map]
        refine List.countP_congr fun e he => ?_
        simp only [q, Function.comp, Prod.mk.injEq, hentry e he, decide_eq_true_eq, Bool.and_eq_true,
          beq_iff_eq]
    _ = ((sessionsOf found).map (·.pid)).countP q := by
        rw [← List.countP_map, (entries_perm hsource hpids).countP_eq]
    _ = (sessionsOf found).countP fun o => q o.pid := by
        rw [List.countP_map]
        rfl
    _ = discoveredCount found next provider status := by
        refine countP_byProvider found provider _ _ fun b hb o ho => ?_
        simp [q, hprovider b hb o ho]

theorem length_samplesOf (hsource : Source c (SameTargets (sessionsOf found)) since next)
    (hpids : ((sessionsOf found).map (·.pid)).Nodup) (now : Int) :
    (samplesOf now found next).length = (sessionsOf found).length := by
  have hlen := (entries_perm hsource hpids).length_eq
  rw [List.length_map, List.length_map] at hlen
  unfold samplesOf
  rw [List.length_map, hlen]

end Samples

/-! ## The store after a tick -/

section Tick

variable {c : Schedule.State} {found : Found} {next : PidMap RefinedStatus} {since : Int}

/-- A tick that the store does not fail leaves its samples behind the old rows. -/
theorem record_rows {store : TimeseriesStore} {samples : List Sample}
    (hopen : store.closed = false) (hfit : (samples.length : Int) ≤ store.maxRows) :
    ∃ store', (record (some store) samples .works).1 = some store' ∧
      store'.rows = oldRows store samples.length ++ samples := by
  unfold record oldRows
  by_cases hempty : samples = []
  · subst hempty
    exact ⟨store, rfl, (List.append_nil _).symm⟩
  · have hlen : ¬ samples.length = 0 := fun h => hempty (List.length_eq_zero_iff.mp h)
    simp only [if_neg hempty, writeMany_open hopen, if_neg hlen]
    exact ⟨_, rfl, prune_write_rows hopen hfit⟩

theorem ts_samplesOf {now : Int} {x : Sample} (hx : x ∈ samplesOf now found next) : x.ts = now := by
  obtain ⟨e, -, rfl⟩ := List.mem_map.mp hx
  rfl

/-- Every session of a tick has a sample. -/
theorem sample_of_session (hsource : Source c (SameTargets (sessionsOf found)) since next)
    {o : LocalSession} (ho : o ∈ sessionsOf found) (now : Int) :
    ∃ x ∈ samplesOf now found next, x.pid = o.pid := by
  have hsome := (source_isSome hsource o.pid).mpr (List.mem_map.mpr ⟨o, ho, rfl⟩)
  obtain ⟨status, hstatus⟩ := Option.isSome_iff_exists.mp hsome
  have hmem : (o.pid, status) ∈ next.entries := PidMap.mem_entries.mpr hstatus
  exact ⟨_, List.mem_map.mpr ⟨(o.pid, status), hmem, rfl⟩, rfl⟩

/-- The rows behind superseded ones: the gauge shows what the tick discovered. -/
theorem shows_of_rows (hsource : Source c (SameTargets (sessionsOf found)) since next)
    (hpids : ((sessionsOf found).map (·.pid)).Nodup) {store : TimeseriesStore} {old : List Sample}
    {now : Int} (hrows : store.rows = old ++ samplesOf now found next)
    (hold : ∀ r ∈ old, r.ts < now ∧ ∃ o ∈ sessionsOf found, o.pid = r.pid) :
    Shows store found next := by
  intro input hinput provider status
  have hnewer : ∀ r ∈ old, r.ts < now ∧ ∃ x ∈ samplesOf now found next, x.pid = r.pid := by
    intro r hr
    obtain ⟨hlt, o, ho, hpid⟩ := hold r hr
    obtain ⟨x, hx, hxpid⟩ := sample_of_session hsource ho now
    exact ⟨hlt, x, hx, hxpid.trans hpid⟩
  have hcount := (count_latest_iff (fun s : Sample => (s.provider, s.refinedStatus))
    (fun r hr => (hold r hr).1.le) (fun x hx => ts_samplesOf hx)).mpr hnewer
  rw [sessionsTotal_render hinput]
  unfold latestPerPid
  rw [hrows, ← countP_samplesOf hsource hpids now provider status, ← hcount (provider, status)]
  simp only [Prod.mk.injEq]

end Tick

/-- In every run whose ticks get answers of their own and leave no other pid's
row behind, each completed tick is shown as it discovered the sessions. -/
theorem completed_tick_shown {now : Int} {disk : Disk} {store : Option TimeseriesStore}
    {es : List Event} {s : State} (h : exec step (init now disk store) es = some s)
    (hstore : Along step StoreWorks (init now disk store) es)
    (hown : Along step OwnAnswers (init now disk store) es)
    (hleft : Along step NoLeftovers (init now disk store) es) :
    ∀ past e u t found next, past ++ [e] <+: es → exec step (init now disk store) past = some u →
      step u e = some t → completing u e = some (found, next) →
        ∃ store', t.store = some store' ∧ Shows store' found next := by
  intro past e u t found next hpre hu hst hcompleting
  obtain ⟨rest, rfl⟩ := hpre
  obtain ⟨-, hworks⟩ := along_snoc (along_append.mp hstore).1 hu
  obtain ⟨hownPast, -⟩ := along_snoc (along_append.mp hown).1 hu
  obtain ⟨-, hnone⟩ := along_snoc (along_append.mp hleft).1 hu
  obtain ⟨⟨g, k, rfl⟩, store', hsome, hopen, hfit⟩ := hworks found next hcompleting
  obtain ⟨hpids, hold⟩ := hnone found next store' hcompleting hsome
  obtain ⟨p, found', askedAt, next', hp, hans, -, -, hstore', -⟩ := completeTick_cases hst
  have hsame : some (found', next') = some (found, next) := by
    rw [← hcompleting]
    simp [completing, hp, hans]
  cases hsame
  obtain ⟨call, d, r, hk, hcall, hret, rfl, rfl⟩ := answerTo_cases hans
  obtain ⟨⟨_, d', hcall', -, -, -, hsource⟩, -⟩ :=
    ((inv_run hu hownPast).pollers g p hp).ticks k _ call hk
  rw [hcall] at hcall'
  cases hcall'
  have hsource := hsource r hret
  have hlen := length_samplesOf hsource hpids u.sched.now
  rw [hsome] at hstore'
  rw [← hlen] at hfit
  obtain ⟨store'', hrec, hrows⟩ := record_rows hopen hfit
  rw [hlen] at hrows
  exact ⟨store'', hstore'.trans hrec, shows_of_rows hsource hpids hrows hold⟩

/-! ## A session that exits -/

/-- A poller's first tick discovers a session. -/
def oneTick : List Event :=
  [.start, .ask 0 0 (discovered [claudeSession] []), .sched (.read 0 0), .sched (.settle 0),
   .complete 0 0 .works]

/-- The session exits, and the next tick discovers none. -/
def exited : List Event :=
  oneTick ++ [.sched (.tick 2500), .timer 0, .ask 0 1 (discovered [] []), .sched (.settle 1),
    .complete 0 1 .works]

theorem completing_eq_none {s : State} {e : Event} (h : ∀ g k outcome, e ≠ .complete g k outcome) :
    completing s e = none := by
  cases e with
  | complete g k outcome => exact absurd rfl (h g k outcome)
  | sched e => rfl
  | start => rfl
  | stop g => rfl
  | timer g => rfl
  | ask g k found => rfl
  | fail g k => rfl
  | closeStore => rfl

/-- Where no tick completes, nothing is asked of the store. -/
theorem nothing_completes {es : List Event} (h : ∀ e ∈ es, ∀ g k outcome, e ≠ .complete g k outcome)
    (s : State) : Along step StoreWorks s es ∧ Along step NoLeftovers s es := by
  refine ⟨along_of_forall (fun e he s found next hc => ?_) s,
    along_of_forall (fun e he s found next store hc => ?_) s⟩
  · rw [completing_eq_none (h e he)] at hc
    cases hc
  · rw [completing_eq_none (h e he)] at hc
    cases hc

/-- Only the last event of `oneTick` completes a tick. -/
theorem before_oneTick : ∀ e ∈ oneTick.take 4, ∀ g k outcome, e ≠ .complete g k outcome := by
  simp [oneTick]

theorem storeWorks_oneTick : Along step StoreWorks start oneTick := by
  have hbefore := (nothing_completes before_oneTick start).1
  refine along_snoc_of hbefore rfl fun found next hc => ?_
  cases hc
  exact ⟨⟨0, 0, rfl⟩, _, rfl, rfl, by decide⟩

theorem noLeftovers_oneTick : Along step NoLeftovers start oneTick := by
  have hbefore := (nothing_completes before_oneTick start).2
  refine along_snoc_of hbefore rfl fun found next store hc hstore => ?_
  cases hc
  cases hstore
  exact ⟨List.nodup_singleton _, fun r hr => (by cases hr)⟩

/-- What follows the first tick asks nothing of the store until another one completes. -/
theorem after_oneTick {es : List Event} (h : ∀ e ∈ es, ∀ g k outcome, e ≠ .complete g k outcome) :
    Along step StoreWorks start (oneTick ++ es) ∧ Along step NoLeftovers start (oneTick ++ es) :=
  ⟨along_append.mpr ⟨storeWorks_oneTick, fun t _ => (nothing_completes h t).1⟩,
    along_append.mpr ⟨noLeftovers_oneTick, fun t _ => (nothing_completes h t).2⟩⟩

def firstRow : Sample := ⟨0, js "claude-code", 100, .idle, none, none, none⟩

/-- The second tick supersedes the row of the first. -/
theorem first_session_shown :
    ∃ s, exec step start twoTicks = some s ∧
      ∀ past e u t found next, past ++ [e] <+: twoTicks → exec step start past = some u →
        step u e = some t → completing u e = some (found, next) →
          ∃ store', t.store = some store' ∧ Shows store' found next := by
  have hbetween : ∀ e ∈ (twoTicks.drop 5).take 3, ∀ g k outcome, e ≠ .complete g k outcome := by
    simp [twoTicks]
  obtain ⟨hworked, hleftNone⟩ := after_oneTick hbetween
  have hworks : Along step StoreWorks start twoTicks := by
    refine along_snoc_of hworked rfl fun found next hc => ?_
    cases hc
    exact ⟨⟨0, 1, rfl⟩, _, rfl, rfl, by decide⟩
  have hleft : Along step NoLeftovers start twoTicks := by
    refine along_snoc_of hleftNone rfl fun found next store hc hstore => ?_
    cases hc
    cases hstore
    refine ⟨List.nodup_singleton _, fun r hr => ?_⟩
    have hrow : r ∈ [firstRow] := hr
    rw [List.mem_singleton.mp hrow]
    exact ⟨by decide, claudeSession, List.mem_singleton_self _, rfl⟩
  exact ⟨_, rfl, completed_tick_shown rfl hworks ownAnswers_twoTicks hleft⟩

/-- The tick discovers no session, and the gauge goes on showing the one that exited. -/
theorem exited_session_shown :
    ∃ s store, exec step start exited = some s ∧ Along step StoreWorks start exited ∧
      s.store = some store ∧ discoveredCount (discovered [] []) [] (js "claude-code") .idle = 0 ∧
      sessionsTotal (renderPrometheus ⟨js "dev", some store, none, none, none⟩) (js "claude-code")
        .idle = js "1" ∧
      ¬ Shows store (discovered [] []) [] := by
  have hworks : Along step StoreWorks start exited := by
    have hbetween : ∀ e ∈ (exited.drop 5).take 4, ∀ g k outcome, e ≠ .complete g k outcome := by
      simp [exited, oneTick]
    refine along_snoc_of (after_oneTick hbetween).1 rfl fun found next hc => ?_
    cases hc
    exact ⟨⟨0, 1, rfl⟩, _, rfl, rfl, by decide⟩
  have hone : sessionsTotal (renderPrometheus ⟨js "dev", some ⟨100, [firstRow], false⟩, none, none, none⟩)
      (js "claude-code") .idle = js "1" := by
    rw [sessionsTotal_render rfl]
    decide
  refine ⟨_, ⟨100, [firstRow], false⟩, rfl, hworks, rfl, by decide, hone, fun h => ?_⟩
  have hzero := h ⟨js "dev", _, none, none, none⟩ rfl (js "claude-code") .idle
  rw [hone] at hzero
  revert hzero
  decide

end Conductor.Timeseries.LiveGauge
