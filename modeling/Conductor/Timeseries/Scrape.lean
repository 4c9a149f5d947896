import Mathlib.Algebra.BigOperators.Ring.Finset
import Conductor.Timeseries.Conservation
import Conductor.Timeseries.MetricsRoundTrip

/-! # The metrics of a running daemon, as a scraper sees them

What two scrapes of one daemon read, at any two moments of a run: the counter is the
number of rows that the daemon has inserted, so that it never goes back and its
increase is what was inserted in between, and the gauges sort the newest rows of
the table by provider and status, each row into one of them. -/
namespace Conductor.Timeseries.Scrape
open Conductor.Lib.Runs Conductor.Lib.Latest Conductor.Js.Text Conductor.Js.Number Conductor.Js.Numerals
open Conductor.Js.Doubles Conductor.Js.ToNumber Conductor.Sessions.Types Conductor.Sessions.RefinedStatus
open Conductor.Timeseries.Store Conductor.Timeseries.Prometheus Conductor.Timeseries.TextFormat
open Conductor.Timeseries.MetricsRoundTrip Conductor.Timeseries.Conservation Conductor.Http.SessionsPoller

/-! ## The scraper -/

/-- The value of a series in the body. -/
def readSeries (body name : JsString) (labels : List (JsString × JsString)) : Option JsNumber :=
  (parseBody body).bind fun ss => (ss.find? fun x => decide (x.key = (name, labels))).map (·.value)

def COUNTER : JsString := js "agent_conductor_samples_total"
def GAUGE : JsString := js "agent_conductor_sessions_total"

/-- The sum of the gauges of a body. -/
def gaugeTotal (body : JsString) : Option Rat :=
  (parseBody body).map fun ss =>
    ((ss.filter fun x => decide (x.name = GAUGE)).filterMap fun x => x.value.toRat?).sum

/-- `GET /metrics` of a daemon in the state: its context has a counter when it has a store. -/
def scrape (version : JsString) (s : State) (auditBytes : Option Nat) : JsString :=
  renderPrometheus ⟨version, s.store, s.store.map fun _ => s.samplesWritten, auditBytes, none⟩

/-- The newest rows of a table. -/
def newest (rows : List Sample) : List Sample := latest Sample.pid Sample.ts rows

/-- A gauge is shown for each status of a provider that has a newest row, and, for the
metric to be seen, one for no provider when the table is empty. -/
def Shown (rows : List Sample) (provider : JsString) (status : RefinedStatus) : Prop :=
  provider ∈ (newest rows).map Sample.provider ∨ rows = [] ∧ provider = js "none" ∧ status = .idle

/-- What a scraper reads when the table has these rows and so many were inserted. -/
structure Reads (body : JsString) (rows : List Sample) (written : Nat) : Prop where
  counter : readSeries body COUNTER [] = some (.finite written)
  gauge : ∀ provider status, Shown rows provider status →
    readSeries body GAUGE (sessionLabels provider status) = some (.finite
      ((newest rows).countP fun x => decide (x.provider = provider ∧ x.refinedStatus = status) : Nat))
  absent : ∀ labels, (∀ provider status, Shown rows provider status → labels ≠ sessionLabels provider status) →
    readSeries body GAUGE labels = none
  total : gaugeTotal body = some ((newest rows).length : Rat)

/-! ## Finding a series -/

theorem find?_of_key {ss : List Series} (h : (ss.map Series.key).Nodup) {x : Series} (hx : x ∈ ss) :
    ss.find? (fun y => decide (y.key = x.key)) = some x := by
  induction ss with
  | nil => cases hx
  | cons y ss ih =>
    rw [List.map_cons, List.nodup_cons] at h
    rcases List.mem_cons.mp hx with rfl | hx
    · rw [List.find?_cons_of_pos (by simp)]
    · have hne : y.key ≠ x.key := fun heq => h.1 (heq ▸ List.mem_map_of_mem hx)
      rw [List.find?_cons_of_neg (by simpa using hne)]
      exact ih h.2 hx

variable {input : PrometheusInput}

theorem parse_render (h : Numbers input) : parseBody (renderPrometheus input) = some (seriesOf input) := by
  rw [renderPrometheus, parseBody_frame (newline_not_mem_exposition input), parseLines_exposition h]

theorem readSeries_of_mem (h : Numbers input) {x : Series} (hx : x ∈ seriesOf input) :
    readSeries (renderPrometheus input) x.name x.labels = some x.value := by
  rw [readSeries, parse_render h, Option.bind_some]
  have hfind := find?_of_key (seriesOf_nodup input) hx
  rw [Series.key] at hfind
  rw [hfind]
  rfl

theorem readSeries_eq_none (h : Numbers input) {name : JsString} {labels : List (JsString × JsString)}
    (hno : ∀ x ∈ seriesOf input, x.key ≠ (name, labels)) :
    readSeries (renderPrometheus input) name labels = none := by
  rw [readSeries, parse_render h, Option.bind_some, List.find?_eq_none.mpr fun x hx => by simpa using hno x hx]
  rfl

/-! ## Sorting into classes -/

/-- Elements counted class by class are all counted. -/
theorem sum_countP_classes {α κ : Type} [DecidableEq κ] (f : α → κ) {ks : List κ} (hks : ks.Nodup) (xs : List α)
    (hall : ∀ x ∈ xs, f x ∈ ks) : (ks.map fun k => xs.countP fun x => decide (f x = k)).sum = xs.length := by
  induction ks generalizing xs with
  | nil =>
    cases xs with
    | nil => rfl
    | cons x xs => cases hall x List.mem_cons_self
  | cons k ks ih =>
    obtain ⟨hk, hks⟩ := List.nodup_cons.mp hks
    have hrest := ih hks (xs.filter fun x => decide (f x ≠ k)) fun x hx => by
      obtain ⟨hx, hne⟩ := List.mem_filter.mp hx
      exact (List.mem_cons.mp (hall x hx)).resolve_left (of_decide_eq_true hne)
    have hsame : ∀ k' ∈ ks, (xs.filter fun x => decide (f x ≠ k)).countP (fun x => decide (f x = k')) =
        xs.countP fun x => decide (f x = k') := by
      intro k' hk'
      rw [List.countP_filter]
      refine List.countP_congr fun x _ => ?_
      have hne : k' ≠ k := fun heq => hk (heq ▸ hk')
      simp only [Bool.and_eq_true, decide_eq_true_eq]
      exact ⟨fun h => h.1, fun h => ⟨h, h ▸ hne⟩⟩
    rw [List.map_cons, List.sum_cons, ← List.map_congr_left hsame, hrest]
    have hsplit := List.length_eq_countP_add_countP (fun x => decide (f x = k)) (l := xs)
    rw [← List.countP_eq_length_filter]
    simpa only [decide_not, Bool.decide_eq_true] using hsplit.symm

/-- The classes of the gauges: every provider that is present with every status, or one
without samples. -/
def classesOf (samples : List Sample) : List (JsString × RefinedStatus) :=
  if samples = [] then [(js "none", .idle)]
  else (providersOf samples).flatMap fun provider => STATUSES.map fun status => (provider, status)

theorem mem_statuses (status : RefinedStatus) : status ∈ STATUSES := by
  cases status with
  | awaiting_user_input | tool_pending | crashed | working | idle => simp [STATUSES]

theorem mem_providersOf {samples : List Sample} {provider : JsString} :
    provider ∈ providersOf samples ↔ provider ∈ samples.map Sample.provider := by
  rw [providersOf, (List.mergeSort_perm _ _).mem_iff, List.mem_eraseDups]

theorem mem_classesOf {samples : List Sample} {provider : JsString} {status : RefinedStatus} :
    (provider, status) ∈ classesOf samples ↔
      provider ∈ samples.map Sample.provider ∨ samples = [] ∧ provider = js "none" ∧ status = .idle := by
  unfold classesOf
  split
  · rename_i hnil
    simp [hnil]
  · rename_i hne
    simp only [List.mem_flatMap, List.mem_map, Prod.mk.injEq, hne, false_and, or_false]
    constructor
    · intro h
      obtain ⟨p, hp, -, -, rfl, -⟩ := h
      exact List.mem_map.mp (mem_providersOf.mp hp)
    · intro h
      exact ⟨provider, mem_providersOf.mpr (List.mem_map.mpr h), status, mem_statuses status, rfl, rfl⟩

theorem mem_classesOf_newest {rows : List Sample} {provider : JsString} {status : RefinedStatus} :
    (provider, status) ∈ classesOf (newest rows) ↔ Shown rows provider status := by
  rw [mem_classesOf, newest, latest_eq_nil, Shown, newest]

theorem classesOf_nodup (samples : List Sample) : (classesOf samples).Nodup := by
  have hstatuses : STATUSES.Nodup := by decide
  unfold classesOf
  split
  · exact List.nodup_singleton _
  refine List.nodup_flatMap.mpr ⟨fun provider _ => hstatuses.map fun a b h => (Prod.ext_iff.mp h).2,
    (providersOf_nodup samples).imp fun hne => ?_⟩
  intro c hc hc'
  obtain ⟨status, hstatus, rfl⟩ := List.mem_map.mp hc
  obtain ⟨status', hstatus', heq⟩ := List.mem_map.mp hc'
  exact hne (Prod.ext_iff.mp heq).1.symm

/-- The number of samples of a class. -/
def countIn (samples : List Sample) (c : JsString × RefinedStatus) : Nat :=
  samples.countP fun x => decide (x.provider = c.1 ∧ x.refinedStatus = c.2)

theorem sum_countIn (samples : List Sample) : ((classesOf samples).map (countIn samples)).sum = samples.length := by
  refine Eq.trans ?_ (sum_countP_classes (fun x : Sample => (x.provider, x.refinedStatus)) (classesOf_nodup samples)
    samples fun x hx => mem_classesOf.mpr (.inl (List.mem_map_of_mem hx)))
  refine congrArg List.sum (List.map_congr_left fun c _ => List.countP_congr fun x _ => ?_)
  simp only [decide_eq_true_eq, Prod.ext_iff]

/-! ## The blocks of the exposition -/

theorem sessionsSeries_classes {samples : List Sample} (hsmall : samples.length < 2 ^ 53) :
    sessionsSeries samples = (classesOf samples).map fun c =>
      series GAUGE (sessionLabels c.1 c.2) (.finite (countIn samples c : Nat)) := by
  unfold sessionsSeries classesOf
  split
  · rename_i hnil
    rw [hnil]
    rfl
  rw [List.map_flatMap]
  refine List.flatMap_congr fun provider _ => ?_
  rw [List.map_map]
  refine List.map_congr_left fun status _ => ?_
  have hle : countIn samples (provider, status) < 2 ^ 53 := List.countP_le_length.trans_lt hsmall
  exact congrArg (series GAUGE (sessionLabels provider status)) (nearestDouble_natCast hle)

section Body

variable {version : JsString} {store : TimeseriesStore} {n : Nat} {auditBytes : Option Nat}

/-- The series of a daemon with a store. -/
theorem mem_seriesOf {x : Series} :
    x ∈ seriesOf ⟨version, some store, some n, auditBytes, none⟩ ↔
      x ∈ sessionsSeries (newest store.rows) ∨ x = counterSeries "agent_conductor_samples_total" n ∨
        x = versionSeries version ∨ ∃ m ∈ auditBytes, x = counterSeries "agent_conductor_audit_bytes_total" m := by
  have hstore : latestPerPid store = newest store.rows := rfl
  have haudit : x ∈ (auditBytes.map fun m => [counterSeries "agent_conductor_audit_bytes_total" m]).getD [] ↔
      ∃ m ∈ auditBytes, x = counterSeries "agent_conductor_audit_bytes_total" m := by
    cases auditBytes with
    | none => simp
    | some m => simp
  simp only [seriesOf, Option.map_some, Option.map_none, Option.getD_some, Option.getD_none, List.append_nil,
    List.mem_append, List.mem_singleton, hstore, haudit]
  constructor
  · rintro (((h | h) | h) | h)
    · exact .inr (.inr (.inl h))
    · exact .inl h
    · exact .inr (.inl h)
    · exact .inr (.inr (.inr h))
  · rintro (h | h | h | h)
    · exact .inl (.inl (.inr h))
    · exact .inl (.inr h)
    · exact .inl (.inl (.inl h))
    · exact .inr h

theorem version_not_gauge (version : JsString) : (versionSeries version).name ≠ GAUGE := by
  have hne : js "agent_conductor_build_info" ≠ GAUGE := by decide +kernel
  exact hne

theorem samples_not_gauge (n : Nat) : (counterSeries "agent_conductor_samples_total" n).name ≠ GAUGE := by
  have hne : js "agent_conductor_samples_total" ≠ GAUGE := by decide +kernel
  exact hne

theorem audit_not_gauge (n : Nat) : (counterSeries "agent_conductor_audit_bytes_total" n).name ≠ GAUGE := by
  have hne : js "agent_conductor_audit_bytes_total" ≠ GAUGE := by decide +kernel
  exact hne

theorem name_of_other {x : Series} (h : x = counterSeries "agent_conductor_samples_total" n ∨
    x = versionSeries version ∨ ∃ m ∈ auditBytes, x = counterSeries "agent_conductor_audit_bytes_total" m) :
    x.name ≠ GAUGE := by
  rcases h with rfl | rfl | ⟨m, -, rfl⟩
  · exact samples_not_gauge n
  · exact version_not_gauge version
  · exact audit_not_gauge m

theorem gauges_eq : (seriesOf ⟨version, some store, some n, auditBytes, none⟩).filter
    (fun x => decide (x.name = GAUGE)) = sessionsSeries (newest store.rows) := by
  have hversion : decide ((versionSeries version).name = GAUGE) = false :=
    decide_eq_false (version_not_gauge version)
  have hsamples : decide ((counterSeries "agent_conductor_samples_total" n).name = GAUGE) = false :=
    decide_eq_false (samples_not_gauge n)
  have hsessions : (sessionsSeries (newest store.rows)).filter (fun x => decide (x.name = GAUGE)) =
      sessionsSeries (newest store.rows) :=
    List.filter_eq_self.mpr fun x hx => decide_eq_true (sessionsSeries_name _ x hx)
  have haudit : ((auditBytes.map fun m => [counterSeries "agent_conductor_audit_bytes_total" m]).getD []).filter
      (fun x => decide (x.name = GAUGE)) = [] := by
    cases auditBytes with
    | none => rfl
    | some m =>
      have hm : decide ((counterSeries "agent_conductor_audit_bytes_total" m).name = GAUGE) = false :=
        decide_eq_false (audit_not_gauge m)
      exact List.filter_cons_of_neg (by rw [hm]; exact Bool.false_ne_true)
  simp only [seriesOf, Option.map_some, Option.map_none, Option.getD_some, Option.getD_none, List.append_nil,
    List.filter_append, haudit]
  rw [List.filter_cons_of_neg (by rw [hversion]; exact Bool.false_ne_true), List.filter_nil, List.nil_append,
    List.filter_cons_of_neg (by rw [hsamples]; exact Bool.false_ne_true), List.filter_nil, List.append_nil]
  exact hsessions

theorem reads_render (hn : n < 2 ^ 53) (hrows : store.rows.length < 2 ^ 53)
    (haudit : ∀ m ∈ auditBytes, m < 2 ^ 53) :
    Reads (renderPrometheus ⟨version, some store, some n, auditBytes, none⟩) store.rows n := by
  have hnumbers : Numbers ⟨version, some store, some n, auditBytes, none⟩ := by
    refine ⟨fun m hm => ?_, fun m hm => nearestDouble_natCast (haudit m hm), fun _ h => (by cases h),
      fun _ h => (by cases h)⟩
    cases hm
    exact nearestDouble_natCast hn
  have hsmall : (newest store.rows).length < 2 ^ 53 := (List.length_filter_le _ _).trans_lt hrows
  have hclasses := sessionsSeries_classes hsmall
  refine ⟨readSeries_of_mem hnumbers (mem_seriesOf.mpr (.inr (.inl rfl))), fun provider status hshown => ?_,
    fun labels hlabels => ?_, ?_⟩
  · have hmem : series GAUGE (sessionLabels provider status)
        (.finite (countIn (newest store.rows) (provider, status) : Nat)) ∈ sessionsSeries (newest store.rows) := by
      rw [hclasses]
      exact List.mem_map.mpr ⟨(provider, status), mem_classesOf_newest.mpr hshown, rfl⟩
    exact readSeries_of_mem hnumbers (mem_seriesOf.mpr (.inl hmem))
  · refine readSeries_eq_none hnumbers fun x hx hkey => ?_
    rcases mem_seriesOf.mp hx with hx | hx
    · rw [hclasses] at hx
      obtain ⟨⟨provider, status⟩, hc, rfl⟩ := List.mem_map.mp hx
      exact hlabels provider status (mem_classesOf_newest.mp hc) (Prod.ext_iff.mp hkey).2.symm
    · exact name_of_other hx (Prod.ext_iff.mp hkey).1
  · have hvalues : (sessionsSeries (newest store.rows)).filterMap (fun x => x.value.toRat?) =
        ((classesOf (newest store.rows)).map (countIn (newest store.rows))).map fun k : Nat => (k : Rat) := by
      rw [hclasses, List.filterMap_map, List.map_map, ← List.filterMap_eq_map]
      rfl
    rw [gaugeTotal, parse_render hnumbers, Option.map_some, gauges_eq, hvalues, ← Nat.cast_list_sum, sum_countIn]

end Body

/-! ## Two scrapes of one run -/

theorem ledgerStep_grows {l l' : Ledger} {e : Event} (h : ledgerStep l e = some l') :
    l.inserted <+: l'.inserted ∧ l.pruned ≤ l'.pruned := by
  obtain ⟨t, -, rfl⟩ := Option.map_eq_some_iff.mp h
  split
  · exact ⟨List.prefix_append _ _, Nat.le_add_right _ _⟩
  · exact ⟨List.prefix_refl _, Nat.le_refl _⟩

theorem ledger_grows {l l' : Ledger} {es : List Event} (h : exec ledgerStep l es = some l') :
    l.inserted <+: l'.inserted ∧ l.pruned ≤ l'.pruned :=
  exec_invariant (I := fun u => l.inserted <+: u.inserted ∧ l.pruned ≤ u.pruned)
    (fun _ _ _ hst hi => ⟨hi.1.trans (ledgerStep_grows hst).1, hi.2.trans (ledgerStep_grows hst).2⟩) h
    ⟨List.prefix_refl _, Nat.le_refl _⟩

/-- What a scraper reads in a state whose statements are recorded. -/
theorem reads_of_conserved {start : TimeseriesStore} {l : Ledger} (h : Conserved start l) (version : JsString)
    {auditBytes : Option Nat} (haudit : ∀ m ∈ auditBytes, m < 2 ^ 53)
    (hsize : start.rows.length + l.inserted.length < 2 ^ 53) :
    Reads (scrape version l.system auditBytes) ((start.rows ++ l.inserted).drop l.pruned) l.inserted.length := by
  obtain ⟨closed, hstore⟩ := h.table
  rw [scrape, hstore, Option.map_some, h.counted]
  refine reads_render (by omega) ?_ haudit
  show ((start.rows ++ l.inserted).drop l.pruned).length < 2 ^ 53
  rw [List.length_drop, List.length_append]
  omega

/-- At any two moments of a run, whatever fails in it: the counter that a scraper
reads is the number of rows inserted so far, and has grown by those inserted in
between; the gauges are those of the rows that are then in the table. -/
theorem scrapes_of_run {now : Int} {disk : Disk} {start : TimeseriesStore} {es fs : List Event} {s t : State}
    (hs : exec step (init now disk (some start)) es = some s) (ht : exec step s fs = some t)
    (hsize : start.rows.length + t.samplesWritten < 2 ^ 53) (version : JsString) {auditBytes laterBytes : Option Nat}
    (haudit : ∀ m ∈ auditBytes, m < 2 ^ 53) (hlater : ∀ m ∈ laterBytes, m < 2 ^ 53) :
    ∃ inserted more pruned later,
      exec ledgerStep ⟨init now disk (some start), [], 0⟩ es = some ⟨s, inserted, pruned⟩ ∧
      exec ledgerStep ⟨s, inserted, pruned⟩ fs = some ⟨t, inserted ++ more, pruned + later⟩ ∧
      Reads (scrape version s auditBytes) ((start.rows ++ inserted).drop pruned) inserted.length ∧
      Reads (scrape version t laterBytes) ((start.rows ++ (inserted ++ more)).drop (pruned + later))
        (inserted.length + more.length) := by
  obtain ⟨⟨s, inserted, pruned⟩, hledger, rfl⟩ := exec_beside (r := ⟨_, [], 0⟩) ledgerStep_system hs
  obtain ⟨⟨t, inserted', pruned'⟩, hledger', rfl⟩ := exec_beside (r := ⟨s, inserted, pruned⟩) ledgerStep_system ht
  obtain ⟨⟨more, hmore⟩, hle⟩ := ledger_grows hledger'
  obtain ⟨later, hpruned⟩ := Nat.exists_eq_add_of_le hle
  simp only at hmore hpruned
  subst hmore hpruned
  have hinit : Conserved start ⟨init now disk (some start), [], 0⟩ :=
    ⟨rfl, ⟨start.closed, by rw [List.append_nil]; rfl⟩, Nat.zero_le _⟩
  have hbefore := exec_invariant (fun _ _ _ hst hi => Conserved.step hi hst) hledger hinit
  have hafter := exec_invariant (fun _ _ _ hst hi => Conserved.step hi hst) hledger' hbefore
  have hcounted : t.samplesWritten = (inserted ++ more).length := hafter.counted
  rw [hcounted, List.length_append] at hsize
  refine ⟨inserted, more, pruned, later, hledger, hledger', ?_, ?_⟩
  · exact reads_of_conserved hbefore version haudit (by show _ + inserted.length < _; omega)
  · rw [← List.length_append]
    refine reads_of_conserved hafter version hlater ?_
    show _ + (inserted ++ more).length < _
    rw [List.length_append]
    exact hsize

def oneSession : Found := [(js "claude-code", [claudeSession])]

def firstTick : List Event :=
  [.start, .ask 0 0 oneSession, .sched (.read 0 0), .sched (.settle 0), .complete 0 0 .works]

def secondTick : List Event := [.timer 0, .ask 0 1 oneSession, .complete 0 1 .works]

/-- A scrape after the first tick, and one after the second. -/
theorem scrapes_of_ticks :
    ∃ s t, exec step (init 0 (fun _ => none) (some ⟨10, [], false⟩)) firstTick = some s ∧
      exec step s secondTick = some t ∧
      readSeries (scrape (js "dev") s none) COUNTER [] = some (.finite (1 : Nat)) ∧
      readSeries (scrape (js "dev") t (some 7)) COUNTER [] = some (.finite (2 : Nat)) := by
  obtain ⟨inserted, more, pruned, later, hledger, hledger', hreads, hreads'⟩ :=
    @scrapes_of_run 0 (fun _ => none) ⟨10, [], false⟩ firstTick secondTick _ _ rfl rfl (by decide) (js "dev")
      none (some 7) (fun _ h => by cases h) (fun m h => by cases h; norm_num)
  have hone : inserted.length = 1 :=
    (Option.some.inj (congrArg (Option.map fun l => l.inserted.length) hledger)).symm
  have hboth : (exec ledgerStep ⟨init 0 (fun _ => none) (some ⟨10, [], false⟩), [], 0⟩
      (firstTick ++ secondTick)).map (fun l => l.inserted.length) = some (inserted ++ more).length := by
    rw [exec_append, hledger, Option.bind_some, hledger']
    rfl
  have htwo : inserted.length + more.length = 2 := by
    rw [← List.length_append]
    exact (Option.some.inj hboth).symm
  have hnumber : ∀ {m n : Nat}, m = n → some (JsNumber.finite m) = some (.finite n) := fun h => by rw [h]
  exact ⟨_, _, rfl, rfl, hreads.counter.trans (hnumber hone), hreads'.counter.trans (hnumber htwo)⟩

end Conductor.Timeseries.Scrape
