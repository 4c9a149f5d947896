import Conductor.Js.ToNumber
import Conductor.Timeseries.Prometheus
import Conductor.Timeseries.TextFormat

/-! # What a scraper gets back

The body of `GET /metrics`, read with the grammar of its format: the version, the
counters, and for each provider one series a status. A store without samples has one
row of its own, for no provider. -/
namespace Conductor.Timeseries.MetricsRoundTrip
open Conductor.Lib.Framing Conductor.Js.Text Conductor.Js.Number Conductor.Js.JsonText Conductor.Js.Numerals
open Conductor.Js.Doubles Conductor.Js.ToNumber Conductor.Sessions.Types Conductor.Timeseries.Store Conductor.Timeseries.Prometheus
open Conductor.Timeseries.TextFormat

/-! ## The series -/

def series (name : JsString) (labels : List (JsString × JsString)) (value : JsNumber) : Series :=
  ⟨name, labels, value, none⟩

def versionSeries (version : JsString) : Series :=
  series (js "agent_conductor_build_info") [(js "version", version)] (.finite 1)

def sessionLabels (provider : JsString) (status : RefinedStatus) : List (JsString × JsString) :=
  [(js "provider", provider), (js "status", statusText status)]

/-- The samples of the provider with the status. The number is the count, as far as
numbers can count. -/
def sessionSeries (samples : List Sample) (provider : JsString) (status : RefinedStatus) : Series :=
  series (js "agent_conductor_sessions_total") (sessionLabels provider status)
    (nearestDouble (samples.countP fun s => s.provider = provider ∧ s.refinedStatus = status))

/-- The names of the providers, each once, in order. -/
def providersOf (samples : List Sample) : List JsString :=
  (samples.map Sample.provider).eraseDups.mergeSort fun a b => decide (a ≤ b)

/-- Every provider that is present, with every status; without samples, a placeholder. -/
def sessionsSeries (samples : List Sample) : List Series :=
  if samples = [] then [series (js "agent_conductor_sessions_total") (sessionLabels (js "none") .idle) (.finite 0)]
  else (providersOf samples).flatMap fun provider => STATUSES.map (sessionSeries samples provider)

def counterSeries (name : String) (n : Nat) : Series := series (js name) [] (.finite n)

def todosSeries (todos : TodoTotals) : List Series :=
  [series (js "agent_conductor_todos_total") [(js "state", js "open")] (.finite todos.openTodos),
   series (js "agent_conductor_todos_total") [(js "state", js "completed")] (.finite todos.completed)]

/-- The series of an exposition, in its order. -/
def seriesOf (input : PrometheusInput) : List Series :=
  [versionSeries input.version] ++ (input.store.map fun store => sessionsSeries (latestPerPid store)).getD [] ++
    (input.samplesWritten.map fun n => [counterSeries "agent_conductor_samples_total" n]).getD [] ++
    (input.auditBytes.map fun n => [counterSeries "agent_conductor_audit_bytes_total" n]).getD [] ++
    (input.todos.map todosSeries).getD []

/-- The counters are numbers that the program can hold. -/
structure Numbers (input : PrometheusInput) : Prop where
  samplesWritten : ∀ n, input.samplesWritten = some n → IsDouble (.finite n)
  auditBytes : ∀ n, input.auditBytes = some n → IsDouble (.finite n)
  openTodos : ∀ todos, input.todos = some todos → IsDouble (.finite todos.openTodos)
  completed : ∀ todos, input.todos = some todos → IsDouble (.finite todos.completed)

/-! ## Values -/

theorem valueOf_number {token : JsString} {n : JsNumber} (h : parseNumber token = some (n, [])) :
    valueOf token = some n := by
  have hword : ∀ w : JsString, parseNumber w = none → token ≠ w := by
    rintro w hw rfl
    rw [hw] at h
    cases h
  unfold valueOf
  rw [if_neg (hword _ rfl), if_neg (hword _ rfl), if_neg (hword _ rfl), h]

theorem isNumeral_toString (n : Nat) : IsNumeral (js (toString n)) n := by
  have hwhole : IsWhole (js (toString n)) := by
    rcases Nat.eq_zero_or_pos n with rfl | hpos
    · exact .inl rfl
    · exact .inr (whole_toString hpos)
  refine ⟨js (toString n), [], [], [], 0, (List.append_nil _).symm, hwhole, .inl ⟨rfl, rfl⟩, .inl ⟨rfl, rfl⟩, ?_⟩
  simp [decimalValue, digitsValue_toString, -Nat.toString_eq_repr]

theorem ends_nil : Ends [] := fun u hu => by cases hu

theorem valueOf_toString (n : Nat) : valueOf (js (toString n)) = some (nearestDouble n) := by
  have hparse := parseNumber_append (isNumeral_toString n) ends_nil false
  refine valueOf_number ?_
  simpa [-Nat.toString_eq_repr] using hparse

theorem valueOf_one : valueOf (js "1") = some (.finite 1) := by
  have h := valueOf_toString 1
  rw [nearestDouble_natCast (by norm_num), Nat.cast_one] at h
  exact h

theorem valueOf_countText {n : Nat} (h : IsDouble (.finite n)) : valueOf (countText n) = some (.finite n) := by
  have hparse := parseNumber_numberText h ends_nil
  rw [List.append_nil] at hparse
  exact valueOf_number hparse

theorem not_blank_of_number {s : JsString} (h : NumberUnits s) : ∀ u ∈ s, isBlank u = false := by
  intro u hu
  refine Bool.eq_false_iff.mpr fun hblank => ?_
  have hunit := h u hu
  obtain rfl | rfl : u = 0x20 ∨ u = 9 := by simpa [isBlank] using hblank
  · cases hunit
  · cases hunit

theorem not_blank_toString (n : Nat) : ∀ u ∈ js (toString n), isBlank u = false :=
  not_blank_of_number (numberUnits_toString n)

theorem not_blank_countText (n : Nat) : ∀ u ∈ countText n, isBlank u = false :=
  not_blank_of_number (numberUnits_numberText (.finite n))

/-! ## Lines -/

theorem escape_statusText (status : RefinedStatus) :
    (statusText status).flatMap escapeUnit = statusText status := by
  cases status <;> rfl

theorem isName_labels {ls : List (JsString × JsString)}
    (h : (ls.map Prod.fst).all (fun n => n.head?.any isLabelStart && n.tail.all isLabelUnit) = true) :
    ∀ l ∈ ls, IsName isLabelStart isLabelUnit l.1 := by
  intro l hl
  exact isName_of (List.all_eq_true.mp h _ (List.mem_map_of_mem hl))

theorem parse_versionLine (version : JsString) :
    parseLine (js "agent_conductor_build_info\x7bversion=\"" ++ escapeLabel version ++ js "\"\x7d 1") =
      some [versionSeries version] := by
  have hopen : js "agent_conductor_build_info\x7bversion=\"" =
      js "agent_conductor_build_info" ++ 0x7B :: (js "version" ++ [0x3D, 0x22]) := rfl
  have hclose : js "\"\x7d 1" = [0x22, 0x7D, 0x20] ++ js "1" := rfl
  have htext : js "agent_conductor_build_info\x7bversion=\"" ++ escapeLabel version ++ js "\"\x7d 1" =
      sampleText (js "agent_conductor_build_info") [(js "version", version)] (js "1") := by
    rw [hopen, hclose, escapeLabel_eq]
    simp [sampleText, labelsText, labelText]
  rw [htext]
  have hplain : ∀ u ∈ js "1", isBlank u = false := by
    intro u hu
    rw [show js "1" = [0x31] from rfl, List.mem_singleton] at hu
    rw [hu]
    rfl
  exact parseLine_text (isName_of (by decide)) (isName_labels rfl) valueOf_one hplain

theorem sessionsKey_text (provider : JsString) (status : RefinedStatus) (value : JsString) :
    sessionsKey provider status ++ value =
      sampleText (js "agent_conductor_sessions_total") (sessionLabels provider status) value := by
  have hopen : js "agent_conductor_sessions_total\x7bprovider=\"" =
      js "agent_conductor_sessions_total" ++ 0x7B :: (js "provider" ++ [0x3D, 0x22]) := rfl
  have hmiddle : js "\",status=\"" = [0x22, 0x2C] ++ (js "status" ++ [0x3D, 0x22]) := rfl
  have hclose : js "\"\x7d " = [0x22, 0x7D, 0x20] := rfl
  rw [sessionsKey, hopen, hmiddle, hclose, escapeLabel_eq]
  simp [sampleText, sessionLabels, labelsText, labelText, escape_statusText]

theorem parse_sessionsLine (provider : JsString) (status : RefinedStatus) (n : Nat) :
    parseLine (sessionsKey provider status ++ js (toString n)) =
      some [series (js "agent_conductor_sessions_total") (sessionLabels provider status) (nearestDouble n)] := by
  rw [sessionsKey_text]
  exact parseLine_text (isName_of (by decide)) (isName_labels rfl) (valueOf_toString n) (not_blank_toString n)

/-- A name, a blank and a counter. -/
theorem parse_counterLine {text name : JsString} (htext : text = name ++ [0x20])
    (hname : (name.head?.any isNameStart && name.tail.all isNameUnit) = true) {n : Nat} (h : IsDouble (.finite n)) :
    parseLine (text ++ countText n) = some [series name [] (.finite n)] := by
  have hline : text ++ countText n = sampleText name [] (countText n) := by
    rw [htext, List.append_assoc]
    rfl
  rw [hline]
  exact parseLine_text (isName_of hname) (isName_labels rfl) (valueOf_countText h) (not_blank_countText n)

theorem parse_todosLine {text state : JsString}
    (htext : text = js "agent_conductor_todos_total" ++ 0x7B :: (js "state" ++ 0x3D :: 0x22 :: (state ++ [0x22, 0x7D, 0x20])))
    (hstate : state.flatMap escapeUnit = state) {n : Nat} (h : IsDouble (.finite n)) :
    parseLine (text ++ countText n) =
      some [series (js "agent_conductor_todos_total") [(js "state", state)] (.finite n)] := by
  have hline : text ++ countText n =
      sampleText (js "agent_conductor_todos_total") [(js "state", state)] (countText n) := by
    rw [htext]
    simp [sampleText, labelsText, labelText, hstate]
  rw [hline]
  exact parseLine_text (isName_of (by decide)) (isName_labels rfl) (valueOf_countText h) (not_blank_countText n)

/-! ## The providers -/

theorem mem_addSample {out : Matrix} {s : Sample} {provider : JsString} :
    provider ∈ addSample out s ↔ provider = s.provider ∨ provider ∈ out := by
  unfold addSample
  exact AList.mem_insert _

theorem mem_aggregate {samples : List Sample} {provider : JsString} :
    provider ∈ aggregateSessions samples ↔ provider ∈ samples.map Sample.provider := by
  unfold aggregateSessions
  induction samples using List.reverseRecOn with
  | nil => simp
  | append_singleton samples s ih =>
    rw [List.foldl_concat, mem_addSample, ih, List.map_append, List.map_singleton, List.mem_append,
      List.mem_singleton, or_comm]

theorem keys_aggregate (samples : List Sample) :
    (aggregateSessions samples).keys.Perm (samples.map Sample.provider).eraseDups := by
  refine (List.perm_ext_iff_of_nodup (aggregateSessions samples).nodupKeys (nodup_eraseDups _)).mpr fun provider => ?_
  rw [List.mem_eraseDups, ← mem_aggregate]
  exact AList.mem_keys.symm

theorem mergeSort_pairwise (names : List JsString) :
    (names.mergeSort fun a b => decide (a ≤ b)).Pairwise fun a b => a ≤ b := by
  refine (List.pairwise_mergeSort (fun a b c hab hbc => ?_) (fun a b => ?_) names).imp of_decide_eq_true
  · exact decide_eq_true (List.le_trans (of_decide_eq_true hab) (of_decide_eq_true hbc))
  · simpa using List.le_total a b

theorem sortedProviders_eq (samples : List Sample) : sortedProviders (aggregateSessions samples) = providersOf samples :=
  List.Perm.eq_of_pairwise (fun _ _ _ _ hab hba => List.le_antisymm hab hba) (mergeSort_pairwise _)
    (mergeSort_pairwise _)
    ((List.mergeSort_perm _ _).trans ((keys_aggregate samples).trans (List.mergeSort_perm _ _).symm))

theorem providersOf_nodup (samples : List Sample) : (providersOf samples).Nodup :=
  (List.mergeSort_perm _ _).nodup_iff.mpr (nodup_eraseDups _)

theorem keys_aggregate_eq_nil {samples : List Sample} : (aggregateSessions samples).keys = [] ↔ samples = [] := by
  have hperm := keys_aggregate samples
  constructor
  · intro h
    rw [h] at hperm
    cases samples with
    | nil => rfl
    | cons s samples =>
      have hmem : s.provider ∈ ((s :: samples).map Sample.provider).eraseDups :=
        List.mem_eraseDups.mpr List.mem_cons_self
      rw [← hperm.mem_iff] at hmem
      cases hmem
  · rintro rfl
    exact List.perm_nil.mp hperm

/-! ## The blocks -/

theorem parseLines_sessionsRows (samples : List Sample) :
    parseLines (sessionsRows (aggregateSessions samples)) = some (sessionsSeries samples) := by
  unfold sessionsRows sessionsSeries
  by_cases hnone : samples = []
  · rw [if_pos (keys_aggregate_eq_nil.mpr hnone), if_pos hnone]
    have hline := parse_sessionsLine (js "none") .idle 0
    rw [nearestDouble_natCast (by norm_num), Nat.cast_zero] at hline
    simp only [parseLines]
    exact (congrArg (fun r => r.bind fun ss => some (ss ++ [])) hline)
  · rw [if_neg fun h => hnone (keys_aggregate_eq_nil.mp h), if_neg hnone, sortedProviders_eq]
    have hrow : ∀ provider status, parseLine (sessionsKey provider status ++
        js (toString ((((aggregateSessions samples).lookup provider).getD ∅).lookup status |>.getD 0))) =
          some [sessionSeries samples provider status] := by
      intro provider status
      rw [parse_sessionsLine]
      have hcount := countOf_aggregate samples provider status
      rw [countOf] at hcount
      rw [hcount]
      rfl
    induction providersOf samples with
    | nil => rfl
    | cons provider providers ih =>
      rw [List.flatMap_cons, List.flatMap_cons]
      exact parseLines_append (parseLines_map fun status _ => hrow provider status) ih

theorem parseLines_optional {α : Type} (o : Option α) {lines : α → List JsString} {ss : α → List Series}
    (h : ∀ a, o = some a → parseLines (lines a) = some (ss a)) :
    parseLines ((o.map lines).getD []) = some ((o.map ss).getD []) := by
  cases o with
  | none => rfl
  | some a => exact h a rfl

theorem parseLines_version (version : JsString) :
    parseLines (buildInfoLines version) = some [versionSeries version] := by
  rw [buildInfoLines, parseLines_comment rfl, parseLines_comment rfl]
  exact parseLines_one (parse_versionLine version)

theorem parseLines_sessions (store : TimeseriesStore) :
    parseLines (sessionsLines store) = some (sessionsSeries (latestPerPid store)) := by
  rw [sessionsLines, List.cons_append, parseLines_comment rfl, List.singleton_append, parseLines_comment rfl]
  exact parseLines_sessionsRows (latestPerPid store)

theorem parseLines_samples {n : Nat} (h : IsDouble (.finite n)) :
    parseLines (samplesLines n) = some [counterSeries "agent_conductor_samples_total" n] := by
  rw [samplesLines, parseLines_comment rfl, parseLines_comment rfl]
  exact parseLines_one (@parse_counterLine _ (js "agent_conductor_samples_total") rfl (by decide) n h)

theorem parseLines_audit {n : Nat} (h : IsDouble (.finite n)) :
    parseLines (auditLines n) = some [counterSeries "agent_conductor_audit_bytes_total" n] := by
  rw [auditLines, parseLines_comment rfl, parseLines_comment rfl]
  exact parseLines_one (@parse_counterLine _ (js "agent_conductor_audit_bytes_total") rfl (by decide) n h)

theorem parseLines_todos {todos : TodoTotals} (hopen : IsDouble (.finite todos.openTodos))
    (hcompleted : IsDouble (.finite todos.completed)) : parseLines (todosLines todos) = some (todosSeries todos) := by
  have hopenLine := @parse_todosLine (js "agent_conductor_todos_total\x7bstate=\"open\"\x7d ") (js "open")
    rfl rfl _ hopen
  have hcompletedLine := @parse_todosLine (js "agent_conductor_todos_total\x7bstate=\"completed\"\x7d ")
    (js "completed") rfl rfl _ hcompleted
  have hlines := parseLines_append (parseLines_one hopenLine) (parseLines_one hcompletedLine)
  rw [todosLines, parseLines_comment rfl, parseLines_comment rfl]
  exact hlines

theorem parseLines_exposition {input : PrometheusInput} (h : Numbers input) :
    parseLines (exposition input) = some (seriesOf input) := by
  have hsessions := parseLines_optional input.store fun store _ => parseLines_sessions store
  have hsamples := parseLines_optional input.samplesWritten fun n hn => parseLines_samples (h.samplesWritten n hn)
  have haudit := parseLines_optional input.auditBytes fun n hn => parseLines_audit (h.auditBytes n hn)
  have htodos := parseLines_optional input.todos fun todos ht =>
    parseLines_todos (h.openTodos todos ht) (h.completed todos ht)
  unfold exposition seriesOf
  refine parseLines_append (parseLines_append (parseLines_append (parseLines_append ?_ hsessions) hsamples) haudit)
    htodos
  exact parseLines_version input.version

theorem newline_not_mem_optional {α : Type} (o : Option α) {lines : α → List JsString}
    (h : ∀ a, ∀ line ∈ lines a, (10 : UInt16) ∉ line) : ∀ line ∈ (o.map lines).getD [], (10 : UInt16) ∉ line := by
  cases o with
  | none => exact fun line hline => by cases hline
  | some a => exact h a

theorem newline_not_mem_sessionsLines (store : TimeseriesStore) : ∀ line ∈ sessionsLines store, 10 ∉ line := by
  have hheaders := otherLine_headers store
  intro line hline
  rcases List.mem_append.mp hline with hline | hline
  · exact (hheaders line hline).2
  · exact newline_not_mem_sessionsRows hline

theorem newline_not_mem_exposition (input : PrometheusInput) : ∀ line ∈ exposition input, 10 ∉ line := by
  unfold exposition
  simp only [List.forall_mem_append]
  exact ⟨⟨⟨⟨fun line hline => (otherLine_buildInfo _ line hline).2,
    newline_not_mem_optional _ newline_not_mem_sessionsLines⟩,
    newline_not_mem_optional _ fun n line hline => (otherLine_samples n line hline).2⟩,
    newline_not_mem_optional _ fun n line hline => (otherLine_audit n line hline).2⟩,
    newline_not_mem_optional _ fun todos line hline => (otherLine_todos todos line hline).2⟩

/-! ## No series twice -/

theorem sessionLabels_injective {provider provider' : JsString} {status status' : RefinedStatus}
    (h : sessionLabels provider status = sessionLabels provider' status') :
    provider = provider' ∧ status = status' := by
  simp only [sessionLabels, List.cons.injEq, Prod.mk.injEq, true_and, and_true] at h
  exact ⟨h.1, statusText_head (congrArg List.head? h.2)⟩

theorem sessionsSeries_nodup (samples : List Sample) : ((sessionsSeries samples).map Series.key).Nodup := by
  unfold sessionsSeries
  split
  · exact List.nodup_singleton _
  · have hstatuses : STATUSES.Nodup := by decide
    rw [List.map_flatMap, List.nodup_flatMap]
    refine ⟨fun provider _ => ?_, (providersOf_nodup samples).imp fun hne => ?_⟩
    · rw [List.map_map]
      exact hstatuses.map fun status status' h => (sessionLabels_injective (Prod.ext_iff.mp h).2).2
    · intro key hkey hkey'
      simp only [List.map_map, List.mem_map] at hkey hkey'
      obtain ⟨status, -, rfl⟩ := hkey
      obtain ⟨status', -, heq⟩ := hkey'
      exact hne (sessionLabels_injective (Prod.ext_iff.mp heq).2).1.symm

/-- Series of other metrics are other series. -/
theorem nodup_append {ss ts : List Series} {names : List JsString} {name : JsString} (hs : (ss.map Series.key).Nodup)
    (hnames : ∀ s ∈ ss, s.name ∈ names) (ht : (ts.map Series.key).Nodup) (hname : ∀ t ∈ ts, t.name = name)
    (hnew : name ∉ names) : ((ss ++ ts).map Series.key).Nodup ∧ ∀ s ∈ ss ++ ts, s.name ∈ name :: names := by
  constructor
  · rw [List.map_append, List.nodup_append]
    refine ⟨hs, ht, fun k hk k' hk' heq => ?_⟩
    obtain ⟨s, hsmem, rfl⟩ := List.mem_map.mp hk
    obtain ⟨t, htmem, rfl⟩ := List.mem_map.mp hk'
    have hsame : s.name = t.name := congrArg Prod.fst heq
    exact hnew (hname t htmem ▸ hsame ▸ hnames s hsmem)
  · intro s hsmem
    rcases List.mem_append.mp hsmem with hsmem | hsmem
    · exact List.mem_cons_of_mem _ (hnames s hsmem)
    · rw [hname s hsmem]
      exact List.mem_cons_self

theorem optional_block {α : Type} (o : Option α) {block : α → List Series} {name : JsString}
    (h : ∀ a, ((block a).map Series.key).Nodup ∧ ∀ s ∈ block a, s.name = name) :
    (((o.map block).getD []).map Series.key).Nodup ∧ ∀ s ∈ (o.map block).getD [], s.name = name := by
  cases o with
  | none => exact ⟨List.nodup_nil, fun s hs => by cases hs⟩
  | some a => exact h a

theorem sessionsSeries_name (samples : List Sample) :
    ∀ s ∈ sessionsSeries samples, s.name = js "agent_conductor_sessions_total" := by
  unfold sessionsSeries
  split
  · exact fun s hs => by rw [List.mem_singleton.mp hs]; rfl
  · intro s hs
    obtain ⟨provider, -, hs⟩ := List.mem_flatMap.mp hs
    obtain ⟨status, -, rfl⟩ := List.mem_map.mp hs
    rfl

theorem counterSeries_block (name : String) (n : Nat) :
    (([counterSeries name n]).map Series.key).Nodup ∧ ∀ s ∈ [counterSeries name n], s.name = js name :=
  ⟨List.nodup_singleton _, fun s hs => by rw [List.mem_singleton.mp hs]; rfl⟩

theorem todosSeries_block (todos : TodoTotals) :
    ((todosSeries todos).map Series.key).Nodup ∧ ∀ s ∈ todosSeries todos, s.name = js "agent_conductor_todos_total" := by
  constructor
  · show [(js "agent_conductor_todos_total", [(js "state", js "open")]),
      (js "agent_conductor_todos_total", [(js "state", js "completed")])].Nodup
    decide +kernel
  · intro s hs
    simp only [todosSeries, List.mem_cons, List.not_mem_nil, or_false] at hs
    rcases hs with rfl | rfl
    · rfl
    · rfl

theorem seriesOf_nodup (input : PrometheusInput) : ((seriesOf input).map Series.key).Nodup := by
  have hsessions := optional_block input.store fun store =>
    ⟨sessionsSeries_nodup (latestPerPid store), sessionsSeries_name (latestPerPid store)⟩
  have hsamples := optional_block input.samplesWritten (counterSeries_block "agent_conductor_samples_total")
  have haudit := optional_block input.auditBytes (counterSeries_block "agent_conductor_audit_bytes_total")
  have htodos := optional_block input.todos todosSeries_block
  have hversion : ∀ s ∈ [versionSeries input.version], s.name ∈ [js "agent_conductor_build_info"] := by
    intro s hs
    rw [List.mem_singleton.mp hs]
    exact List.mem_singleton_self _
  have hone : ([versionSeries input.version].map Series.key).Nodup := List.nodup_singleton _
  obtain ⟨hnodup, hnames⟩ := nodup_append hone hversion hsessions.1 hsessions.2 (by decide +kernel)
  obtain ⟨hnodup, hnames⟩ := nodup_append hnodup hnames hsamples.1 hsamples.2 (by decide +kernel)
  obtain ⟨hnodup, hnames⟩ := nodup_append hnodup hnames haudit.1 haudit.2 (by decide +kernel)
  exact (nodup_append hnodup hnames htodos.1 htodos.2 (by decide +kernel)).1

/-- The body is read to the end, and says what it was made of. -/
theorem metrics_round_trip {input : PrometheusInput} (h : Numbers input) :
    parseBody (renderPrometheus input) = some (seriesOf input) ∧ ((seriesOf input).map Series.key).Nodup := by
  refine ⟨?_, seriesOf_nodup input⟩
  rw [renderPrometheus, parseBody_frame (newline_not_mem_exposition input), parseLines_exposition h]

/-- A version and a provider with all that is escaped, and counters. -/
def oddNames : PrometheusInput :=
  { version := js "1\\\"2\n"
    store := some ⟨DEFAULT_MAX_ROWS, [⟨1000, js "a\\n\"", 7, .idle, none, none, none⟩], false⟩
    samplesWritten := some 42
    auditBytes := none
    todos := some ⟨3, 0⟩ }

theorem metrics_round_trip_oddNames : parseBody (renderPrometheus oddNames) = some (seriesOf oddNames) ∧
    ((seriesOf oddNames).map Series.key).Nodup := by
  refine metrics_round_trip ⟨fun n hn => ?_, fun n hn => ?_, fun todos ht => ?_, fun todos ht => ?_⟩
  · cases hn
    exact nearestDouble_natCast (by norm_num)
  · cases hn
  · cases ht
    exact nearestDouble_natCast (by norm_num)
  · cases ht
    exact nearestDouble_natCast (by norm_num)

def noSamples : TimeseriesStore := ⟨DEFAULT_MAX_ROWS, [], false⟩

/-- Without a sample there is a series all the same, for a provider that is not there. -/
theorem placeholder_without_samples : latestPerPid noSamples = [] ∧
    parseBody (renderPrometheus ⟨js "0.5.0", some noSamples, none, none, none⟩) =
      some [versionSeries (js "0.5.0"),
        series (js "agent_conductor_sessions_total") (sessionLabels (js "none") .idle) (.finite 0)] := by
  refine ⟨rfl, ?_⟩
  rw [renderPrometheus, parseBody_frame (newline_not_mem_exposition _), parseLines_exposition]
  · rfl
  · exact ⟨fun n hn => (by cases hn), fun n hn => (by cases hn), fun n hn => (by cases hn), fun n hn => (by cases hn)⟩

end Conductor.Timeseries.MetricsRoundTrip
