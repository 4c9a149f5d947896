import Mathlib.Data.List.AList
import Conductor.Lib.Framing
import Conductor.Js.JsonText
import Conductor.Timeseries.Store
import Conductor.Timeseries.TextFormat

/-! # Prometheus exposition

The body of `GET /metrics`, line by line, and what a scraper reads out of it: the
value behind a metric name with its labels. For the session gauge it is a count
of the newest samples of the store. -/
namespace Conductor.Timeseries.Prometheus
open Conductor.Lib.Framing Conductor.Js.Text Conductor.Js.Number Conductor.Js.JsonText Conductor.Sessions.Types
open Conductor.Timeseries.Store
open Conductor.Timeseries.TextFormat (escapeUnit parseLabelValue parseLabelValue_escaped)

def STATUSES : List RefinedStatus := [.awaiting_user_input, .tool_pending, .crashed, .working, .idle]

def statusText : RefinedStatus → JsString
  | .awaiting_user_input => js "awaiting_user_input"
  | .tool_pending => js "tool_pending"
  | .crashed => js "crashed"
  | .working => js "working"
  | .idle => js "idle"

structure TodoTotals where
  openTodos : Nat
  completed : Nat

structure PrometheusInput where
  version : JsString
  store : Option TimeseriesStore
  samplesWritten : Option Nat
  auditBytes : Option Nat
  todos : Option TodoTotals

/-- `v.replace(/u/g, text)` for a pattern of one unit. -/
def replaceAll (v : JsString) (u : UInt16) (text : JsString) : JsString :=
  v.flatMap fun w => if w = u then text else [w]

def escapeLabel (v : JsString) : JsString :=
  replaceAll (replaceAll (replaceAll v 0x5C (js "\\\\")) 0x22 (js "\\\"")) 10 (js "\\n")

abbrev StatusCounts := AList fun _ : RefinedStatus => Nat
abbrev Matrix := AList fun _ : JsString => StatusCounts

/-- One round of the loop of `aggregateSessions`. -/
def addSample (out : Matrix) (s : Sample) : Matrix :=
  let perProvider := (out.lookup s.provider).getD ∅
  out.insert s.provider
    (perProvider.insert s.refinedStatus ((perProvider.lookup s.refinedStatus).getD 0 + 1))

def aggregateSessions (samples : List Sample) : Matrix := samples.foldl addSample ∅

/-- The metric name with its labels, up to the value. -/
def sessionsKey (provider : JsString) (status : RefinedStatus) : JsString :=
  js "agent_conductor_sessions_total\x7bprovider=\"" ++ escapeLabel provider ++
    js "\",status=\"" ++ statusText status ++ js "\"\x7d "

/-- The provider names in the order of `Array.prototype.sort`. -/
def sortedProviders (matrix : Matrix) : List JsString :=
  matrix.keys.mergeSort fun a b => decide (a ≤ b)

def providerRows (matrix : Matrix) (provider : JsString) : List JsString :=
  let perStatus := (matrix.lookup provider).getD ∅
  STATUSES.map fun status => sessionsKey provider status ++
    js (toString ((perStatus.lookup status).getD 0))

def sessionsRows (matrix : Matrix) : List JsString :=
  if matrix.keys = [] then [sessionsKey (js "none") .idle ++ js "0"]
  else (sortedProviders matrix).flatMap (providerRows matrix)

def buildInfoLines (version : JsString) : List JsString :=
  [js "# HELP agent_conductor_build_info Build metadata for the running agent-conductor.",
   js "# TYPE agent_conductor_build_info gauge",
   js "agent_conductor_build_info\x7bversion=\"" ++ escapeLabel version ++ js "\"\x7d 1"]

def sessionsLines (store : TimeseriesStore) : List JsString :=
  [js "# HELP agent_conductor_sessions_total Current count of sessions in each refinedStatus.",
   js "# TYPE agent_conductor_sessions_total gauge"] ++
    sessionsRows (aggregateSessions (latestPerPid store))

/-- `${n}`. A count of sessions is below 2^53, where these are its digits. -/
def countText (n : Nat) : JsString := (JsNumber.finite n).toJsString

def samplesLines (n : Nat) : List JsString :=
  [js "# HELP agent_conductor_samples_total Cumulative sample rows written to the timeseries store since boot.",
   js "# TYPE agent_conductor_samples_total counter",
   js "agent_conductor_samples_total " ++ countText n]

def auditLines (n : Nat) : List JsString :=
  [js "# HELP agent_conductor_audit_bytes_total Current size of the inject audit log file in bytes.",
   js "# TYPE agent_conductor_audit_bytes_total gauge",
   js "agent_conductor_audit_bytes_total " ++ countText n]

def todosLines (todos : TodoTotals) : List JsString :=
  [js "# HELP agent_conductor_todos_total Current todo count by state (Apple Reminders intent layer).",
   js "# TYPE agent_conductor_todos_total gauge",
   js "agent_conductor_todos_total\x7bstate=\"open\"\x7d " ++ countText todos.openTodos,
   js "agent_conductor_todos_total\x7bstate=\"completed\"\x7d " ++ countText todos.completed]

def exposition (input : PrometheusInput) : List JsString :=
  buildInfoLines input.version ++ (input.store.map sessionsLines).getD [] ++
    (input.samplesWritten.map samplesLines).getD [] ++ (input.auditBytes.map auditLines).getD [] ++
    (input.todos.map todosLines).getD []

/-- `lines.join("\n") + "\n"`. -/
def renderPrometheus (input : PrometheusInput) : JsString := frame 10 (exposition input)

/-! ## What a scraper reads -/

/-- The value behind `key` in a line that begins with it. -/
def valueAfter (key line : JsString) : Option JsString :=
  if key.isPrefixOf line then some (line.drop key.length) else none

/-- The value of the session gauge; a gauge that is not in the body stands at zero. -/
def sessionsTotal (body provider : JsString) (status : RefinedStatus) : JsString :=
  ((records 10 body).findSome? (valueAfter (sessionsKey provider status))).getD (js "0")

/-! ## The matrix -/

/-- The count in a matrix, zero where it has none. -/
def countOf (matrix : Matrix) (provider : JsString) (status : RefinedStatus) : Nat :=
  (((matrix.lookup provider).getD ∅).lookup status).getD 0

theorem countOf_addSample (out : Matrix) (s : Sample) (provider : JsString) (status : RefinedStatus) :
    countOf (addSample out s) provider status =
      countOf out provider status +
        if s.provider = provider ∧ s.refinedStatus = status then 1 else 0 := by
  unfold countOf addSample
  by_cases hp : provider = s.provider
  · subst hp
    rw [AList.lookup_insert, Option.getD_some]
    by_cases hs : status = s.refinedStatus
    · subst hs
      simp
    · rw [AList.lookup_insert_ne hs, if_neg fun h => hs h.2.symm, Nat.add_zero]
  · rw [AList.lookup_insert_ne hp, if_neg fun h => hp h.1.symm, Nat.add_zero]

theorem countOf_aggregate (samples : List Sample) (provider : JsString) (status : RefinedStatus) :
    countOf (aggregateSessions samples) provider status =
      samples.countP fun s => decide (s.provider = provider ∧ s.refinedStatus = status) := by
  unfold aggregateSessions
  induction samples using List.reverseRecOn with
  | nil => simp [countOf]
  | append_singleton samples s ih =>
    rw [List.foldl_concat, countOf_addSample, ih, List.countP_append, List.countP_singleton]
    simp

theorem countOf_of_not_mem {matrix : Matrix} {provider : JsString} (h : provider ∉ matrix)
    (status : RefinedStatus) : countOf matrix provider status = 0 := by
  unfold countOf
  rw [AList.lookup_eq_none.mpr h]
  simp

theorem mem_sortedProviders {matrix : Matrix} {provider : JsString} :
    provider ∈ sortedProviders matrix ↔ provider ∈ matrix := by
  unfold sortedProviders
  rw [List.mem_mergeSort, AList.mem_keys]

theorem mem_STATUSES (status : RefinedStatus) : status ∈ STATUSES := by
  cases status
  · decide
  · decide
  · decide
  · decide
  · decide

/-! ## The text -/

/-- The three replacements, unit by unit. -/
theorem escapeLabel_eq (v : JsString) : escapeLabel v = v.flatMap escapeUnit := by
  unfold escapeLabel replaceAll
  rw [List.flatMap_assoc, List.flatMap_assoc]
  congr 1
  funext u
  unfold escapeUnit
  by_cases hb : u = 0x5C
  · subst hb
    rfl
  · by_cases hq : u = 0x22
    · subst hq
      rfl
    · by_cases hn : u = 10
      · subst hn
        rfl
      · simp [hb, hq, hn]

theorem newline_not_mem_escapeLabel (v : JsString) : 10 ∉ escapeLabel v := by
  rw [escapeLabel_eq]
  intro h
  obtain ⟨u, -, hu⟩ := List.mem_flatMap.mp h
  unfold escapeUnit at hu
  split at hu
  · revert hu
    decide
  · split at hu
    · revert hu
      decide
    · split at hu
      · revert hu
        decide
      · rename_i hn
        exact hn (List.mem_singleton.mp hu).symm

theorem newline_not_mem_toString (n : Nat) : 10 ∉ js (toString n) := by
  intro h
  have hd := isDigit_toString h
  revert hd
  decide

theorem newline_not_mem_countText (n : Nat) : 10 ∉ countText n := fun h =>
  absurd (printable_numberText (.finite n) 10 h) (by decide)

theorem newline_not_mem_statusText (status : RefinedStatus) : 10 ∉ statusText status := by
  cases status
  · decide
  · decide
  · decide
  · decide
  · decide

/-- A status is known by its first letter. -/
theorem statusText_head {status status' : RefinedStatus}
    (h : (statusText status).head? = (statusText status').head?) : status = status' := by
  revert h
  cases status <;> cases status' <;> decide

theorem statusText_ne_nil (status : RefinedStatus) : statusText status ≠ [] := by
  cases status
  · decide
  · decide
  · decide
  · decide
  · decide

/-- No key is the beginning of the row of another one. -/
theorem sessionsKey_injective {provider provider' rest : JsString} {status status' : RefinedStatus}
    (h : sessionsKey provider status <+: sessionsKey provider' status' ++ rest) :
    provider = provider' ∧ status = status' := by
  obtain ⟨more, hmore⟩ := h
  unfold sessionsKey at hmore
  simp only [List.append_assoc] at hmore
  have hlabel := List.append_cancel_left hmore
  have hquote : js "\",status=\"" = 0x22 :: js ",status=\"" := rfl
  rw [hquote, List.cons_append, List.cons_append] at hlabel
  have hread := congrArg parseLabelValue hlabel
  rw [escapeLabel_eq, escapeLabel_eq, parseLabelValue_escaped, parseLabelValue_escaped] at hread
  simp only [Option.some.injEq, Prod.mk.injEq, List.append_cancel_left_eq] at hread
  obtain ⟨hp, hs⟩ := hread
  refine ⟨hp, statusText_head ?_⟩
  have hhead := congrArg List.head? hs
  rwa [List.head?_append_of_ne_nil _ (statusText_ne_nil status),
    List.head?_append_of_ne_nil _ (statusText_ne_nil status')] at hhead

/-! ## The gauge that is read is a count of samples -/

/-- What all rows of the session gauge begin with. -/
def sessionsMetric : JsString := js "agent_conductor_sessions_total\x7b"

/-- A line that is no row of the session gauge, and is one line. -/
def OtherLine (line : JsString) : Prop := sessionsMetric.isPrefixOf line = false ∧ 10 ∉ line

theorem otherLine_of {line : JsString}
    (h : (sessionsMetric.isPrefixOf line || line.contains 10) = false) : OtherLine line := by
  rw [Bool.or_eq_false_iff, List.contains_eq_mem, decide_eq_false_iff_not] at h
  exact h

theorem otherLine_headers (store : TimeseriesStore) :
    ∀ line ∈ (sessionsLines store).take 2, OtherLine line := by
  simp only [sessionsLines, List.cons_append, List.nil_append, List.take_succ_cons, List.take_zero,
    List.forall_mem_cons]
  exact ⟨otherLine_of (by decide +kernel), otherLine_of (by decide +kernel), by simp⟩

theorem otherLine_buildInfo (version : JsString) :
    ∀ line ∈ buildInfoLines version, OtherLine line := by
  simp only [buildInfoLines, List.forall_mem_cons]
  refine ⟨otherLine_of (by decide +kernel), otherLine_of (by decide +kernel), ⟨rfl, ?_⟩, by simp⟩
  simp only [List.mem_append, newline_not_mem_escapeLabel, or_false]
  decide

theorem otherLine_samples (n : Nat) : ∀ line ∈ samplesLines n, OtherLine line := by
  simp only [samplesLines, List.forall_mem_cons]
  refine ⟨otherLine_of (by decide +kernel), otherLine_of (by decide +kernel), ⟨rfl, ?_⟩, by simp⟩
  simp only [List.mem_append, newline_not_mem_countText, or_false]
  decide

theorem otherLine_audit (n : Nat) : ∀ line ∈ auditLines n, OtherLine line := by
  simp only [auditLines, List.forall_mem_cons]
  refine ⟨otherLine_of (by decide +kernel), otherLine_of (by decide +kernel), ⟨rfl, ?_⟩, by simp⟩
  simp only [List.mem_append, newline_not_mem_countText, or_false]
  decide

theorem otherLine_todos (todos : TodoTotals) : ∀ line ∈ todosLines todos, OtherLine line := by
  simp only [todosLines, List.forall_mem_cons]
  refine ⟨otherLine_of (by decide +kernel), otherLine_of (by decide +kernel), ⟨rfl, ?_⟩, ⟨rfl, ?_⟩,
    by simp⟩
  · simp only [List.mem_append, newline_not_mem_countText, or_false]
    decide
  · simp only [List.mem_append, newline_not_mem_countText, or_false]
    decide

theorem newline_not_mem_sessionsKey (provider : JsString) (status : RefinedStatus) :
    10 ∉ sessionsKey provider status := by
  simp only [sessionsKey, List.mem_append, newline_not_mem_escapeLabel, newline_not_mem_statusText,
    or_false]
  decide

theorem mem_sessionsRows {matrix : Matrix} {row : JsString} (h : row ∈ sessionsRows matrix) :
    ∃ provider status n, row = sessionsKey provider status ++ js (toString n) ∧
      n = countOf matrix provider status := by
  unfold sessionsRows at h
  split at h
  · rename_i hempty
    refine ⟨js "none", .idle, 0, List.mem_singleton.mp h, ?_⟩
    rw [countOf_of_not_mem]
    rw [AList.mem_keys, hempty]
    simp
  · obtain ⟨provider, -, hrow⟩ := List.mem_flatMap.mp h
    obtain ⟨status, -, rfl⟩ := List.mem_map.mp hrow
    exact ⟨provider, status, _, rfl, rfl⟩

theorem valueAfter_row {provider provider' rest : JsString} {status status' : RefinedStatus} :
    valueAfter (sessionsKey provider status) (sessionsKey provider' status' ++ rest) =
      if provider = provider' ∧ status = status' then some rest else none := by
  unfold valueAfter
  by_cases h : provider = provider' ∧ status = status'
  · obtain ⟨rfl, rfl⟩ := h
    rw [if_pos (List.isPrefixOf_iff_prefix.mpr (List.prefix_append _ _)), List.drop_left, if_pos ⟨rfl, rfl⟩]
  · rw [if_neg fun hp => h (sessionsKey_injective (List.isPrefixOf_iff_prefix.mp hp)), if_neg h]

/-- Other lines have no value behind a key of the gauge. -/
theorem valueAfter_other {provider line : JsString} {status : RefinedStatus} (h : OtherLine line) :
    valueAfter (sessionsKey provider status) line = none := by
  unfold valueAfter
  refine if_neg fun hp => ?_
  have hopening : js "agent_conductor_sessions_total\x7bprovider=\"" =
      sessionsMetric ++ js "provider=\"" := by
    rw [sessionsMetric, ← js_append]
    rfl
  have hname : sessionsMetric <+: sessionsKey provider status := by
    unfold sessionsKey
    simp only [hopening, List.append_assoc]
    exact List.prefix_append _ _
  have hline := List.isPrefixOf_iff_prefix.mpr (hname.trans (List.isPrefixOf_iff_prefix.mp hp))
  rw [h.1] at hline
  cases hline

/-- The rows of the gauge hold the counts of the matrix; what has no row counts zero. -/
theorem findSome?_sessionsRows (matrix : Matrix) (provider : JsString) (status : RefinedStatus) :
    ((sessionsRows matrix).findSome? (valueAfter (sessionsKey provider status))).getD (js "0") =
      js (toString (countOf matrix provider status)) := by
  cases hfind : (sessionsRows matrix).findSome? (valueAfter (sessionsKey provider status)) with
  | some v =>
    obtain ⟨row, hrow, hv⟩ := List.exists_of_findSome?_eq_some hfind
    obtain ⟨provider', status', n, rfl, hn⟩ := mem_sessionsRows hrow
    rw [valueAfter_row] at hv
    split at hv
    · rename_i hkey
      cases hv
      rw [hn, hkey.1, hkey.2, Option.getD_some]
    · cases hv
  | none =>
    have hnone := List.findSome?_eq_none_iff.mp hfind
    have hmem : provider ∉ matrix := by
      intro hp
      have hne : matrix.keys ≠ [] := List.ne_nil_of_mem (AList.mem_keys.mp hp)
      have hrow : sessionsKey provider status ++ js (toString (countOf matrix provider status)) ∈
          sessionsRows matrix := by
        unfold sessionsRows
        rw [if_neg hne]
        exact List.mem_flatMap.mpr ⟨provider, mem_sortedProviders.mpr hp,
          List.mem_map.mpr ⟨status, mem_STATUSES status, rfl⟩⟩
      have hv := hnone _ hrow
      rw [valueAfter_row, if_pos ⟨rfl, rfl⟩] at hv
      cases hv
    rw [countOf_of_not_mem hmem]
    rfl

theorem newline_not_mem_sessionsRows {matrix : Matrix} {row : JsString}
    (h : row ∈ sessionsRows matrix) : 10 ∉ row := by
  obtain ⟨provider, status, n, rfl, -⟩ := mem_sessionsRows h
  rw [List.mem_append, not_or]
  exact ⟨newline_not_mem_sessionsKey provider status, newline_not_mem_toString n⟩

/-- The exposition with a store: the rows of the gauge between other lines. -/
theorem exposition_split {input : PrometheusInput} {store : TimeseriesStore}
    (h : input.store = some store) :
    ∃ before after, exposition input =
        before ++ sessionsRows (aggregateSessions (latestPerPid store)) ++ after ∧
      ∀ line ∈ before ++ after, OtherLine line := by
  refine ⟨buildInfoLines input.version ++ (sessionsLines store).take 2,
    (input.samplesWritten.map samplesLines).getD [] ++ (input.auditBytes.map auditLines).getD [] ++
      (input.todos.map todosLines).getD [], ?_, ?_⟩
  · unfold exposition
    rw [h]
    simp [sessionsLines]
  · intro line hline
    simp only [List.mem_append] at hline
    rcases hline with (hline | hline) | (hline | hline) | hline
    · exact otherLine_buildInfo _ line hline
    · exact otherLine_headers store line hline
    · cases hs : input.samplesWritten with
      | none => simp [hs] at hline
      | some n => exact otherLine_samples n line (by simpa [hs] using hline)
    · cases hs : input.auditBytes with
      | none => simp [hs] at hline
      | some n => exact otherLine_audit n line (by simpa [hs] using hline)
    · cases hs : input.todos with
      | none => simp [hs] at hline
      | some todos => exact otherLine_todos todos line (by simpa [hs] using hline)

/-- The gauge read out of the body counts the newest samples of the provider and status. -/
theorem sessionsTotal_render {input : PrometheusInput} {store : TimeseriesStore}
    (h : input.store = some store) (provider : JsString) (status : RefinedStatus) :
    sessionsTotal (renderPrometheus input) provider status = js (toString
      ((latestPerPid store).countP fun s => decide (s.provider = provider ∧ s.refinedStatus = status))) := by
  obtain ⟨before, after, hlines, hother⟩ := exposition_split h
  have hbefore : before.findSome? (valueAfter (sessionsKey provider status)) = none :=
    List.findSome?_eq_none_iff.mpr fun line hl => valueAfter_other (hother line (by simp [hl]))
  have hafter : after.findSome? (valueAfter (sessionsKey provider status)) = none :=
    List.findSome?_eq_none_iff.mpr fun line hl => valueAfter_other (hother line (by simp [hl]))
  have hnewline : ∀ line ∈ exposition input, 10 ∉ line := by
    rw [hlines]
    intro line hline
    simp only [List.mem_append] at hline
    rcases hline with (hline | hline) | hline
    · exact (hother line (by simp [hline])).2
    · exact newline_not_mem_sessionsRows hline
    · exact (hother line (by simp [hline])).2
  unfold sessionsTotal renderPrometheus
  rw [records_frame hnewline, hlines, List.findSome?_append, List.findSome?_append, hbefore, hafter,
    Option.none_or, Option.or_none, findSome?_sessionsRows, countOf_aggregate]

end Conductor.Timeseries.Prometheus
