import Conductor.Js.NaturalText
import Conductor.Jsonl.Rejections

/-! # The tool uses of the last turns

The scan collects the tool uses of every row of the assistant under its index and
cuts off the early ones at the end, when it knows how many rows there were. -/
namespace Conductor.Jsonl.RecentTurns
open Conductor.Js.Text Conductor.Js.Number Conductor.Js.Values Conductor.Js.Utf8 Conductor.Js.Operators
open Conductor.Js.Doubles Conductor.Js.ToNumber Conductor.Js.NaturalText Conductor.Lib.Statements
open Conductor.Jsonl.Parser Conductor.Jsonl.Usage Conductor.Jsonl.Rejections

/-! ## What the rows say -/

/-- An array of objects. -/
def isBlocks : Option Json → Bool
  | some (.arr blocks) => blocks.all isObject
  | _ => false

/-- The content of every row of the assistant is an array of blocks. -/
def ArrayContents (lines : List JsString) : Prop :=
  ∀ line ∈ lines, isAssistantTyped (safeParse line) = true → isBlocks (contentOf (safeParse line)) = true

instance (lines : List JsString) : Decidable (ArrayContents lines) :=
  inferInstanceAs (Decidable (∀ line ∈ lines, _))

def assistantRows (lines : List JsString) : List Json := (lines.map safeParse).filter isAssistantTyped

/-- The record of a block that is a named tool use. -/
def toolUseRecord (turnIndex : Int) (block : Json) : Option ToolUseRecord :=
  match isText (optProp (some block) (js "type")) (js "tool_use"), optProp (some block) (js "name") with
  | true, some (.str name) =>
    (inputKeys (optProp (some block) (js "input"))).toOption.map fun keys => ⟨name, keys, turnIndex⟩
  | _, _ => none

def blocksOf (row : Json) : List Json :=
  match contentOf row with
  | some (.arr blocks) => blocks
  | _ => []

/-- The tool uses of consecutive rows, the first of which has the given index. -/
def eventsFrom : Int → List Json → List ToolUseRecord
  | _, [] => []
  | turnIndex, row :: rows => (blocksOf row).filterMap (toolUseRecord turnIndex) ++ eventsFrom (turnIndex + 1) rows

/-- The tool uses of the last `m` rows. -/
def lastTurns (m : Nat) (rows : List Json) : List ToolUseRecord :=
  eventsFrom (rows.length - m : Nat) (rows.drop (rows.length - m))

theorem isBlocks_iff {content : Option Json} : isBlocks content = true ↔
    ∃ blocks, content = some (.arr blocks) ∧ ∀ b ∈ blocks, ∃ members, b = .obj members := by
  cases content with
  | none => simp [isBlocks]
  | some v =>
    cases v with
    | arr blocks => simp [isBlocks, isObject_iff]
    | _ => simp [isBlocks]

theorem toolUseRecord_index {turnIndex : Int} {block : Json} {e : ToolUseRecord}
    (h : toolUseRecord turnIndex block = some e) : e.turnIndex = turnIndex := by
  unfold toolUseRecord at h
  split at h
  · obtain ⟨keys, -, rfl⟩ := Option.map_eq_some_iff.mp h
    rfl
  · cases h

theorem mem_eventsFrom {start : Int} {rows : List Json} {e : ToolUseRecord} (h : e ∈ eventsFrom start rows) :
    start ≤ e.turnIndex ∧ e.turnIndex < start + rows.length := by
  induction rows generalizing start with
  | nil => cases h
  | cons row rows ih =>
    rw [eventsFrom, List.mem_append] at h
    rw [List.length_cons]
    push_cast
    rcases h with h | h
    · obtain ⟨block, -, hb⟩ := List.mem_filterMap.mp h
      have hindex := toolUseRecord_index hb
      omega
    · have hrest := ih h
      omega

theorem eventsFrom_append (start : Int) (rows more : List Json) :
    eventsFrom start (rows ++ more) = eventsFrom start rows ++ eventsFrom (start + rows.length) more := by
  induction rows generalizing start with
  | nil => simp [eventsFrom]
  | cons row rows ih =>
    have hstart : start + 1 + (rows.length : Int) = start + ((row :: rows).length : Nat) := by
      rw [List.length_cons]
      push_cast
      omega
    rw [List.cons_append, eventsFrom, eventsFrom, ih, List.append_assoc, hstart]

/-- The rows from the cutoff on. -/
theorem filter_eventsFrom {rows : List Json} {k : Nat} (hk : k ≤ rows.length) :
    (eventsFrom 0 rows).filter (fun e => decide ((k : Int) ≤ e.turnIndex)) = eventsFrom k (rows.drop k) := by
  have hsplit : eventsFrom 0 rows = eventsFrom 0 (rows.take k) ++ eventsFrom k (rows.drop k) := by
    conv_lhs => rw [← List.take_append_drop k rows, eventsFrom_append]
    simp [List.length_take, Nat.min_eq_left hk]
  have hearly : (eventsFrom 0 (rows.take k)).filter (fun e => decide ((k : Int) ≤ e.turnIndex)) = [] := by
    rw [List.filter_eq_nil_iff]
    intro e he
    have hindex := (mem_eventsFrom he).2
    rw [List.length_take, Nat.min_eq_left hk] at hindex
    rw [decide_eq_true_eq]
    omega
  have hlate : (eventsFrom k (rows.drop k)).filter (fun e => decide ((k : Int) ≤ e.turnIndex)) =
      eventsFrom k (rows.drop k) := by
    rw [List.filter_eq_self]
    intro e he
    exact decide_eq_true (mem_eventsFrom he).1
  rw [hsplit, List.filter_append, hearly, hlate, List.nil_append]

theorem lastTurns_suffix {m n : Nat} (h : m ≤ n) (rows : List Json) : lastTurns m rows <:+ lastTurns n rows := by
  unfold lastTurns
  obtain ⟨d, hd⟩ : ∃ d, rows.length - m = rows.length - n + d := ⟨_, (Nat.add_sub_of_le (by omega)).symm⟩
  rw [hd, ← List.drop_drop]
  refine ⟨eventsFrom (rows.length - n : Nat) ((rows.drop (rows.length - n)).take d), ?_⟩
  have hlength : ((rows.drop (rows.length - n)).take d).length = d := by
    rw [List.length_take, List.length_drop]
    omega
  have hindex : ((rows.length - n : Nat) : Int) + ((rows.drop (rows.length - n)).take d).length =
      ((rows.length - n + d : Nat) : Int) := by
    rw [hlength]
    push_cast
    rfl
  rw [← hindex, ← eventsFrom_append, List.take_append_drop]

/-! ## The loop -/

theorem exec_visitBlock {block : Json} (h : ∃ members, block = .obj members) (s : EventScan) :
    exec (visitBlock block) s =
      (.ok (), { s with allEvents := s.allEvents ++ (toolUseRecord s.turnIndex block).toList }) := by
  obtain ⟨members, rfl⟩ := h
  have hnull : isNull (.obj members) = false := rfl
  unfold visitBlock toolUseRecord
  rw [exec_bind_ok (exec_prop hnull (js "type") s)]
  cases htype : isText (optProp (some (.obj members)) (js "type")) (js "tool_use") with
  | false => simp
  | true =>
    rw [if_pos rfl, exec_bind_ok (exec_prop hnull (js "name") s)]
    cases optProp (some (.obj members)) (js "name") with
    | none => simp
    | some v =>
      cases v with
      | str name =>
        obtain ⟨keys, hkeys⟩ := exists_inputKeys (optProp (some (.obj members)) (js "input"))
        have hrun : exec (eval (inputKeys (optProp (some (.obj members)) (js "input")))) s = (.ok keys, s) := by
          rw [exec_eval, hkeys]
        simp only
        rw [exec_bind_ok (exec_prop hnull (js "input") s), exec_bind_ok hrun]
        simp [hkeys, Except.toOption]
      | _ => simp

/-- What a row adds. -/
def addRow (s : EventScan) (row : Json) : EventScan :=
  ⟨s.turnIndex + 1, s.allEvents ++ (blocksOf row).filterMap (toolUseRecord (s.turnIndex + 1))⟩

theorem exec_blocks {blocks : List Json} (h : ∀ b ∈ blocks, ∃ members, b = .obj members) (s : EventScan) :
    exec (forOf visitBlock blocks) s =
      (.ok (), { s with allEvents := s.allEvents ++ blocks.filterMap (toolUseRecord s.turnIndex) }) := by
  induction blocks generalizing s with
  | nil => simp [forOf]
  | cons b blocks ih =>
    rw [exec_forOf_cons, exec_visitBlock (h b (by simp)) s]
    simp only
    rw [ih (fun b' hb' => h b' (by simp [hb']))]
    cases hb : toolUseRecord s.turnIndex b with
    | none => simp [hb]
    | some e => simp [hb]

theorem exec_visitLine {line : JsString}
    (h : isAssistantTyped (safeParse line) = true → isBlocks (contentOf (safeParse line)) = true)
    (s : EventScan) :
    exec (visitLine line) s = (.ok (),
      if isAssistantTyped (safeParse line) = true then addRow s (safeParse line) else s) := by
  unfold visitLine
  generalize safeParse line = obj at h
  by_cases htype : isAssistantTyped obj = true
  · have hnull := not_isNull_of_isText htype
    obtain ⟨blocks, hcontent, hobjects⟩ := isBlocks_iff.mp (h htype)
    have hiterate : iterate (orElse (contentOf obj) (.arr [])) = .ok blocks := by
      rw [hcontent]
      rfl
    have hrun : ∀ s' : EventScan, exec (eval (iterate (orElse (contentOf obj) (.arr [])))) s' =
        (.ok blocks, s') := by
      intro s'
      rw [exec_eval, hiterate]
    have hblocks : blocksOf obj = blocks := by
      rw [blocksOf, hcontent]
    simp only [isTruthy_of_isText htype, if_true, htype]
    rw [exec_bind_ok (exec_prop hnull (js "type") s), ← isAssistantTyped, htype, if_pos rfl,
      exec_bind_ok (exec_assign _ s), exec_bind_ok (exec_prop hnull (js "message") _), ← contentOf,
      exec_bind_ok (hrun _), exec_blocks hobjects, addRow, hblocks]
  · rw [if_neg htype]
    by_cases htruthy : isTruthy obj = true
    · simp only [htruthy, if_true]
      rw [exec_bind_ok (exec_prop (not_isNull_of_isTruthy htruthy) (js "type") s), ← isAssistantTyped,
        if_neg htype, exec_pure]
    · simp only [htruthy, Bool.false_eq_true, if_false]
      rfl

theorem foldl_addRow (rows : List Json) (s : EventScan) : rows.foldl addRow s =
    ⟨s.turnIndex + rows.length, s.allEvents ++ eventsFrom (s.turnIndex + 1) rows⟩ := by
  induction rows generalizing s with
  | nil => simp [eventsFrom]
  | cons row rows ih =>
    rw [List.foldl_cons, ih, addRow, eventsFrom, List.length_cons, EventScan.mk.injEq, List.append_assoc]
    push_cast
    exact ⟨by omega, rfl⟩

/-- The state after the loop. -/
theorem exec_lines {lines : List JsString} (h : ArrayContents lines) :
    exec (forOf visitLine lines) ⟨-1, []⟩ = (.ok (),
      ⟨(assistantRows lines).length - 1, eventsFrom 0 (assistantRows lines)⟩) := by
  rw [exec_forOf fun line hline => exec_visitLine (h line hline)]
  have hfold : ∀ (ls : List JsString) (s : EventScan),
      ls.foldl (fun s line => if isAssistantTyped (safeParse line) = true then addRow s (safeParse line) else s) s =
        (assistantRows ls).foldl addRow s := by
    intro ls s
    unfold assistantRows
    rw [List.foldl_filter, List.foldl_map]
  rw [hfold, foldl_addRow]
  simp only [List.nil_append, Int.reduceNeg, Int.reduceAdd, Prod.mk.injEq, EventScan.mk.injEq, and_true,
    true_and]
  omega

/-! ## The cutoff -/

/-- Rounding leaves what is at least a small natural number at least that. -/
theorem nearestDouble_ge {t : Nat} (ht : t < 2 ^ 53) {d : Int} (hd : (t : Int) ≤ d) (hpos : 0 < d) :
    (∃ v, nearestDouble (d : Rat) = .finite v ∧ (t : Rat) ≤ v) ∨
      nearestDouble (d : Rat) = .infinity false := by
  obtain ⟨n, rfl⟩ := Int.eq_ofNat_of_zero_le hpos.le
  have hn : 0 < (n : Rat) := by exact_mod_cast hpos
  by_cases hsmall : n < 2 ^ 53
  · refine .inl ⟨n, ?_, ?_⟩
    · exact_mod_cast nearestDouble_natCast hsmall
    · exact_mod_cast hd
  · have hlarge : (2 : Rat) ^ (53 : Nat) ≤ ((n : Int) : Rat) := by exact_mod_cast not_lt.mp hsmall
    have htop : (t : Rat) ≤ 2 ^ (53 : Nat) := by exact_mod_cast ht.le
    have hv := nearestDouble_of_pos hn
    split at hv
    · exact .inr hv
    · exact .inl ⟨_, hv, htop.trans (nearestDouble_large hlarge hv)⟩

/-- Rounding keeps the sign. -/
theorem nearestDouble_nonpos {d : Rat} (hd : d ≤ 0) :
    (∃ v, nearestDouble d = .finite v ∧ v ≤ 0) ∨ nearestDouble d = .infinity true := by
  rcases hd.eq_or_lt with rfl | hneg
  · exact .inl ⟨0, rfl, le_refl 0⟩
  unfold nearestDouble
  simp only [if_neg hneg.ne, hneg, decide_true, if_true]
  split
  · exact .inr rfl
  · refine .inl ⟨_, rfl, ?_⟩
    have hquot : ((0 : Int) : Rat) ≤ |d| / 2 ^ max (floorLog2 |d| - 52) (-1074) := by
      have hunit := two_zpow_pos (max (floorLog2 |d| - 52) (-1074))
      simpa using div_nonneg (abs_nonneg d) hunit.le
    have hround : (0 : Rat) ≤ roundHalfEven (|d| / 2 ^ max (floorLog2 |d| - 52) (-1074)) := by
      exact_mod_cast roundHalfEven_ge hquot
    have hunit := two_zpow_pos (max (floorLog2 |d| - 52) (-1074))
    exact neg_nonpos.mpr (mul_nonneg hround hunit.le)

/-- The cutoff leaves the last `n` of `t` turns, all of them or none. -/
theorem isRecent_iff {i t : Nat} (hi : i < t) (ht : t < 2 ^ 53) (n : Int) :
    isRecent i t (.finite n) = true ↔ t - (max 0 (min n t)).toNat ≤ i := by
  have hd : ((t : Int) : Rat) - (n : Rat) = ((t - n : Int) : Rat) := by
    push_cast
    rfl
  have hnonneg : (0 : Rat) ≤ ((i : Int) : Rat) := by exact_mod_cast Nat.zero_le i
  unfold isRecent
  simp only [hd]
  by_cases hall : (t : Int) ≤ n
  · have hturns : t - (max 0 (min n t)).toNat ≤ i := by omega
    have hsign : ((t - n : Int) : Rat) ≤ 0 := by exact_mod_cast sub_nonpos.mpr hall
    rcases nearestDouble_nonpos hsign with ⟨v, hv, hv0⟩ | hv
    · simp only [hv, hturns, max_eq_left hv0, hnonneg, decide_true]
    · simp only [hv, hturns]
  · by_cases hnone : n ≤ 0
    · have hturns : ¬ t - (max 0 (min n t)).toNat ≤ i := by omega
      rcases nearestDouble_ge ht (show (t : Int) ≤ t - n by omega) (by omega) with ⟨v, hv, hle⟩ | hv
      · have hlt : ((i : Int) : Rat) < v := lt_of_lt_of_le (by exact_mod_cast hi) hle
        have hpast : ¬ max 0 v ≤ ((i : Int) : Rat) := not_le.mpr (hlt.trans_le (le_max_right 0 v))
        simp only [hv, hturns, hpast, decide_false, Bool.false_eq_true]
      · simp only [hv, hturns, Bool.false_eq_true]
    · obtain ⟨d, hdn⟩ : ∃ d : Nat, (t : Int) - n = d := ⟨(t - n).toNat, by omega⟩
      have hsmall : d < 2 ^ 53 := by omega
      have hround : nearestDouble (((t : Int) - n : Int) : Rat) = .finite d := by
        rw [hdn]
        exact_mod_cast nearestDouble_natCast hsmall
      have hturns : t - (max 0 (min n t)).toNat = d := by omega
      have hcutoff : (0 : Rat) ≤ (d : Rat) := by exact_mod_cast Nat.zero_le d
      simp only [hround, hturns, max_eq_right hcutoff, decide_eq_true_eq]
      exact_mod_cast Iff.rfl

/-! ## The scan -/

theorem countLines_eq (test : Json → Bool) (lines : List JsString) :
    countLines test lines = .ok (lines.countP fun line => test (safeParse line)) := by
  have hbody : ∀ line ∈ lines, ∀ n : Nat,
      exec (if test (safeParse line) then assign (· + 1) else pure () : Stmt Nat JsError Unit) n =
        (.ok (), if test (safeParse line) = true then n + 1 else n) := by
    intro line _ n
    split
    · rfl
    · rfl
  have hfold : ∀ (ls : List JsString) (n : Nat),
      ls.foldl (fun n line => if test (safeParse line) = true then n + 1 else n) n =
        n + ls.countP fun line => test (safeParse line) := by
    intro ls
    induction ls with
    | nil => simp
    | cons l ls ih =>
      intro n
      rw [List.foldl_cons, ih, List.countP_cons]
      split
      · omega
      · omega
  rw [countLines, returning, exec_forOf hbody, hfold, Nat.zero_add]
  rfl

theorem countTurns_eq (file : Option Bytes) : countTurns file =
    .ok (assistantRows (readJsonlTailLines file DEFAULT_TAIL_BYTES)).length := by
  rw [countTurns, countLines_eq, assistantRows, ← List.countP_eq_length_filter, List.countP_map]
  rfl

theorem lastTurns_nil (m : Nat) : lastTurns m [] = [] := by
  rw [lastTurns, List.drop_nil, eventsFrom]

theorem toolUseEvents_eq {lines : List JsString} (h : ArrayContents lines) (hmany : lines.length < 2 ^ 53)
    (n : Int) : toolUseEvents (.finite n) lines =
      .ok (lastTurns (max 0 (min n (assistantRows lines).length)).toNat (assistantRows lines)) := by
  have hlength : (assistantRows lines).length ≤ lines.length := by
    rw [assistantRows]
    exact (List.length_filter_le _ _).trans_eq (List.length_map _)
  unfold toolUseEvents
  split
  · rename_i hempty
    rw [List.isEmpty_iff.mp hempty]
    exact congrArg Except.ok (lastTurns_nil _).symm
  · rw [returning, exec_lines h]
    generalize assistantRows lines = rows at hlength
    simp only [sub_add_cancel]
    split
    · rename_i hzero
      have hnil : rows = [] := List.eq_nil_of_length_eq_zero (by omega)
      rw [hnil, lastTurns_nil]
      rfl
    · have hrecent : ∀ e ∈ eventsFrom 0 rows, isRecent e.turnIndex rows.length (.finite n) =
          decide (((rows.length - (max 0 (min n rows.length)).toNat : Nat) : Int) ≤ e.turnIndex) := by
        intro e he
        obtain ⟨hlo, hhi⟩ := mem_eventsFrom he
        obtain ⟨i, hi⟩ := Int.eq_ofNat_of_zero_le hlo
        rw [hi, Bool.eq_iff_iff, isRecent_iff (by omega) (by omega), decide_eq_true_eq, Nat.cast_le]
      rw [List.filter_congr hrecent, filter_eventsFrom (Nat.sub_le _ _)]
      rfl

theorem length_tailLines (file : Option Bytes) (maxBytes : Nat) :
    (readJsonlTailLines file maxBytes).length ≤ maxBytes + 1 := by
  cases file with
  | none => simp [readJsonlTailLines]
  | some bytes =>
    have hfilter := List.length_filter_le (fun l => !(trim l).isEmpty)
      (lines (decode (bytes.drop (bytes.length - min bytes.length maxBytes))))
    have hlines := length_lines (decode (bytes.drop (bytes.length - min bytes.length maxBytes)))
    have hunits := length_decode (bytes.drop (bytes.length - min bytes.length maxBytes))
    rw [List.length_drop] at hunits
    rw [readJsonlTailLines]
    omega

/-- The rows of the assistant in the tail of a file. -/
def rowsOf (file : Option Bytes) : List Json := assistantRows (readJsonlTailLines file DEFAULT_TAIL_BYTES)

/-- The tool uses of the last rows of the assistant, as many rows as are asked for and
there are. Who asks for fewer gets the end of what comes for more. -/
structure ReturnsLastTurns (file : Option Bytes) : Prop where
  turns : countTurns file = .ok (rowsOf file).length
  events : ∀ n : Int, extractToolUseEvents file (.finite n) =
    .ok (lastTurns (max 0 (min n (rowsOf file).length)).toNat (rowsOf file))
  suffix : ∀ m n : Int, m ≤ n → ∃ fewer more, extractToolUseEvents file (.finite m) = .ok fewer ∧
    extractToolUseEvents file (.finite n) = .ok more ∧ fewer <:+ more

theorem extractToolUseEvents_recent {file : Option Bytes}
    (h : ArrayContents (readJsonlTailLines file DEFAULT_TAIL_BYTES)) : ReturnsLastTurns file := by
  have hmany : (readJsonlTailLines file DEFAULT_TAIL_BYTES).length < 2 ^ 53 :=
    (length_tailLines file DEFAULT_TAIL_BYTES).trans_lt (by decide)
  have hevents : ∀ n : Int, extractToolUseEvents file (.finite n) =
      .ok (lastTurns (max 0 (min n (rowsOf file).length)).toNat (rowsOf file)) :=
    fun n => toolUseEvents_eq h hmany n
  refine ⟨countTurns_eq file, hevents, fun m n hle => ?_⟩
  exact ⟨_, _, hevents m, hevents n, lastTurns_suffix (by omega) (rowsOf file)⟩

/-- A row of the assistant. -/
def turnLine (blocks : JsString) : JsString :=
  js "\x7b\"type\":\"assistant\"," ++ js "\"message\":\x7b\"content\":[" ++ blocks ++ js "]\x7d\x7d\n"

/-- Three turns, the second without a tool, and between them a row of the user and a
line that is cut off. -/
def threeTurns : Bytes :=
  encode (turnLine (js "\x7b\"type\":\"tool_use\"," ++ js "\"name\":\"Bash\"," ++ js "\"input\":\x7b\"command\":\"ls\"\x7d\x7d") ++
    js "\x7b\"type\":\"user\"\x7d\n" ++ turnLine [] ++ js "\x7b\"type\":\"assis\n" ++
    turnLine (js "\x7b\"type\":\"tool_use\"," ++ js "\"name\":\"Read\"\x7d"))

theorem threeTurns_recent : ReturnsLastTurns (some threeTurns) ∧
    lastTurns 2 (rowsOf (some threeTurns)) = [⟨js "Read", [], 2⟩] ∧
    lastTurns 3 (rowsOf (some threeTurns)) = [⟨js "Bash", [js "command"], 0⟩, ⟨js "Read", [], 2⟩] :=
  ⟨extractToolUseEvents_recent (by decide +kernel), by decide +kernel, by decide +kernel⟩

end Conductor.Jsonl.RecentTurns
