import Conductor.Js.JsonText
import Conductor.Js.Utf8

/-! # Reading a transcript

A transcript is a JSONL file of which only a tail is read. Lines that are not
JSON, or that are no rows of the expected kind, are skipped; the content of a
row is passed on as it is. -/
namespace Conductor.Jsonl.Parser
open Conductor.Js.Text Conductor.Js.Values Conductor.Js.JsonText Conductor.Js.Utf8

def DEFAULT_TAIL_BYTES : Nat := 256000

/-- The non-blank lines of the last `maxBytes` bytes; `none` is a file that
cannot be read. -/
def readJsonlTailLines (file : Option Bytes) (maxBytes : Nat) : List JsString :=
  match file with
  | none => []
  | some bytes =>
    let toRead := min bytes.length maxBytes
    (lines (decode (bytes.drop (bytes.length - toRead)))).filter fun l => !(trim l).isEmpty

structure AssistantTurn where
  stop_reason : Json
  content : Json
  timestamp : Json
  uuid : Json

/-- The body of the loop: the turn of a line, if it is a row of the assistant. -/
def assistantTurn (line : JsString) : Option AssistantTurn := do
  let obj ← parse line
  let type ← (prop obj (js "type")).toOption
  let message := optProp (some obj) (js "message")
  if isText type (js "assistant") && isText (optProp message (js "role")) (js "assistant") then
    some { stop_reason := orElse (optProp message (js "stop_reason")) .null
           content := orElse (optProp message (js "content")) (.arr [])
           timestamp := orElse (optProp (some obj) (js "timestamp")) (.str [])
           uuid := orElse (optProp (some obj) (js "uuid")) (.str []) }
  else none

def extractLastAssistantTurn (file : Option Bytes) : Option AssistantTurn :=
  (readJsonlTailLines file DEFAULT_TAIL_BYTES).reverse.findSome? assistantTurn

structure ToolUse where
  id : JsString
  name : JsString
  input : Json

/-- `toolUses.set`: a repeated id keeps its place. -/
def setToolUse (uses : List ToolUse) (u : ToolUse) : List ToolUse :=
  if uses.any (·.id == u.id) then uses.map fun t => if t.id == u.id then u else t
  else uses ++ [u]

/-- The tool use of a block of an assistant row. -/
def toolUseOf (block : Json) : Option ToolUse :=
  match isText (optProp (some block) (js "type")) (js "tool_use"), optProp (some block) (js "id") with
  | true, some (.str id) =>
    let name := match optProp (some block) (js "name") with
      | some (.str name) => name
      | _ => []
    some ⟨id, name, orElse (optProp (some block) (js "input")) .null⟩
  | _, _ => none

/-- The id that a block of a user row answers. -/
def toolResultOf (block : Json) : Option JsString :=
  match isText (optProp (some block) (js "type")) (js "tool_result"),
      optProp (some block) (js "tool_use_id") with
  | true, some (.str id) => some id
  | _, _ => none

/-- The blocks of the row of a line, when it has the given type. -/
def rowBlocks (type : JsString) (line : JsString) : List Json :=
  match parse line with
  | some obj =>
    match isText (optProp (some obj) (js "type")) type,
        optProp (optProp (some obj) (js "message")) (js "content") with
    | true, some (.arr blocks) => blocks
    | _, _ => []
  | none => []

def extractPendingToolUses (file : Option Bytes) : List ToolUse :=
  let rows := readJsonlTailLines file DEFAULT_TAIL_BYTES
  let toolUses := (rows.flatMap fun row => (rowBlocks (js "assistant") row).filterMap toolUseOf).foldl
    setToolUse []
  let matchedIds := rows.flatMap fun row => (rowBlocks (js "user") row).filterMap toolResultOf
  toolUses.filter fun tu => !matchedIds.contains tu.id

/-! ## What no pending tool use means -/

/-- The tool uses and the answered ids of one line of the tail. -/
def toolUsesOf (row : JsString) : List ToolUse := (rowBlocks (js "assistant") row).filterMap toolUseOf

def toolResultsOf (row : JsString) : List JsString := (rowBlocks (js "user") row).filterMap toolResultOf

theorem setToolUse_ids {uses : List ToolUse} {u : ToolUse} {i : JsString} :
    (∃ t ∈ setToolUse uses u, t.id = i) ↔ (∃ t ∈ uses, t.id = i) ∨ u.id = i := by
  unfold setToolUse
  split
  · rename_i hany
    obtain ⟨t₀, ht₀, hid⟩ := List.any_eq_true.mp hany
    rw [beq_iff_eq] at hid
    simp only [List.mem_map]
    constructor
    · intro h
      obtain ⟨t', ⟨t, ht, rfl⟩, hi⟩ := h
      split at hi
      · exact .inr hi
      · exact .inl ⟨t, ht, hi⟩
    · intro h
      rcases h with ⟨t, ht, rfl⟩ | rfl
      · refine ⟨_, ⟨t, ht, rfl⟩, ?_⟩
        split
        · rename_i he; exact (beq_iff_eq.mp he).symm
        · rfl
      · exact ⟨_, ⟨t₀, ht₀, rfl⟩, by simp [hid]⟩
  · simp only [List.mem_append, List.mem_singleton]
    constructor
    · intro h
      obtain ⟨t, ht | rfl, hi⟩ := h
      · exact .inl ⟨t, ht, hi⟩
      · exact .inr hi
    · intro h
      rcases h with ⟨t, ht, hi⟩ | hi
      · exact ⟨t, .inl ht, hi⟩
      · exact ⟨u, .inr rfl, hi⟩

theorem foldl_setToolUse_ids {us uses : List ToolUse} {i : JsString} :
    (∃ t ∈ us.foldl setToolUse uses, t.id = i) ↔ (∃ t ∈ uses, t.id = i) ∨ ∃ u ∈ us, u.id = i := by
  induction us generalizing uses with
  | nil => simp
  | cons u us ih => rw [List.foldl_cons, ih, setToolUse_ids, or_assoc, List.exists_mem_cons_iff]

/-- Nothing is pending when every tool use of the tail has its result in the tail. -/
theorem extractPendingToolUses_eq_nil {file : Option Bytes} :
    extractPendingToolUses file = [] ↔
      ∀ row ∈ readJsonlTailLines file DEFAULT_TAIL_BYTES, ∀ u ∈ toolUsesOf row,
        ∃ row' ∈ readJsonlTailLines file DEFAULT_TAIL_BYTES, u.id ∈ toolResultsOf row' := by
  have hids : ∀ (us : List ToolUse) (ids : List JsString),
      ((us.foldl setToolUse []).filter fun tu => !ids.contains tu.id) = [] ↔ ∀ u ∈ us, u.id ∈ ids := by
    intro us ids
    simp only [List.filter_eq_nil_iff, Bool.not_eq_true', Bool.not_eq_false, List.contains_iff_mem]
    constructor
    · intro h u hu
      obtain ⟨t, ht, hi⟩ := (@foldl_setToolUse_ids us [] u.id).mpr (.inr ⟨u, hu, rfl⟩)
      exact hi ▸ h t ht
    · intro h t ht
      rcases foldl_setToolUse_ids.mp ⟨t, ht, rfl⟩ with ⟨_, hn, _⟩ | ⟨u, hu, hi⟩
      · cases hn
      · exact hi ▸ h u hu
  refine (hids _ _).trans ⟨fun h row hrow u hu => ?_, fun h u hu => ?_⟩
  · exact List.mem_flatMap.mp (h u (List.mem_flatMap.mpr ⟨row, hrow, hu⟩))
  · obtain ⟨row, hrow, hu⟩ := List.mem_flatMap.mp hu
    exact List.mem_flatMap.mpr (h row hrow u hu)

end Conductor.Jsonl.Parser
