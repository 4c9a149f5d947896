import Conductor.Js.Operators
import Conductor.Jsonl.Parser
import Conductor.Lib.Statements

/-! # Counts and sums over a transcript

The scans that guard the parsing of a line and nothing else. What they read of a
row that does parse they read as if it had the declared shape, and a throw in the
middle of a row is a rejection of the whole scan. -/
namespace Conductor.Jsonl.Usage
open Conductor.Js.Text Conductor.Js.Number Conductor.Js.Values Conductor.Js.JsonText Conductor.Js.Utf8
open Conductor.Js.Operators Conductor.Lib.Statements Conductor.Jsonl.Parser

/-- What a line parses to, `null` where it does not. -/
def safeParse (line : JsString) : Json := (parse line).getD .null

/-- `obj?.type === "assistant"`. -/
def isAssistantTyped (obj : Json) : Bool := isText (optProp (some obj) (js "type")) (js "assistant")

/-! ## Tool uses -/

structure ToolUseRecord where
  name : JsString
  inputKeys : List JsString
  turnIndex : Int
  deriving DecidableEq

/-- The variables of the scan. -/
structure EventScan where
  turnIndex : Int
  allEvents : List ToolUseRecord

def inputKeys : Option Json → Except JsError (List JsString)
  | some input => if isTruthy input then objectKeys input else pure []
  | none => pure []

/-- The body of the loop over the blocks of a row. -/
def visitBlock (block : Json) : Stmt EventScan JsError Unit := do
  let type ← eval (prop block (js "type"))
  if isText type (js "tool_use") then
    match ← eval (prop block (js "name")) with
    | some (.str name) =>
      let input ← eval (prop block (js "input"))
      let keys ← eval (inputKeys input)
      assign fun s => { s with allEvents := s.allEvents ++ [⟨name, keys, s.turnIndex⟩] }
    | _ => pure ()

/-- The body of the loop over the lines. -/
def visitLine (line : JsString) : Stmt EventScan JsError Unit := do
  let obj := safeParse line
  if isTruthy obj then
    let type ← eval (prop obj (js "type"))
    if isText type (js "assistant") then
      assign fun s => { s with turnIndex := s.turnIndex + 1 }
      let message ← eval (prop obj (js "message"))
      let blocks ← eval (iterate (orElse (optProp message (js "content")) (.arr [])))
      forOf visitBlock blocks

/-- `turnIndex >= Math.max(0, totalTurns - lastNTurns)`. -/
def isRecent (turnIndex totalTurns : Int) (lastNTurns : JsNumber) : Bool :=
  match lastNTurns with
  | .nan => false
  | .infinity negative => !negative
  | .finite q =>
    match nearestDouble (totalTurns - q) with
    | .finite cutoff => decide (max 0 cutoff ≤ turnIndex)
    | .infinity negative => negative
    | .nan => false

def toolUseEvents (lastNTurns : JsNumber) (lines : List JsString) :
    Except JsError (List ToolUseRecord) :=
  if lines.isEmpty then pure []
  else returning (forOf visitLine lines) ⟨-1, []⟩ fun s =>
    let totalTurns := s.turnIndex + 1
    if totalTurns ≤ 0 then pure []
    else pure (s.allEvents.filter fun e => isRecent e.turnIndex totalTurns lastNTurns)

def extractToolUseEvents (file : Option Bytes) (lastNTurns : JsNumber) :
    Except JsError (List ToolUseRecord) :=
  toolUseEvents lastNTurns (readJsonlTailLines file DEFAULT_TAIL_BYTES)

/-! ## Counts -/

/-- The count of the lines whose value passes the test. -/
def countLines (test : Json → Bool) (lines : List JsString) : Except JsError Nat :=
  returning (forOf (fun line => if test (safeParse line) then assign (· + 1) else pure ()) lines) 0 pure

/-- `obj?.isCompactSummary === true`. -/
def isCompactSummary (obj : Json) : Bool :=
  match optProp (some obj) (js "isCompactSummary") with
  | some (.bool b) => b
  | _ => false

def countCompactions (file : Option Bytes) : Except JsError Nat :=
  countLines isCompactSummary (readJsonlTailLines file 1000000)

def countTurns (file : Option Bytes) : Except JsError Nat :=
  countLines isAssistantTyped (readJsonlTailLines file DEFAULT_TAIL_BYTES)

/-! ## Tokens -/

inductive TokenField
  | input
  | output
  | cacheCreation
  | cacheRead
  deriving DecidableEq

def TokenField.all : List TokenField := [.input, .output, .cacheCreation, .cacheRead]

/-- The member of the usage that is summed in the field. -/
def TokenField.key : TokenField → JsString
  | .input => js "input_tokens"
  | .output => js "output_tokens"
  | .cacheCreation => js "cache_creation_input_tokens"
  | .cacheRead => js "cache_read_input_tokens"

structure TokenSummary where
  input : Added
  output : Added
  cacheCreation : Added
  cacheRead : Added
  total : Added
  deriving DecidableEq

abbrev Tokens := TokenField → Added

/-- `field += u.key ?? 0`. -/
def addCount (u : Json) (field : TokenField) : Stmt Tokens JsError Unit := do
  let s ← vars
  let count ← eval (prop u field.key)
  let sum ← eval (plus (s field).value (orElse count (.num (.finite 0))))
  assign fun s => Function.update s field sum

/-- The body of the loop over the lines. -/
def countUsage (line : JsString) : Stmt Tokens JsError Unit := do
  let obj := safeParse line
  if isAssistantTyped obj then
    let message ← eval (prop obj (js "message"))
    match optProp message (js "usage") with
    | some u => if isTruthy u then forOf (addCount u) TokenField.all
    | none => pure ()

def tokenSummary (s : Tokens) : Except JsError TokenSummary := do
  let withOutput ← plus (s .input).value (s .output).value
  let withCreation ← plus withOutput.value (s .cacheCreation).value
  let total ← plus withCreation.value (s .cacheRead).value
  return ⟨s .input, s .output, s .cacheCreation, s .cacheRead, total⟩

def tokens (lines : List JsString) : Except JsError TokenSummary :=
  returning (forOf countUsage lines) (fun _ => .num (.finite 0)) tokenSummary

def sumTokens (file : Option Bytes) : Except JsError TokenSummary :=
  tokens (readJsonlTailLines file DEFAULT_TAIL_BYTES)

/-! ## Where a scan goes through -/

/-- The content of a row can be gone through block by block: it is absent, a text,
or an array without `null`. -/
def isIterable : Option Json → Bool
  | none | some .null | some (.str _) => true
  | some (.arr blocks) => blocks.all fun b => !isNull b
  | _ => false

/-- The usage of a row, where it is looked at. -/
def usageOf (obj : Json) : Option Json := (optProp (optProp (some obj) (js "message")) (js "usage")).filter isTruthy

/-- Every count of the usage is absent or counts as a number. -/
def isSummable : Option Json → Bool
  | some u => TokenField.all.all fun field => isCount (optProp (some u) field.key)
  | none => true

theorem prop_null_ne_ok {key : JsString} {v : Option Json} : prop .null key ≠ .ok v := nofun

/-- A read with `prop` goes through where the value is not `null`. -/
theorem wp_prop {σ : Type} {v : Json} (key : JsString) (Q : Option Json → σ → Prop) (s : σ) :
    wp (eval (prop v key) : Stmt σ JsError (Option Json)) Q s ↔
      isNull v = false ∧ Q (optProp (some v) key) s := by
  rw [wp_eval]
  cases hv : isNull v with
  | false => simp [prop_of_ne_null hv, pure, Except.pure]
  | true =>
    cases v with
    | null => simp [prop_null_ne_ok]
    | _ => cases hv

theorem exists_inputKeys (input : Option Json) : ∃ keys, inputKeys input = .ok keys := by
  cases input with
  | none => exact ⟨[], rfl⟩
  | some v =>
    simp only [inputKeys]
    split
    · rename_i hv
      cases v with
      | null => cases hv
      | _ => exact ⟨_, rfl⟩
    · exact ⟨[], rfl⟩

/-- Nothing in a block throws, unless it is `null`. -/
theorem wp_visitBlock (block : Json) (s : EventScan) :
    wp (visitBlock block) (fun _ _ => True) s ↔ isNull block = false := by
  unfold visitBlock
  rw [wp_bind, wp_prop, and_iff_left_iff_imp]
  intro hnull
  split
  · rw [wp_bind, wp_prop]
    refine ⟨hnull, ?_⟩
    split
    · obtain ⟨keys, hkeys⟩ := exists_inputKeys (optProp (some block) (js "input"))
      rw [wp_bind, wp_prop, wp_bind, wp_eval]
      exact ⟨hnull, keys, hkeys, by simp⟩
    · simp
  · simp

/-- The content of the row of a line. -/
def contentOf (obj : Json) : Option Json := optProp (optProp (some obj) (js "message")) (js "content")

theorem wp_blocks (blocks : List Json) (s : EventScan) :
    wp (forOf visitBlock blocks) (fun _ _ => True) s ↔ ∀ b ∈ blocks, isNull b = false := by
  have hblock : ∀ b ∈ blocks, ∀ s' : EventScan,
      wp (visitBlock b) (fun _ _ => True) s' ↔ True ∧ isNull b = false := by
    intro b _ s'
    rw [wp_visitBlock, true_and]
  rw [wp_forOf hblock, true_and]

/-- The blocks of a content are gone through exactly when it is iterable. -/
theorem wp_content (content : Option Json) (s : EventScan) :
    wp (eval (iterate (orElse content (.arr [])))) (fun blocks => wp (forOf visitBlock blocks) fun _ _ => True) s ↔
      isIterable content = true := by
  have hnone : wp (forOf visitBlock []) (fun _ _ => True) s := (wp_blocks [] s).mpr (by simp)
  rw [wp_eval]
  cases content with
  | none => exact ⟨fun _ => rfl, fun _ => ⟨[], rfl, hnone⟩⟩
  | some v =>
    cases v with
    | null => exact ⟨fun _ => rfl, fun _ => ⟨[], rfl, hnone⟩⟩
    | str text =>
      refine ⟨fun _ => rfl, fun _ => ⟨_, rfl, (wp_blocks _ s).mpr fun b hb => ?_⟩⟩
      obtain ⟨t, -, rfl⟩ := List.mem_map.mp hb
      rfl
    | arr blocks =>
      simp [orElse, iterate, pure, Except.pure, wp_blocks, isIterable]
    | _ =>
      -- neither an array nor a text: the loop does not start
      refine ⟨fun h => ?_, fun h => by cases h⟩
      obtain ⟨blocks, hblocks, -⟩ := h
      cases hblocks

theorem not_isNull_of_isText {v : Json} {key text : JsString}
    (h : isText (optProp (some v) key) text = true) : isNull v = false := by
  cases v with
  | null => cases h
  | _ => rfl

theorem isTruthy_of_isText {v : Json} {key text : JsString}
    (h : isText (optProp (some v) key) text = true) : isTruthy v = true := by
  cases v with
  | obj members => rfl
  | _ => cases h

/-- A line of the assistant is gone through exactly when its content can be. -/
theorem wp_visitLine (line : JsString) (s : EventScan) :
    wp (visitLine line) (fun _ _ => True) s ↔
      (isAssistantTyped (safeParse line) = true → isIterable (contentOf (safeParse line)) = true) := by
  unfold visitLine
  generalize safeParse line = obj
  by_cases htype : isAssistantTyped obj = true
  · have hnull := not_isNull_of_isText htype
    simp only [isTruthy_of_isText htype, if_true, htype, forall_const]
    rw [wp_bind, wp_prop, and_iff_right hnull, ← isAssistantTyped, htype, if_pos rfl, wp_bind, wp_assign,
      wp_bind, wp_prop, and_iff_right hnull, wp_bind, wp_content]
    rfl
  · simp only [htype, Bool.false_eq_true, false_implies, iff_true]
    split
    · rename_i htruthy
      rw [wp_bind, wp_prop]
      rw [and_iff_right (not_isNull_of_isTruthy htruthy), ← isAssistantTyped, if_neg htype]
      simp
    · simp

/-! ### Sums -/

/-- The sums are numbers. -/
def Numeric (s : Tokens) : Prop := ∀ field, (s field).isNumber = true

theorem numeric_update {s : Tokens} {field : TokenField} {sum : Added} :
    Numeric (Function.update s field sum) ↔
      sum.isNumber = true ∧ ∀ f, f ≠ field → (s f).isNumber = true := by
  unfold Numeric
  constructor
  · intro h
    refine ⟨by simpa using h field, fun f hf => ?_⟩
    simpa [Function.update_of_ne hf] using h f
  · rintro ⟨hsum, hrest⟩ f
    by_cases hf : f = field
    · rw [hf, Function.update_self]
      exact hsum
    · rw [Function.update_of_ne hf]
      exact hrest f hf

theorem numeric_iff {s : Tokens} (field : TokenField) :
    Numeric s ↔ (s field).isNumber = true ∧ ∀ f, f ≠ field → (s f).isNumber = true := by
  have h := @numeric_update s field (s field)
  rwa [Function.update_eq_self] at h

theorem wp_addCount {u : Json} (hu : isNull u = false) (field : TokenField) (s : Tokens) :
    wp (addCount u field) (fun _ => Numeric) s ↔
      Numeric s ∧ isCount (optProp (some u) field.key) = true := by
  unfold addCount
  rw [wp_bind, wp_vars, wp_bind, wp_prop, and_iff_right hu, wp_bind, wp_eval]
  simp only [wp_assign, numeric_update, ← and_assoc, exists_and_right]
  rw [plus_isNumber_iff, numeric_iff field]
  exact and_right_comm

/-- The counts of a usage leave the sums numbers exactly when all of them count. -/
theorem wp_addCounts {u : Json} (hu : isNull u = false) (s : Tokens) :
    wp (forOf (addCount u) TokenField.all) (fun _ => Numeric) s ↔
      Numeric s ∧ isSummable (some u) = true := by
  rw [wp_forOf fun field _ s' => wp_addCount hu field s', isSummable, List.all_eq_true]

theorem wp_countUsage (line : JsString) (s : Tokens) :
    wp (countUsage line) (fun _ => Numeric) s ↔ Numeric s ∧
      (isAssistantTyped (safeParse line) = true → isSummable (usageOf (safeParse line)) = true) := by
  unfold countUsage
  generalize safeParse line = obj
  by_cases htype : isAssistantTyped obj = true
  · simp only [htype, if_true, forall_const]
    rw [wp_bind, wp_prop, and_iff_right (not_isNull_of_isText htype), usageOf]
    cases optProp (optProp (some obj) (js "message")) (js "usage") with
    | none => simp [isSummable]
    | some u =>
      simp only [Option.filter_some]
      split
      · rename_i htruthy
        exact wp_addCounts (not_isNull_of_isTruthy htruthy) s
      · simp [isSummable]
  · simp [htype]

/-- The declared type of a summary: numbers. -/
def TokenSummary.Numeric (v : TokenSummary) : Prop :=
  v.input.isNumber = true ∧ v.output.isNumber = true ∧ v.cacheCreation.isNumber = true ∧
    v.cacheRead.isNumber = true ∧ v.total.isNumber = true

theorem tokenSummary_numeric (s : Tokens) :
    (∃ v, tokenSummary s = .ok v ∧ v.Numeric) ↔ Numeric s := by
  obtain ⟨a, ha, hna⟩ := plus_added (s .input) (s .output)
  obtain ⟨b, hb, hnb⟩ := plus_added a (s .cacheCreation)
  obtain ⟨c, hc, hnc⟩ := plus_added b (s .cacheRead)
  have hsum : tokenSummary s = .ok ⟨s .input, s .output, s .cacheCreation, s .cacheRead, c⟩ := by
    simp [tokenSummary, ha, hb, hc, bind, Except.bind, pure, Except.pure]
  rw [hsum]
  constructor
  · rintro ⟨v, hv, hi, ho, hcreation, hread, -⟩ field
    cases hv
    cases field with
    | input => exact hi
    | output => exact ho
    | cacheCreation => exact hcreation
    | cacheRead => exact hread
  · intro h
    refine ⟨_, rfl, h .input, h .output, h .cacheCreation, h .cacheRead, ?_⟩
    rw [hnc, hnb, hna, h, h, h, h]
    rfl

/-- The sums are numbers exactly when every count that is looked at is one. -/
theorem tokens_numeric (lines : List JsString) : (∃ v, tokens lines = .ok v ∧ v.Numeric) ↔
    ∀ line ∈ lines, isAssistantTyped (safeParse line) = true →
      isSummable (usageOf (safeParse line)) = true := by
  have hstart : Numeric fun _ => .num (.finite 0) := fun _ => rfl
  unfold tokens
  rw [returning_iff]
  simp only [tokenSummary_numeric]
  rw [wp_forOf fun line _ s => wp_countUsage line s, and_iff_right hstart]

/-- The tool uses are returned exactly when every content can be gone through. -/
theorem toolUseEvents_ok (lastNTurns : JsNumber) (lines : List JsString) :
    (∃ v, toolUseEvents lastNTurns lines = .ok v) ↔
      ∀ line ∈ lines, isAssistantTyped (safeParse line) = true →
        isIterable (contentOf (safeParse line)) = true := by
  have hline : ∀ line ∈ lines, ∀ s : EventScan, wp (visitLine line) (fun _ _ => True) s ↔ True ∧
      (isAssistantTyped (safeParse line) = true → isIterable (contentOf (safeParse line)) = true) := by
    intro line _ s
    rw [wp_visitLine, true_and]
  have hresult : ∀ s : EventScan, ∃ v, (if s.turnIndex + 1 ≤ 0 then pure []
      else pure (s.allEvents.filter fun e => isRecent e.turnIndex (s.turnIndex + 1) lastNTurns) :
        Except JsError (List ToolUseRecord)) = .ok v := by
    intro s
    split <;> exact ⟨_, rfl⟩
  unfold toolUseEvents
  cases lines with
  | nil => simp [pure, Except.pure]
  | cons line lines =>
    rw [List.isEmpty_cons, if_neg Bool.false_ne_true]
    have hreturn := @returning_iff _ _ _ ⟨-1, []⟩ (forOf visitLine (line :: lines))
      (fun s => if s.turnIndex + 1 ≤ 0 then pure []
        else pure (s.allEvents.filter fun e => isRecent e.turnIndex (s.turnIndex + 1) lastNTurns))
      (fun _ => True)
    simp only [and_true, hresult] at hreturn
    rw [hreturn, wp_forOf hline, true_and]

end Conductor.Jsonl.Usage
