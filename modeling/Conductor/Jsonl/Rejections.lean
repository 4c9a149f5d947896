import Conductor.Jsonl.Usage
import Conductor.Sessions.Transcript

/-! # Scans that settle

Three of the scans put the whole body of their loop into a `try`, and settle on
every file. The others guard the parsing of a line: what they then read of a row
of the assistant has to be there in its declared shape. -/
namespace Conductor.Jsonl.Rejections
open Conductor.Js.Text Conductor.Js.Number Conductor.Js.Values Conductor.Js.JsonText Conductor.Js.Utf8
open Conductor.Js.Operators Conductor.Lib.Statements Conductor.Jsonl.Parser Conductor.Jsonl.Usage
open Conductor.Sessions.Transcript

/-! ## The scans with a `try` around each row -/

/-- The body of the loop of `extractLastAssistantTurn`. -/
def assistantRow (line : JsString) : Except JsError (Option AssistantTurn) := do
  let obj ← parseOrThrow line
  let type ← prop obj (js "type")
  if isText type (js "assistant") then
    let message ← prop obj (js "message")
    if isText (optProp message (js "role")) (js "assistant") then
      let stop_reason ← member message (js "stop_reason")
      let content ← member message (js "content")
      let timestamp ← prop obj (js "timestamp")
      let uuid ← prop obj (js "uuid")
      return some { stop_reason := orElse stop_reason .null
                    content := orElse content (.arr [])
                    timestamp := orElse timestamp (.str [])
                    uuid := orElse uuid (.str []) }
    else return none
  else return none

def firstTurn : List JsString → Except JsError (Option AssistantTurn)
  | [] => pure none
  | line :: rest => do
    match ← tryCatch (assistantRow line) fun _ => pure none with
    | some turn => return some turn
    | none => firstTurn rest

def lastAssistantTurn (lines : List JsString) : Except JsError (Option AssistantTurn) :=
  firstTurn lines.reverse

/-- The variables of `extractPendingToolUses`. -/
structure PendingScan where
  toolUses : List ToolUse
  matchedIds : List JsString

/-- The blocks of a row of the given type, if its content is an array. -/
def overBlocks (type : JsString) (body : Json → Stmt PendingScan JsError Unit) (obj : Json) :
    Stmt PendingScan JsError Unit := do
  let t ← eval (prop obj (js "type"))
  if isText t type then
    let message ← eval (prop obj (js "message"))
    match optProp message (js "content") with
    | some (.arr blocks) => forOf body blocks
    | _ => pure ()

def collectUse (block : Json) : Stmt PendingScan JsError Unit := do
  if isText (optProp (some block) (js "type")) (js "tool_use") then
    match ← eval (prop block (js "id")) with
    | some (.str id) =>
      let name ← eval (prop block (js "name"))
      let input ← eval (prop block (js "input"))
      let text := match name with
        | some (.str name) => name
        | _ => []
      assign fun s => { s with toolUses := setToolUse s.toolUses ⟨id, text, orElse input .null⟩ }
    | _ => pure ()

def collectResult (block : Json) : Stmt PendingScan JsError Unit := do
  if isText (optProp (some block) (js "type")) (js "tool_result") then
    match ← eval (prop block (js "tool_use_id")) with
    | some (.str id) => assign fun s => { s with matchedIds := s.matchedIds ++ [id] }
    | _ => pure ()

def collectRow (line : JsString) : Stmt PendingScan JsError Unit := do
  let obj ← eval (parseOrThrow line)
  overBlocks (js "assistant") collectUse obj
  overBlocks (js "user") collectResult obj

def pendingToolUses (lines : List JsString) : Except JsError (List ToolUse) :=
  returning (forOf (fun line => tried (collectRow line)) lines) ⟨[], []⟩ fun s =>
    pure (s.toolUses.filter fun tu => !s.matchedIds.contains tu.id)

/-- The body of the loop of `buildTranscript`. -/
def transcriptRow (line : JsString) : Stmt (List TranscriptTurn) JsError Unit := do
  let obj ← eval (parseOrThrow line)
  let type ← eval (prop obj (js "type"))
  if (roleOf type).isSome then
    let message ← eval (prop obj (js "message"))
    match roleOf (optProp message (js "role")) with
    | some role =>
      let timestamp ← eval (prop obj (js "timestamp"))
      let uuid ← eval (prop obj (js "uuid"))
      assign fun turns => turns ++ [
        { role
          content := blocksOf (optProp message (js "content"))
          stop_reason := orElse (optProp message (js "stop_reason")) .null
          timestamp := orElse timestamp (.str [])
          uuid := orElse uuid (.str []) }]
    | none => pure ()

def transcript (pid : Int) (limit : JsNumber) (lines : List JsString) :
    Except JsError TranscriptResponse :=
  returning (forOf (fun line => tried (transcriptRow line)) lines) [] fun turns =>
    pure ⟨pid, lastTurns turns limit⟩

/-! ## They settle with what the rows say -/

theorem exec_prop {σ : Type} {v : Json} (h : isNull v = false) (key : JsString) (s : σ) :
    exec (eval (prop v key) : Stmt σ JsError (Option Json)) s = (.ok (optProp (some v) key), s) := by
  rw [exec_eval, prop_of_ne_null h]
  rfl

theorem parseOrThrow_of_none {line : JsString} (h : parse line = none) :
    parseOrThrow line = .error (.error (js "SyntaxError")) := by
  rw [parseOrThrow, h]
  rfl

theorem parseOrThrow_of_some {line : JsString} {obj : Json} (h : parse line = some obj) :
    parseOrThrow line = .ok obj := by
  rw [parseOrThrow, h]
  rfl

theorem member_of_isText {message : Option Json} {key text : JsString}
    (h : isText (optProp message key) text = true) (key' : JsString) :
    member message key' = .ok (optProp message key') := by
  cases message with
  | none => cases h
  | some m => exact prop_of_ne_null (not_isNull_of_isText h) key'

theorem assistantRow_eq (line : JsString) :
    tryCatch (assistantRow line) (fun _ => pure none) = .ok (assistantTurn line) := by
  cases hobj : parse line with
  | none =>
    unfold assistantRow assistantTurn
    rw [parseOrThrow_of_none hobj, hobj]
    rfl
  | some obj =>
    rw [assistantTurn_eq hobj]
    unfold assistantRow
    rw [parseOrThrow_of_some hobj]
    cases hnull : isNull obj with
    | true =>
      cases obj with
      | null => rfl
      | _ => cases hnull
    | false =>
      simp only [prop_of_ne_null hnull, bind, Except.bind, pure, Except.pure]
      split
      · rename_i htype
        split
        · rename_i hrole
          have hrow : isAssistantRow obj = true := Bool.and_eq_true_iff.mpr ⟨htype, hrole⟩
          rw [if_pos hrow, member_of_isText hrole, member_of_isText hrole]
          rfl
        · rename_i hrole
          have hrow : ¬ isAssistantRow obj = true := fun h => hrole (Bool.and_eq_true_iff.mp h).2
          rw [if_neg hrow]
          rfl
      · rename_i htype
        have hrow : ¬ isAssistantRow obj = true := fun h => htype (Bool.and_eq_true_iff.mp h).1
        rw [if_neg hrow]
        rfl

theorem lastAssistantTurn_eq (lines : List JsString) :
    lastAssistantTurn lines = .ok (lines.reverse.findSome? assistantTurn) := by
  unfold lastAssistantTurn
  generalize lines.reverse = ls
  induction ls with
  | nil => rfl
  | cons line ls ih =>
    rw [firstTurn, assistantRow_eq, List.findSome?_cons]
    simp only [bind, Except.bind]
    cases assistantTurn line with
    | some turn => rfl
    | none => exact ih

/-- What a block of an assistant row adds. -/
theorem exec_collectUse (block : Json) (s : PendingScan) : exec (collectUse block) s =
    (.ok (), { s with toolUses := (toolUseOf block).toList.foldl setToolUse s.toolUses }) := by
  unfold collectUse toolUseOf
  split
  · rename_i htype
    rw [htype, exec_bind_ok (exec_prop (not_isNull_of_isText htype) _ s)]
    split
    · rename_i id hid
      rw [exec_bind_ok (exec_prop (not_isNull_of_isText htype) _ s),
        exec_bind_ok (exec_prop (not_isNull_of_isText htype) _ s), exec_assign, hid]
      rfl
    · rename_i hid
      split
      · rename_i id _ hid'
        exact absurd hid' (hid id)
      · rfl
  · rename_i htype
    rw [Bool.not_eq_true] at htype
    rw [htype]
    rfl

/-- What a block of a user row adds. -/
theorem exec_collectResult (block : Json) (s : PendingScan) : exec (collectResult block) s =
    (.ok (), { s with matchedIds := s.matchedIds ++ (toolResultOf block).toList }) := by
  unfold collectResult toolResultOf
  split
  · rename_i htype
    rw [htype, exec_bind_ok (exec_prop (not_isNull_of_isText htype) _ s)]
    split
    · rename_i id hid
      rw [exec_assign, hid]
      rfl
    · rename_i hid
      split
      · rename_i id _ hid'
        exact absurd hid' (hid id)
      · simp
  · rename_i htype
    rw [Bool.not_eq_true] at htype
    rw [htype]
    simp

theorem exec_overBlocks {type : JsString} {body : Json → Stmt PendingScan JsError Unit}
    {step : PendingScan → Json → PendingScan}
    (hbody : ∀ block s, exec (body block) s = (.ok (), step s block)) {line : JsString} {obj : Json}
    (hobj : parse line = some obj) (hnull : isNull obj = false) (s : PendingScan) :
    exec (overBlocks type body obj) s = (.ok (), (rowBlocks type line).foldl step s) := by
  unfold overBlocks rowBlocks
  rw [exec_bind_ok (exec_prop hnull _ s), hobj]
  split
  · rename_i htype
    rw [exec_bind_ok (exec_prop hnull _ s)]
    simp only [htype]
    cases optProp (optProp (some obj) (js "message")) (js "content") with
    | none => rfl
    | some content =>
      cases content with
      | arr blocks => exact exec_forOf (fun block _ s' => hbody block s') s
      | _ => rfl
  · rename_i htype
    simp only [htype]
    rfl

/-- What a row adds: the tool uses and the answered ids of its blocks. -/
def addRow (s : PendingScan) (line : JsString) : PendingScan :=
  ⟨(toolUsesOf line).foldl setToolUse s.toolUses, s.matchedIds ++ toolResultsOf line⟩

theorem foldl_uses (blocks : List Json) (s : PendingScan) :
    blocks.foldl (fun s b => { s with toolUses := (toolUseOf b).toList.foldl setToolUse s.toolUses }) s =
      { s with toolUses := (blocks.filterMap toolUseOf).foldl setToolUse s.toolUses } := by
  induction blocks generalizing s with
  | nil => rfl
  | cons b blocks ih =>
    rw [List.foldl_cons, ih, List.filterMap_cons]
    cases toolUseOf b <;> rfl

theorem foldl_results (blocks : List Json) (s : PendingScan) :
    blocks.foldl (fun s b => { s with matchedIds := s.matchedIds ++ (toolResultOf b).toList }) s =
      { s with matchedIds := s.matchedIds ++ blocks.filterMap toolResultOf } := by
  induction blocks generalizing s with
  | nil => simp
  | cons b blocks ih =>
    rw [List.foldl_cons, ih, List.filterMap_cons]
    cases toolResultOf b <;> simp

theorem rowBlocks_of_null {line : JsString} (h : parse line = some .null) (type : JsString) :
    rowBlocks type line = [] := by
  unfold rowBlocks
  rw [h]
  rfl

theorem rowBlocks_of_none {line : JsString} (h : parse line = none) (type : JsString) :
    rowBlocks type line = [] := by
  unfold rowBlocks
  rw [h]

/-- A row that throws has no blocks, and has assigned nothing. -/
theorem exec_collectRow (line : JsString) (s : PendingScan) :
    exec (tried (collectRow line)) s = (.ok (), addRow s line) := by
  rw [exec_tried, addRow, toolUsesOf, toolResultsOf, Prod.mk.injEq]
  refine ⟨rfl, ?_⟩
  unfold collectRow
  cases hobj : parse line with
  | none =>
    rw [exec_bind, exec_eval, parseOrThrow_of_none hobj, rowBlocks_of_none hobj, rowBlocks_of_none hobj]
    simp
  | some obj =>
    rw [exec_bind, exec_eval, parseOrThrow_of_some hobj]
    simp only
    cases hnull : isNull obj with
    | true =>
      cases obj with
      | null =>
        rw [rowBlocks_of_null hobj, rowBlocks_of_null hobj]
        simp [overBlocks, exec_bind, prop, throw, throwThe, MonadExceptOf.throw]
      | _ => cases hnull
    | false =>
      rw [exec_bind_ok (exec_overBlocks exec_collectUse hobj hnull s),
        exec_overBlocks exec_collectResult hobj hnull, foldl_uses, foldl_results]

theorem foldl_addRow (lines : List JsString) (s : PendingScan) :
    lines.foldl addRow s = ⟨(lines.flatMap toolUsesOf).foldl setToolUse s.toolUses,
      s.matchedIds ++ lines.flatMap toolResultsOf⟩ := by
  induction lines generalizing s with
  | nil => simp
  | cons line lines ih => simp [ih, addRow]

theorem exec_transcriptRow (line : JsString) (turns : List TranscriptTurn) :
    exec (tried (transcriptRow line)) turns = (.ok (), turns ++ (transcriptTurn line).toList) := by
  rw [exec_tried, Prod.mk.injEq]
  refine ⟨rfl, ?_⟩
  unfold transcriptRow transcriptTurn
  cases hobj : parse line with
  | none =>
    rw [exec_bind, exec_eval, parseOrThrow_of_none hobj]
    simp
  | some obj =>
    rw [exec_bind, exec_eval, parseOrThrow_of_some hobj]
    simp only [Option.bind_eq_bind, Option.bind_some]
    cases hnull : isNull obj with
    | true =>
      cases obj with
      | null => simp [exec_bind, prop, throw, throwThe, MonadExceptOf.throw, Except.toOption]
      | _ => cases hnull
    | false =>
      have htype : (prop obj (js "type")).toOption = some (optProp (some obj) (js "type")) := by
        rw [prop_of_ne_null hnull]
        rfl
      rw [exec_bind_ok (exec_prop hnull _ turns), htype, Option.bind_some]
      cases roleOf (optProp (some obj) (js "type")) with
      | none => simp
      | some type =>
        rw [Option.isSome_some, if_pos rfl, exec_bind_ok (exec_prop hnull _ turns)]
        cases roleOf (optProp (optProp (some obj) (js "message")) (js "role")) with
        | none => simp
        | some role =>
          rw [exec_bind_ok (exec_prop hnull _ turns), exec_bind_ok (exec_prop hnull _ turns)]
          rfl

theorem transcript_eq (pid : Int) (limit : JsNumber) (lines : List JsString) :
    transcript pid limit lines = .ok ⟨pid, lastTurns (lines.filterMap transcriptTurn) limit⟩ := by
  unfold transcript returning
  rw [exec_forOf (fun line _ turns => exec_transcriptRow line turns), List.foldl_append_eq_append,
    ← List.flatMap_def, ← List.filterMap_eq_flatMap_toList]
  rfl

/-! ## Rows of the declared shape -/

/-- A member is absent, `null`, or of the type that it is declared with. -/
def declared (type : Json → Bool) (obj : Json) (key : JsString) : Bool :=
  match optProp (some obj) key with
  | none | some .null => true
  | some v => type v

def isBlock (block : Json) : Bool :=
  isObject block && declared isString block (js "type") && declared isString block (js "text") &&
    declared isString block (js "name") && declared isString block (js "id") &&
    declared isString block (js "tool_use_id") && declared isObject block (js "input")

/-- The content of a user may be a text. -/
def isContent : Json → Bool
  | .str _ => true
  | .arr blocks => blocks.all isBlock
  | _ => false

def isUsage (u : Json) : Bool := isObject u && TokenField.all.all fun field => declared isNumber u field.key

def isMessage (message : Json) : Bool :=
  isObject message && declared isString message (js "role") && declared isContent message (js "content") &&
    declared isString message (js "stop_reason") && declared isUsage message (js "usage")

/-- The line is a JSON object whose members are what the scans declare them to be.
Every other line is a malformed row. -/
def isWellFormed (line : JsString) : Bool :=
  let obj := safeParse line
  isObject obj && declared isString obj (js "type") && declared isMessage obj (js "message") &&
    declared isString obj (js "timestamp") && declared isString obj (js "uuid") &&
    declared isBoolean obj (js "isCompactSummary")

theorem declared_iff {type : Json → Bool} {obj : Json} {key : JsString} : declared type obj key = true ↔
    ∀ v, optProp (some obj) key = some v → isNull v = true ∨ type v = true := by
  unfold declared
  split
  · rename_i hnone
    simp [hnone]
  · rename_i hnull
    simp [hnull, isNull]
  · rename_i v hne hv
    have hnull : isNull v = false := by
      cases v with
      | null => exact absurd rfl hne
      | _ => rfl
    simp [hv, hnull]

theorem message_of_isWellFormed {line : JsString} (h : isWellFormed line = true) {message : Json}
    (hm : optProp (some (safeParse line)) (js "message") = some message) :
    isNull message = true ∨ isMessage message = true := by
  simp only [isWellFormed, Bool.and_eq_true] at h
  exact declared_iff.mp h.1.1.1.2 message hm

/-- What a member of the message of a well-formed row is. -/
theorem member_of_isWellFormed {line : JsString} (h : isWellFormed line = true) {key : JsString}
    (type : Json → Bool) (hkey : ∀ message, isMessage message = true → declared type message key = true)
    {v : Json} (hv : optProp (optProp (some (safeParse line)) (js "message")) key = some v) :
    isNull v = true ∨ type v = true := by
  cases hm : optProp (some (safeParse line)) (js "message") with
  | none => rw [hm] at hv; cases hv
  | some message =>
    rw [hm] at hv
    rcases message_of_isWellFormed h hm with hnull | hmessage
    · cases message with
      | null => cases hv
      | _ => cases hnull
    · exact declared_iff.mp (hkey message hmessage) v hv

theorem isIterable_of_isWellFormed {line : JsString} (h : isWellFormed line = true) :
    isIterable (contentOf (safeParse line)) = true := by
  cases hc : contentOf (safeParse line) with
  | none => rfl
  | some content =>
    have hcontent := member_of_isWellFormed h isContent (fun message hm => by
      simp only [isMessage, Bool.and_eq_true] at hm
      exact hm.1.1.2) hc
    cases content with
    | null | str text => rfl
    | arr blocks =>
      have hblocks : blocks.all isBlock = true := by simpa [isNull, isContent] using hcontent
      refine List.all_eq_true.mpr fun b hb => ?_
      have hblock := List.all_eq_true.mp hblocks b hb
      cases b with
      | null => cases hblock
      | _ => rfl
    | _ => simp [isNull, isContent] at hcontent

theorem isSummable_of_isWellFormed {line : JsString} (h : isWellFormed line = true) :
    isSummable (usageOf (safeParse line)) = true := by
  cases hu : usageOf (safeParse line) with
  | none => rfl
  | some u =>
    obtain ⟨hu, htruthy⟩ := Option.filter_eq_some_iff.mp hu
    have husage := member_of_isWellFormed h isUsage (fun message hm => by
      simp only [isMessage, Bool.and_eq_true] at hm
      exact hm.2) hu
    rw [not_isNull_of_isTruthy htruthy] at husage
    have hfields : TokenField.all.all (fun field => declared isNumber u field.key) = true :=
      (Bool.and_eq_true_iff.mp (husage.resolve_left Bool.false_ne_true)).2
    refine List.all_eq_true.mpr fun field hfield => ?_
    have hcount := declared_iff.mp (List.all_eq_true.mp hfields field hfield)
    cases hv : optProp (some u) field.key with
    | none => rfl
    | some v =>
      have hnumber := hcount v hv
      cases v with
      | null | num n => rfl
      | _ => simp [isNull, isNumber] at hnumber

/-! ## Scans that settle -/

/-- The lines that the scans go through, all but one of them. -/
def tail (file : Option Bytes) : List JsString := readJsonlTailLines file DEFAULT_TAIL_BYTES

/-- The lines that `countCompactions` goes through. -/
def longTail (file : Option Bytes) : List JsString := readJsonlTailLines file 1000000

/-- The scan of the lines settles with the value, and it is the value of the
well-formed rows alone. -/
def Settles {α : Type} (scan : List JsString → Except JsError α) (lines : List JsString) (v : α) : Prop :=
  scan lines = .ok v ∧ scan (lines.filter isWellFormed) = .ok v

/-- Every scan of the file settles, malformed rows contribute nothing to its value,
and the sums are numbers. -/
structure ScansSettle (file : Option Bytes) : Prop where
  lastAssistantTurn : Settles lastAssistantTurn (tail file) (extractLastAssistantTurn file)
  pendingToolUses : Settles pendingToolUses (tail file) (extractPendingToolUses file)
  toolUseEvents : ∀ lastNTurns, ∃ v, extractToolUseEvents file lastNTurns = .ok v ∧
    Settles (toolUseEvents lastNTurns) (tail file) v
  tokens : ∃ v, sumTokens file = .ok v ∧ v.Numeric ∧ Settles tokens (tail file) v
  turns : ∃ n, countTurns file = .ok n ∧ Settles (countLines isAssistantTyped) (tail file) n
  compactions : ∃ n, countCompactions file = .ok n ∧ Settles (countLines isCompactSummary) (longTail file) n
  transcript : ∀ pid limit, Settles (transcript pid limit) (tail file) (buildTranscript file pid limit)

/-- A malformed row has none of the marks that the scans look for: it is no row of the
assistant, no turn and no summary of a compaction, and answers no tool use that a
well-formed row does not answer. -/
structure MalformedUnmarked (file : Option Bytes) : Prop where
  assistant : ∀ line ∈ tail file, isAssistantTyped (safeParse line) = true → isWellFormed line = true
  turns : ∀ line ∈ tail file, (transcriptTurn line).isSome = true → isWellFormed line = true
  answers : ∀ line ∈ tail file, ∀ u ∈ toolUsesOf line, (∃ row ∈ tail file, u.id ∈ toolResultsOf row) →
    ∃ row ∈ tail file, isWellFormed row = true ∧ u.id ∈ toolResultsOf row
  compactions : ∀ line ∈ longTail file, isCompactSummary (safeParse line) = true → isWellFormed line = true

/-! ### What the scans make of the well-formed rows -/

theorem findSome?_filter {α β : Type} {p : α → Bool} {f : α → Option β} {l : List α}
    (h : ∀ a ∈ l, (f a).isSome = true → p a = true) : (l.filter p).findSome? f = l.findSome? f := by
  induction l with
  | nil => rfl
  | cons a l ih =>
    have hl := ih fun b hb => h b (List.mem_cons_of_mem a hb)
    cases hp : p a with
    | false =>
      have hnone : f a = none := by
        simpa [hp] using h a List.mem_cons_self
      rw [List.filter_cons_of_neg (by simp [hp]), hl, List.findSome?_cons, hnone]
    | true => rw [List.filter_cons_of_pos hp, List.findSome?_cons, List.findSome?_cons, hl]

theorem filterMap_filter {α β : Type} {p : α → Bool} {f : α → Option β} {l : List α}
    (h : ∀ a ∈ l, (f a).isSome = true → p a = true) : (l.filter p).filterMap f = l.filterMap f := by
  rw [List.filterMap_filter]
  refine List.filterMap_congr fun a ha => ?_
  cases hp : p a with
  | false =>
    have hnone : f a = none := by
      simpa [hp] using h a ha
    simp [hnone]
  | true => simp

/-- Nothing that is counted is left out exactly when the count stays. -/
theorem countP_filter_eq_iff {α : Type} {p q : α → Bool} {l : List α} :
    (l.filter p).countP q = l.countP q ↔ ∀ a ∈ l, q a = true → p a = true := by
  have hsplit := List.countP_eq_countP_filter_add l q p
  have hrest : (l.filter fun a => !p a).countP q = 0 ↔ ∀ a ∈ l, q a = true → p a = true := by
    rw [List.countP_eq_zero]
    simp only [List.mem_filter, and_imp, Bool.not_eq_true', Bool.not_eq_true]
    refine forall₂_congr fun a _ => ?_
    cases p a <;> cases q a <;> simp
  rw [← hrest]
  omega

theorem isAssistantTyped_of_assistantTurn {line : JsString} (h : (assistantTurn line).isSome = true) :
    isAssistantTyped (safeParse line) = true := by
  cases hobj : parse line with
  | none => rw [assistantTurn, hobj] at h; cases h
  | some obj =>
    rw [assistantTurn_eq hobj] at h
    split at h
    · rename_i hrow
      rw [safeParse, hobj]
      exact (Bool.and_eq_true_iff.mp hrow).1
    · cases h

theorem toolUsesOf_of_not_assistant {line : JsString} (h : isAssistantTyped (safeParse line) = false) :
    toolUsesOf line = [] := by
  unfold isAssistantTyped safeParse at h
  unfold toolUsesOf rowBlocks
  cases hobj : parse line with
  | none => rfl
  | some obj =>
    rw [hobj, Option.getD_some] at h
    simp only [h]
    rfl

theorem visitLine_of_not_assistant {line : JsString} (h : isAssistantTyped (safeParse line) = false)
    (s : EventScan) : exec (visitLine line) s = (.ok (), s) := by
  unfold visitLine
  generalize safeParse line = obj at h
  simp only
  split
  · rename_i htruthy
    rw [exec_bind_ok (exec_prop (not_isNull_of_isTruthy htruthy) _ s), ← isAssistantTyped, h]
    rfl
  · rfl

theorem countUsage_of_not_assistant {line : JsString} (h : isAssistantTyped (safeParse line) = false)
    (s : Tokens) : exec (countUsage line) s = (.ok (), s) := by
  unfold countUsage
  simp only [h]
  rfl

/-- Lines that are none of the assistant can be left out. -/
theorem toolUseEvents_filter (lastNTurns : JsNumber) {lines : List JsString} {p : JsString → Bool}
    (h : ∀ line ∈ lines, p line = false → isAssistantTyped (safeParse line) = false) :
    toolUseEvents lastNTurns (lines.filter p) = toolUseEvents lastNTurns lines := by
  have hloop := @exec_forOf_filter EventScan JsError JsString visitLine p lines
    (fun line hline hp s => visitLine_of_not_assistant (h line hline hp) s) ⟨-1, []⟩
  cases lines with
  | nil => rfl
  | cons line rest =>
    unfold toolUseEvents
    rw [List.isEmpty_cons, if_neg Bool.false_ne_true, ← returning_congr hloop]
    -- without rows the scan returns nothing, as it does without lines
    cases (line :: rest).filter p with
    | nil => rfl
    | cons row rows => rfl

theorem tokens_filter {lines : List JsString} {p : JsString → Bool}
    (h : ∀ line ∈ lines, p line = false → isAssistantTyped (safeParse line) = false) :
    tokens (lines.filter p) = tokens lines :=
  returning_congr (exec_forOf_filter (fun line hline hp s =>
    countUsage_of_not_assistant (h line hline hp) s) _) _

theorem countLines_eq (test : Json → Bool) (lines : List JsString) :
    countLines test lines = .ok (lines.countP fun line => test (safeParse line)) := by
  have hstep : ∀ line n, exec (if test (safeParse line) then assign (· + 1) else pure () :
      Stmt Nat JsError Unit) n = (.ok (), if test (safeParse line) then n + 1 else n) := by
    intro line n
    split <;> rfl
  have hfold : ∀ (lines : List JsString) (n : Nat),
      lines.foldl (fun n line => if test (safeParse line) then n + 1 else n) n =
        n + lines.countP fun line => test (safeParse line) := by
    intro lines
    induction lines with
    | nil => exact fun n => rfl
    | cons line lines ih =>
      intro n
      rw [List.foldl_cons, ih, List.countP_cons]
      split <;> omega
  unfold countLines returning
  rw [exec_forOf fun line _ n => hstep line n, hfold, Nat.zero_add]
  rfl

/-- The count settles; malformed rows contribute nothing exactly when none is counted. -/
theorem settles_countLines_iff {test : Json → Bool} {lines : List JsString} :
    (∃ n, countLines test lines = .ok n ∧ Settles (countLines test) lines n) ↔
      ∀ line ∈ lines, test (safeParse line) = true → isWellFormed line = true := by
  unfold Settles
  simp only [countLines_eq, Except.ok.injEq, exists_eq_left', true_and]
  exact countP_filter_eq_iff

/-- The tool uses that some lines leave pending. -/
def pendingOf (lines : List JsString) : List ToolUse :=
  ((lines.flatMap toolUsesOf).foldl setToolUse []).filter fun tu =>
    !(lines.flatMap toolResultsOf).contains tu.id

theorem pendingToolUses_eq (lines : List JsString) : pendingToolUses lines = .ok (pendingOf lines) := by
  unfold pendingToolUses returning
  rw [exec_forOf (fun line _ s => exec_collectRow line s), foldl_addRow]
  rfl

theorem flatMap_filter {α β : Type} {p : α → Bool} {f : α → List β} {l : List α}
    (h : ∀ a ∈ l, p a = false → f a = []) : (l.filter p).flatMap f = l.flatMap f := by
  induction l with
  | nil => rfl
  | cons a l ih =>
    have hl := ih fun b hb => h b (List.mem_cons_of_mem a hb)
    cases hp : p a with
    | false => rw [List.filter_cons_of_neg (by simp [hp]), hl, List.flatMap_cons, h a List.mem_cons_self hp,
        List.nil_append]
    | true => rw [List.filter_cons_of_pos hp, List.flatMap_cons, List.flatMap_cons, hl]

theorem filter_eq_filter_iff {α : Type} {p q : α → Bool} {l : List α} :
    l.filter p = l.filter q ↔ ∀ a ∈ l, p a = q a := by
  refine ⟨fun h a ha => ?_, List.filter_congr⟩
  have hmem : a ∈ l.filter p ↔ a ∈ l.filter q := by rw [h]
  simp only [List.mem_filter, ha, true_and] at hmem
  exact Bool.eq_iff_iff.mpr hmem

/-- Where no malformed row is one of the assistant, the others leave the same tool uses
pending exactly when they answer the same of them. -/
theorem pendingOf_filter_iff {lines : List JsString}
    (h : ∀ line ∈ lines, isAssistantTyped (safeParse line) = true → isWellFormed line = true) :
    pendingOf (lines.filter isWellFormed) = pendingOf lines ↔
      ∀ line ∈ lines, ∀ u ∈ toolUsesOf line, (∃ row ∈ lines, u.id ∈ toolResultsOf row) →
        ∃ row ∈ lines, isWellFormed row = true ∧ u.id ∈ toolResultsOf row := by
  have huses : (lines.filter isWellFormed).flatMap toolUsesOf = lines.flatMap toolUsesOf := by
    refine flatMap_filter fun line hline hmalformed => toolUsesOf_of_not_assistant ?_
    rw [← Bool.not_eq_true]
    exact fun htype => by rw [h line hline htype] at hmalformed; cases hmalformed
  have hanswered : ∀ id, ((!((lines.filter isWellFormed).flatMap toolResultsOf).contains id) =
        !(lines.flatMap toolResultsOf).contains id) ↔
      ((∃ row ∈ lines, id ∈ toolResultsOf row) →
        ∃ row ∈ lines, isWellFormed row = true ∧ id ∈ toolResultsOf row) := by
    intro id
    rw [Bool.not_inj_iff, Bool.eq_iff_iff]
    simp only [List.contains_iff_mem, List.mem_flatMap, List.mem_filter, and_assoc]
    exact ⟨fun hiff => hiff.mpr, fun himp => ⟨fun ⟨row, hrow, _, hid⟩ => ⟨row, hrow, hid⟩, himp⟩⟩
  unfold pendingOf
  rw [huses, filter_eq_filter_iff]
  simp only [hanswered]
  -- every tool use of the rows is found under its id among those collected
  constructor
  · intro hall line hline u hu
    obtain ⟨t, ht, hid⟩ := (@foldl_setToolUse_ids (lines.flatMap toolUsesOf) [] u.id).mpr
      (.inr ⟨u, List.mem_flatMap.mpr ⟨line, hline, hu⟩, rfl⟩)
    exact hid ▸ hall t ht
  · intro hall t ht
    rcases foldl_setToolUse_ids.mp ⟨t, ht, rfl⟩ with ⟨_, hn, _⟩ | ⟨u, hu, hid⟩
    · cases hn
    · obtain ⟨line, hline, hu⟩ := List.mem_flatMap.mp hu
      exact hid ▸ hall line hline u hu

/-- The transcripts of a file settle; malformed rows contribute nothing exactly when
none is a turn. -/
theorem settles_transcript_iff {file : Option Bytes} :
    (∀ pid limit, Settles (transcript pid limit) (tail file) (buildTranscript file pid limit)) ↔
      ∀ line ∈ tail file, (transcriptTurn line).isSome = true → isWellFormed line = true := by
  have hvalue : ∀ pid limit, transcript pid limit (tail file) = .ok (buildTranscript file pid limit) :=
    fun pid limit => transcript_eq pid limit (tail file)
  constructor
  · intro h
    -- without a limit every turn is in the response
    have hall := (h 0 .nan).2
    rw [transcript_eq] at hall
    have hturns : lastTurns (((tail file).filter isWellFormed).filterMap transcriptTurn) .nan =
        lastTurns (tailTurns file) .nan := congrArg TranscriptResponse.turns (Except.ok.inj hall)
    have hlength := congrArg List.length hturns
    have hwhole : ∀ turns, lastTurns turns .nan = turns := fun _ => rfl
    rw [hwhole, hwhole, tailTurns, List.length_filterMap_eq_countP, List.length_filterMap_eq_countP] at hlength
    exact countP_filter_eq_iff.mp hlength
  · intro h pid limit
    refine ⟨hvalue pid limit, ?_⟩
    rw [transcript_eq, filterMap_filter h]
    rfl

/-- The scans settle, and malformed rows contribute nothing to them, exactly on the
files whose malformed rows are unmarked. -/
theorem scansSettle_iff (file : Option Bytes) : ScansSettle file ↔ MalformedUnmarked file := by
  constructor
  · intro h
    have hassistant := settles_countLines_iff.mp h.turns
    refine ⟨hassistant, settles_transcript_iff.mp h.transcript, ?_, settles_countLines_iff.mp h.compactions⟩
    obtain ⟨hall, hrows⟩ := h.pendingToolUses
    rw [pendingToolUses_eq] at hall hrows
    exact (pendingOf_filter_iff hassistant).mp (Except.ok.inj (hrows.trans hall.symm))
  · intro h
    have hmalformed : ∀ line ∈ tail file, isWellFormed line = false →
        isAssistantTyped (safeParse line) = false := by
      intro line hline hfalse
      rw [← Bool.not_eq_true]
      exact fun htype => by rw [h.assistant line hline htype] at hfalse; cases hfalse
    refine ⟨⟨lastAssistantTurn_eq _, ?_⟩, ⟨pendingToolUses_eq _, ?_⟩, fun n => ?_, ?_,
      settles_countLines_iff.mpr h.assistant, settles_countLines_iff.mpr h.compactions,
      settles_transcript_iff.mpr h.turns⟩
    · rw [lastAssistantTurn_eq, ← List.filter_reverse, findSome?_filter fun line hline hturn =>
        h.assistant line (List.mem_reverse.mp hline) (isAssistantTyped_of_assistantTurn hturn)]
      rfl
    · rw [pendingToolUses_eq]
      exact congrArg Except.ok ((pendingOf_filter_iff h.assistant).mpr h.answers)
    · obtain ⟨v, hv⟩ := (toolUseEvents_ok n (tail file)).mpr fun line hline htype =>
        isIterable_of_isWellFormed (h.assistant line hline htype)
      exact ⟨v, hv, hv, (toolUseEvents_filter n hmalformed).trans hv⟩
    · obtain ⟨v, hv, hnumeric⟩ := (tokens_numeric (tail file)).mpr fun line hline htype =>
        isSummable_of_isWellFormed (h.assistant line hline htype)
      exact ⟨v, hv, hnumeric, hv, (tokens_filter hmalformed).trans hv⟩

/-- A row of the assistant with one block, `null`. -/
def nullBlock : Bytes :=
  encode (js "\x7b\"type\":\"assistant\",\"message\":\x7b\"content\":[null]\x7d\x7d")

/-- A row of the assistant with a count that is a text. -/
def textCount : Bytes := encode
  (js "\x7b\"type\":\"assistant\",\"message\":\x7b\"usage\":\x7b\"input_tokens\":\"5\"\x7d\x7d\x7d")

/-- The tool uses of the first file are rejected, while the scan beside it settles;
the sums of the second are texts. -/
theorem unusable_rows :
    (¬ ScansSettle (some nullBlock) ∧
      extractToolUseEvents (some nullBlock) (.finite 5) = .error (.typeError (js "type")) ∧
      (extractPendingToolUses (some nullBlock)).length = 0) ∧
    ¬ ScansSettle (some textCount) ∧ sumTokens (some textCount) =
      .ok ⟨.str (js "05"), .num (.finite 0), .num (.finite 0), .num (.finite 0), .str (js "05000")⟩ := by
  have hevents : extractToolUseEvents (some nullBlock) (.finite 5) = .error (.typeError (js "type")) := by
    decide +kernel
  have htokens : sumTokens (some textCount) =
      .ok ⟨.str (js "05"), .num (.finite 0), .num (.finite 0), .num (.finite 0), .str (js "05000")⟩ := by
    decide +kernel
  refine ⟨⟨fun h => ?_, hevents, by decide +kernel⟩, fun h => ?_, htokens⟩
  · obtain ⟨v, hv, -⟩ := h.toolUseEvents (.finite 5)
    rw [hevents] at hv
    cases hv
  · obtain ⟨v, hv, hnumeric, -⟩ := h.tokens
    rw [htokens] at hv
    cases hv
    cases hnumeric.1

end Conductor.Jsonl.Rejections
