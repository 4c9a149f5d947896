import Conductor.Jsonl.Parser
import Conductor.Sessions.Types

/-! # The transcript view and the last assistant turn

`buildTranscript` and the provider's `readTranscript` go through the tail forwards,
bring every content to an array of blocks, and keep the last turns.
`extractLastAssistantTurn` goes through the same tail backwards and hands the
content on as it is. They speak of the same row; its content they show alike when
it is an array, or not there at all. -/
namespace Conductor.Sessions.Transcript
open Conductor.Js.Text Conductor.Js.Number Conductor.Js.Values Conductor.Js.JsonText Conductor.Js.Utf8
open Conductor.Jsonl.Parser Conductor.Sessions.Types

/-! ## The forward scan -/

inductive Role
  | assistant
  | user
  deriving DecidableEq

structure TranscriptTurn where
  role : Role
  content : List Json
  stop_reason : Json
  timestamp : Json
  uuid : Json

structure TranscriptResponse where
  pid : Int
  turns : List TranscriptTurn

def roleOf (v : Option Json) : Option Role :=
  if isText v (js "assistant") then some .assistant
  else if isText v (js "user") then some .user
  else none

/-- A text becomes a block; anything that is neither text nor array is dropped. -/
def blocksOf : Option Json → List Json
  | some (.str text) => [.obj [(js "type", .str (js "text")), (js "text", .str text)]]
  | some (.arr blocks) => blocks
  | _ => []

/-- The body of the loop of both functions. -/
def transcriptTurn (line : JsString) : Option TranscriptTurn := do
  let obj ← parse line
  let type ← (prop obj (js "type")).toOption
  let _ ← roleOf type
  let message := optProp (some obj) (js "message")
  let role ← roleOf (optProp message (js "role"))
  return { role
           content := blocksOf (optProp message (js "content"))
           stop_reason := orElse (optProp message (js "stop_reason")) .null
           timestamp := orElse (optProp (some obj) (js "timestamp")) (.str [])
           uuid := orElse (optProp (some obj) (js "uuid")) (.str []) }

def tailTurns (file : Option Bytes) : List TranscriptTurn :=
  (readJsonlTailLines file 256000).filterMap transcriptTurn

/-- `Math.max(0, length - limit)`, as `slice` reads it. -/
def sliceStart (length : Nat) (limit : JsNumber) : Nat :=
  match limit with
  | .nan | .infinity false => 0
  | .infinity true => length
  | .finite q =>
    match nearestDouble (length - q) with
    | .finite d => min (max 0 d).floor.toNat length
    | .infinity false => length
    | .nan | .infinity true => 0

def lastTurns (turns : List TranscriptTurn) (limit : JsNumber) : List TranscriptTurn :=
  turns.drop (sliceStart turns.length limit)

def buildTranscript (file : Option Bytes) (pid : Int) (limit : JsNumber) : TranscriptResponse :=
  ⟨pid, lastTurns (tailTurns file) limit⟩

/-- A session without a path has no transcript. -/
def readTranscript (read : JsString → Option Bytes) (session : LocalSession) (limit : JsNumber) :
    Option (List TranscriptTurn) :=
  match session.transcriptPath with
  | some (u :: path) => some (lastTurns (tailTurns (read (u :: path))) limit)
  | _ => none

/-! ## What the two views say -/

/-- The role that the row of a line names and the type that it has are not two of
the two that count. -/
def Consistent (line : JsString) : Prop :=
  ∀ obj type role, parse line = some obj → roleOf (optProp (some obj) (js "type")) = some type →
    roleOf (optProp (optProp (some obj) (js "message")) (js "role")) = some role → type = role

def IsAssistant (t : TranscriptTurn) : Prop := t.role = .assistant

instance (t : TranscriptTurn) : Decidable (IsAssistant t) := inferInstanceAs (Decidable (_ = _))

/-- `t` is the last assistant turn of the list. -/
def LastAssistant (turns before : List TranscriptTurn) (t : TranscriptTurn) : Prop :=
  ∃ after, turns = before ++ t :: after ∧ IsAssistant t ∧ ∀ u ∈ after, ¬ IsAssistant u

/-- The limit leaves the last assistant turn in, where there is one. -/
def Reaches (turns : List TranscriptTurn) (limit : JsNumber) : Prop :=
  ∀ before t, LastAssistant turns before t → sliceStart turns.length limit ≤ before.length

structure SameTurn (a : AssistantTurn) (t : TranscriptTurn) : Prop where
  stop_reason : t.stop_reason = a.stop_reason
  timestamp : t.timestamp = a.timestamp
  uuid : t.uuid = a.uuid
  content : .arr t.content = a.content

/-- The last assistant turn of a list of turns is the extracted one, or there is neither. -/
def Shows (last : Option AssistantTurn) (listed : List TranscriptTurn) : Prop :=
  match last with
  | some a => ∃ before t, LastAssistant listed before t ∧ SameTurn a t
  | none => ∀ t ∈ listed, ¬ IsAssistant t

/-- Under every limit that reaches it, both listings show the extracted turn. -/
def Agree (read : JsString → Option Bytes) (session : LocalSession) (path : JsString) : Prop :=
  ∀ limit, Reaches (tailTurns (read path)) limit →
    Shows (extractLastAssistantTurn (read path)) (buildTranscript (read path) session.pid limit).turns ∧
      ∃ turns, readTranscript read session limit = some turns ∧
        Shows (extractLastAssistantTurn (read path)) turns

/-- The row of the value is of the assistant, by its type and by its role. -/
def isAssistantRow (obj : Json) : Bool :=
  isText (optProp (some obj) (js "type")) (js "assistant") &&
    isText (optProp (optProp (some obj) (js "message")) (js "role")) (js "assistant")

/-- The content of the row of a line, if it is a row of the assistant. -/
def assistantContent (line : JsString) : Option (Option Json) := do
  let obj ← parse line
  if isAssistantRow obj then some (optProp (optProp (some obj) (js "message")) (js "content"))
  else none

/-- The content is an array, or there is none. -/
def Listed : Option Json → Prop
  | none | some .null | some (.arr _) => True
  | _ => False

instance : DecidablePred Listed
  | none | some .null | some (.arr _) => isTrue trivial
  | some (.bool _) | some (.num _) | some (.str _) | some (.obj _) => isFalse id

/-- The content of the last row of the assistant is an array, or there is none. -/
def LastContentListed (lines : List JsString) : Prop :=
  ∀ before line after content, lines = before ++ line :: after →
    assistantContent line = some content → (∀ l ∈ after, assistantContent l = none) → Listed content

/-! ## One row -/

theorem prop_toOption {obj : Json} {key : JsString} {v : Option Json}
    (h : (prop obj key).toOption = some v) : v = optProp (some obj) key := by
  cases obj <;> cases h <;> rfl

theorem roleOf_assistant {v : Option Json} : roleOf v = some .assistant ↔ isText v (js "assistant") = true := by
  unfold roleOf
  split
  · simp [*]
  · split <;> simp [*]

/-- `null` has no type, and no row. -/
theorem assistantTurn_eq {line : JsString} {obj : Json} (hobj : parse line = some obj) :
    assistantTurn line =
      if isAssistantRow obj then some
        { stop_reason := orElse (optProp (optProp (some obj) (js "message")) (js "stop_reason")) .null
          content := orElse (optProp (optProp (some obj) (js "message")) (js "content")) (.arr [])
          timestamp := orElse (optProp (some obj) (js "timestamp")) (.str [])
          uuid := orElse (optProp (some obj) (js "uuid")) (.str []) }
      else none := by
  unfold assistantTurn
  rw [hobj]
  cases obj <;> rfl

theorem assistantContent_eq {line : JsString} {obj : Json} (hobj : parse line = some obj) :
    assistantContent line = if isAssistantRow obj then
      some (optProp (optProp (some obj) (js "message")) (js "content")) else none := by
  unfold assistantContent
  rw [hobj]
  rfl

theorem assistantContent_none {line : JsString} :
    assistantContent line = none ↔ assistantTurn line = none := by
  cases hobj : parse line with
  | none => simp [assistantContent, assistantTurn, hobj]
  | some obj =>
    rw [assistantTurn_eq hobj, assistantContent_eq hobj]
    split <;> simp

/-- A row of the assistant, in both scans. -/
structure AssistantRow (line : JsString) (a : AssistantTurn) (content : Option Json)
    (t : TranscriptTurn) : Prop where
  turn : transcriptTurn line = some t
  role : IsAssistant t
  stop_reason : t.stop_reason = a.stop_reason
  timestamp : t.timestamp = a.timestamp
  uuid : t.uuid = a.uuid
  raw : assistantContent line = some content
  blocks : t.content = blocksOf content
  content : a.content = orElse content (.arr [])

theorem row_of_assistant {line : JsString} {a : AssistantTurn} (h : assistantTurn line = some a) :
    ∃ content t, AssistantRow line a content t := by
  cases hobj : parse line with
  | none => simp [assistantTurn, hobj] at h
  | some obj =>
    have hcontent := assistantContent_eq hobj
    rw [assistantTurn_eq hobj] at h
    split at h
    · rename_i hrow
      cases h
      rw [if_pos hrow] at hcontent
      obtain ⟨htype, hrole⟩ := Bool.and_eq_true_iff.mp hrow
      refine ⟨_, ⟨.assistant, _, _, _, _⟩, ?_, rfl, rfl, rfl, rfl, hcontent, rfl, rfl⟩
      have hprop : (prop obj (js "type")).toOption = some (optProp (some obj) (js "type")) := by
        cases obj with
        | null => cases htype
        | _ => rfl
      simp only [transcriptTurn, hobj, hprop, Option.bind_eq_bind, Option.bind_some,
        roleOf_assistant.mpr htype, roleOf_assistant.mpr hrole]
      rfl
    · cases h

/-- In a consistent row, a turn of the assistant is a row of the assistant. -/
theorem not_assistant_of_none {line : JsString} (hc : Consistent line) (h : assistantTurn line = none)
    {t : TranscriptTurn} (ht : transcriptTurn line = some t) : ¬ IsAssistant t := by
  intro hassistant
  obtain ⟨obj, hobj, ht⟩ := Option.bind_eq_some_iff.mp ht
  obtain ⟨type, htype, ht⟩ := Option.bind_eq_some_iff.mp ht
  have hprop := prop_toOption htype
  subst hprop
  obtain ⟨kind, hkind, ht⟩ := Option.bind_eq_some_iff.mp ht
  obtain ⟨role, hrole, ht⟩ := Option.bind_eq_some_iff.mp ht
  cases ht
  have hsame : kind = role := hc obj kind role hobj hkind hrole
  have hrole' : role = .assistant := hassistant
  rw [hrole'] at hsame hrole
  rw [hsame] at hkind
  have hrow : isAssistantRow obj = true :=
    Bool.and_eq_true_iff.mpr ⟨roleOf_assistant.mp hkind, roleOf_assistant.mp hrole⟩
  rw [assistantTurn_eq hobj, if_pos hrow] at h
  cases h

/-- Both show the same content exactly when it is an array, or there is none. -/
theorem blocksOf_iff {content : Option Json} :
    .arr (blocksOf content) = orElse content (.arr []) ↔ Listed content := by
  cases content with
  | none => simp [blocksOf, orElse, Listed]
  | some v => cases v <;> simp [blocksOf, orElse, Listed]

/-! ## The last row -/

/-- The backward scan stops at the last row of the assistant. -/
theorem extract_some {file : Option Bytes} {a : AssistantTurn}
    (h : extractLastAssistantTurn file = some a) :
    ∃ before line after, readJsonlTailLines file 256000 = before ++ line :: after ∧
      assistantTurn line = some a ∧ ∀ l ∈ after, assistantTurn l = none := by
  obtain ⟨after, line, before, hlines, ha, hnone⟩ := List.findSome?_eq_some_iff.mp h
  refine ⟨before.reverse, line, after.reverse, ?_, ha, fun l hl => hnone l (List.mem_reverse.mp hl)⟩
  have hrev : readJsonlTailLines file 256000 = (after ++ line :: before).reverse := by
    rw [← hlines, List.reverse_reverse]
    rfl
  rw [hrev]
  simp

theorem extract_none {file : Option Bytes} (h : extractLastAssistantTurn file = none) :
    ∀ l ∈ readJsonlTailLines file 256000, assistantTurn l = none := by
  intro l hl
  exact List.findSome?_eq_none_iff.mp h l (List.mem_reverse.mpr hl)

section Views

variable {file : Option Bytes}

/-- Where a row of the assistant is the last, its turn is the last of the assistant. -/
theorem tailTurns_last (hc : ∀ l ∈ readJsonlTailLines file 256000, Consistent l)
    {before after : List JsString} {line : JsString} {a : AssistantTurn}
    (hlines : readJsonlTailLines file 256000 = before ++ line :: after)
    (ha : assistantTurn line = some a) (hnone : ∀ l ∈ after, assistantTurn l = none) :
    ∃ content t, AssistantRow line a content t ∧
      LastAssistant (tailTurns file) (before.filterMap transcriptTurn) t := by
  obtain ⟨content, t, hrow⟩ := row_of_assistant ha
  refine ⟨content, t, hrow, after.filterMap transcriptTurn, ?_, hrow.role, fun u hu => ?_⟩
  · rw [tailTurns, hlines, List.filterMap_append, List.filterMap_cons, hrow.turn]
  · obtain ⟨l, hl, hlu⟩ := List.mem_filterMap.mp hu
    have hmem : l ∈ readJsonlTailLines file 256000 := by
      rw [hlines]
      simp [hl]
    exact not_assistant_of_none (hc l hmem) (hnone l hl) hlu

theorem tailTurns_none (hc : ∀ l ∈ readJsonlTailLines file 256000, Consistent l)
    (h : extractLastAssistantTurn file = none) : ∀ t ∈ tailTurns file, ¬ IsAssistant t := by
  intro t ht
  obtain ⟨l, hl, hlt⟩ := List.mem_filterMap.mp ht
  exact not_assistant_of_none (hc l hl) (extract_none h l hl) hlt

theorem find_lastAssistant {turns before : List TranscriptTurn} {t : TranscriptTurn}
    (h : LastAssistant turns before t) :
    turns.reverse.find? (fun u => decide (IsAssistant u)) = some t := by
  obtain ⟨after, rfl, hrole, hnone⟩ := h
  have hafter : after.reverse.find? (fun u => decide (IsAssistant u)) = none :=
    List.find?_eq_none.mpr fun u hu hu' => hnone u (List.mem_reverse.mp hu) (of_decide_eq_true hu')
  have hrev : (before ++ t :: after).reverse = after.reverse ++ t :: before.reverse := by simp
  rw [hrev, List.find?_append, hafter, List.find?_cons_of_pos (by simpa using hrole)]
  rfl

/-- A list has one last assistant turn. -/
theorem lastAssistant_unique {turns before before' : List TranscriptTurn} {t t' : TranscriptTurn}
    (h : LastAssistant turns before t) (h' : LastAssistant turns before' t') : t = t' :=
  Option.some.inj ((find_lastAssistant h).symm.trans (find_lastAssistant h'))

/-- The listing drops turns before the last of the assistant only. -/
theorem lastAssistant_lastTurns {turns before : List TranscriptTurn} {t : TranscriptTurn}
    {limit : JsNumber} (h : LastAssistant turns before t) (hreach : Reaches turns limit) :
    LastAssistant (lastTurns turns limit) (before.drop (sliceStart turns.length limit)) t := by
  have hle := hreach before t h
  obtain ⟨after, hturns, hrole, hnone⟩ := h
  refine ⟨after, ?_, hrole, hnone⟩
  unfold lastTurns
  rw [hturns] at hle ⊢
  exact List.drop_append_of_le_length hle

theorem shows_lastTurns (hc : ∀ l ∈ readJsonlTailLines file 256000, Consistent l)
    (hlast : LastContentListed (readJsonlTailLines file 256000)) {limit : JsNumber}
    (hreach : Reaches (tailTurns file) limit) :
    Shows (extractLastAssistantTurn file) (lastTurns (tailTurns file) limit) := by
  cases hextract : extractLastAssistantTurn file with
  | none =>
    intro t ht
    exact tailTurns_none hc hextract t (List.mem_of_mem_drop ht)
  | some a =>
    obtain ⟨before, line, after, hlines, ha, hnone⟩ := extract_some hextract
    obtain ⟨content, t, hrow, htail⟩ := tailTurns_last hc hlines ha hnone
    have hlisted : Listed content := hlast before line after content hlines hrow.raw
      fun l hl => assistantContent_none.mpr (hnone l hl)
    refine ⟨_, t, lastAssistant_lastTurns htail hreach, hrow.stop_reason, hrow.timestamp, hrow.uuid, ?_⟩
    rw [hrow.blocks, hrow.content]
    exact blocksOf_iff.mpr hlisted

/-- The whole list shows the extracted turn only when its content is listed as it is. -/
theorem lastContentListed_of_shows (hc : ∀ l ∈ readJsonlTailLines file 256000, Consistent l)
    (h : Shows (extractLastAssistantTurn file) (tailTurns file)) :
    LastContentListed (readJsonlTailLines file 256000) := by
  intro before line after content hlines hcontent hafter
  have hnone : ∀ l ∈ after, assistantTurn l = none := fun l hl => assistantContent_none.mp (hafter l hl)
  have hsome : assistantTurn line ≠ none := by
    intro hno
    rw [assistantContent_none.mpr hno] at hcontent
    cases hcontent
  obtain ⟨a, ha⟩ := Option.ne_none_iff_exists'.mp hsome
  have hextract : extractLastAssistantTurn file = some a := by
    refine List.findSome?_eq_some_iff.mpr ⟨after.reverse, line, before.reverse, ?_, ha, fun l hl =>
      hnone l (List.mem_reverse.mp hl)⟩
    have hrev := congrArg List.reverse hlines
    rw [List.reverse_append, List.reverse_cons, List.append_assoc] at hrev
    exact hrev
  rw [hextract] at h
  obtain ⟨content', t, hrow, htail⟩ := tailTurns_last hc hlines ha hnone
  obtain ⟨before', t', hlast, hsame⟩ := h
  cases lastAssistant_unique htail hlast
  have hraw : some content = some content' := hcontent.symm.trans hrow.raw
  cases hraw
  have hblocks := hsame.content
  rw [hrow.blocks, hrow.content] at hblocks
  exact blocksOf_iff.mp hblocks

end Views

/-! ## Both views -/

theorem listed_of_agree {read : JsString → Option Bytes} {session : LocalSession} {path : JsString}
    (hc : ∀ l ∈ readJsonlTailLines (read path) 256000, Consistent l) (h : Agree read session path) :
    LastContentListed (readJsonlTailLines (read path) 256000) := by
  -- an unlimited listing is the whole list
  have hall := (h (.infinity false) fun _ _ _ => Nat.zero_le _).1
  exact lastContentListed_of_shows hc hall

/-- Over consistent rows, the listings show the extracted turn under every limit that
reaches it, or no turn where there is none, exactly when the content of the last row
of the assistant is an array or missing. -/
theorem transcripts_agree_iff {read : JsString → Option Bytes} {session : LocalSession} {path : JsString}
    (hpath : session.transcriptPath = some path) (hne : path ≠ [])
    (hc : ∀ l ∈ readJsonlTailLines (read path) 256000, Consistent l) :
    Agree read session path ↔ LastContentListed (readJsonlTailLines (read path) 256000) := by
  have hread : ∀ limit, readTranscript read session limit =
      some (lastTurns (tailTurns (read path)) limit) := by
    intro limit
    unfold readTranscript
    rw [hpath]
    cases path with
    | nil => exact absurd rfl hne
    | cons u path => rfl
  constructor
  · exact listed_of_agree hc
  · intro hlast limit hreach
    have hshows := shows_lastTurns hc hlast hreach
    exact ⟨hshows, _, hread limit, hshows⟩

/-- A row of the assistant with the given content. -/
def assistantRow (content : String) : JsString :=
  js "\x7b\"type\":\"assistant\",\"message\":\x7b\"role\":\"assistant\",\"content\":" ++ js content ++ js "\x7d\x7d"

def session : LocalSession := ⟨100, js "/a", js "a", none, some (js "t")⟩

/-- Every file holds the one row. -/
def holding (row : JsString) : JsString → Option Bytes := fun _ => some (encode row)

theorem consistent_of_roles {line : JsString} {r : Option Role}
    (h : ((parse line).map fun obj => (roleOf (optProp (some obj) (js "type")),
      roleOf (optProp (optProp (some obj) (js "message")) (js "role")))) = some (r, r)) :
    Consistent line := by
  intro obj type role hobj htype hrole
  rw [hobj, Option.map_some, htype, hrole] at h
  cases h
  rfl

/-- The assistant writes, and then calls a tool. -/
def blockRows : List JsString :=
  [assistantRow "[\x7b\"type\":\"text\",\"text\":\"hi\"\x7d]",
    assistantRow ("[\x7b\"type\":\"text\",\"text\":\"ok\"\x7d," ++
      "\x7b\"type\":\"tool_use\",\"id\":\"t\",\"name\":\"Bash\"\x7d]")]

theorem transcripts_agree_blocks :
    Agree (holding ((js "\n").intercalate blockRows)) session (js "t") := by
  have hlines : readJsonlTailLines (holding ((js "\n").intercalate blockRows) (js "t")) 256000 = blockRows := by
    decide +kernel
  refine (transcripts_agree_iff rfl (by decide) fun l hl => ?_).mpr ?_
  · rw [hlines] at hl
    have hrow : ∀ l ∈ blockRows, ((parse l).map fun obj => (roleOf (optProp (some obj) (js "type")),
        roleOf (optProp (optProp (some obj) (js "message")) (js "role")))) =
          some (some .assistant, some .assistant) := by decide +kernel
    exact consistent_of_roles (hrow l hl)
  · rw [hlines]
    have hlisted : ∀ l ∈ blockRows, ∀ content ∈ assistantContent l, Listed content := by decide +kernel
    intro before line after content hrows hcontent _
    exact hlisted line (hrows ▸ List.mem_append_right before List.mem_cons_self) content hcontent

/-- The extracted content is the text itself, where the listings have a block. -/
theorem text_content_differs : ¬ Agree (holding (assistantRow "\"hi\"")) session (js "t") := by
  intro h
  have hlines : readJsonlTailLines (holding (assistantRow "\"hi\"") (js "t")) 256000 =
      [assistantRow "\"hi\""] := by decide +kernel
  have hc : ∀ l ∈ readJsonlTailLines (holding (assistantRow "\"hi\"") (js "t")) 256000, Consistent l := by
    intro l hl
    rw [hlines, List.mem_singleton] at hl
    rw [hl]
    exact consistent_of_roles (r := some .assistant) (by decide +kernel)
  have htext : ((assistantContent (assistantRow "\"hi\"")).map fun v => isText v (js "hi")) = some true := by
    decide +kernel
  obtain ⟨content, hcontent, hhi⟩ := Option.map_eq_some_iff.mp htext
  rw [isText_iff.mp hhi] at hcontent
  exact listed_of_agree hc h [] _ [] _ hlines hcontent fun l hl => by cases hl

end Conductor.Sessions.Transcript
