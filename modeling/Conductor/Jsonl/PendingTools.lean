import Conductor.Jsonl.TailLines
import Conductor.Sessions.Types

/-! # Pending tools of a tail

Rows are only appended, and an answer comes after what it answers. So a window on
the last rows holds the answer to every tool use in it that was answered, and what
it reports as pending is pending in the whole transcript. -/
namespace Conductor.Jsonl.PendingTools
open Conductor.Js.Text Conductor.Js.Values Conductor.Js.JsonText Conductor.Js.Utf8
open Conductor.Jsonl.Parser Conductor.Jsonl.TailLines
open Conductor.Sessions.Types (nodup_eraseDups)

/-! ## Transcripts -/

def usedIds (rows : List JsString) : List JsString := (rows.flatMap toolUsesOf).map (·.id)

def answeredIds (rows : List JsString) : List JsString := rows.flatMap toolResultsOf

/-- The ids that are used and not answered, in order of their first use. -/
def pendingIds (rows : List JsString) : List JsString :=
  (usedIds rows).eraseDups.filter fun id => !(answeredIds rows).contains id

/-- A use whose id is answered in the transcript is answered in a later row. -/
def AnswersFollow (rows : List JsString) : Prop :=
  ∀ before row after, rows = before ++ row :: after →
    ∀ id ∈ usedIds [row], id ∈ answeredIds rows → id ∈ answeredIds after

/-- A row that uses a tool or has a result. Malformed lines and other rows do neither. -/
def isToolRow (row : JsString) : Bool := !(toolUsesOf row).isEmpty || !(toolResultsOf row).isEmpty

/-- It is enough that every answer is in a later row than all uses of its id. -/
theorem answersFollow_of_order {rows : List JsString}
    (h : ∀ before row after, rows = before ++ row :: after →
      ∀ id ∈ usedIds [row], id ∉ answeredIds (before ++ [row])) : AnswersFollow rows := by
  intro before row after hrows id hused hanswered
  have hnot := h before row after hrows id hused
  rw [hrows, List.append_cons, answeredIds, List.flatMap_append] at hanswered
  exact (List.mem_append.mp hanswered).resolve_left hnot

/-! ## The accumulation -/

theorem setToolUse_map_id (uses : List ToolUse) (u : ToolUse) :
    (setToolUse uses u).map (·.id) =
      if u.id ∈ uses.map (·.id) then uses.map (·.id) else uses.map (·.id) ++ [u.id] := by
  have hany : uses.any (·.id == u.id) = true ↔ u.id ∈ uses.map (·.id) := by
    rw [List.any_eq_true, List.mem_map]
    simp only [beq_iff_eq]
  unfold setToolUse
  by_cases h : u.id ∈ uses.map (·.id)
  · rw [if_pos h, if_pos (hany.mpr h), List.map_map]
    refine List.map_congr_left fun t _ => ?_
    simp only [Function.comp_apply]
    split
    · rename_i heq
      exact (beq_iff_eq.mp heq).symm
    · rfl
  · rw [if_neg h, if_neg fun hyes => h (hany.mp hyes), List.map_append]
    rfl

/-- The map has each id once, in order of its first use. -/
theorem toolUses_ids (us : List ToolUse) :
    (us.foldl setToolUse []).map (·.id) = (us.map (·.id)).eraseDups := by
  induction us using List.reverseRecOn with
  | nil => rfl
  | append_singleton us u ih =>
    rw [List.foldl_append, List.foldl_cons, List.foldl_nil, setToolUse_map_id, ih, List.map_append,
      List.eraseDups_append]
    simp only [List.mem_eraseDups]
    by_cases h : u.id ∈ us.map (·.id)
    · have hnone : (List.map (·.id) [u]).removeAll (us.map (·.id)) = [] := by
        simpa [List.removeAll] using h
      rw [if_pos h, hnone]
      exact (List.append_nil _).symm
    · have hone : (List.map (·.id) [u]).removeAll (us.map (·.id)) = [u.id] := by
        simpa [List.removeAll] using h
      rw [if_neg h, hone]
      rfl

theorem extractPendingToolUses_ids (file : Option Bytes) :
    (extractPendingToolUses file).map (·.id) =
      pendingIds (readJsonlTailLines file DEFAULT_TAIL_BYTES) := by
  unfold pendingIds usedIds
  rw [← toolUses_ids, List.filter_map]
  rfl

/-! ## Tails -/

theorem flatMap_filter_of_nil {α β : Type} {f : α → List β} {p : α → Bool} {l : List α}
    (h : ∀ a ∈ l, p a = false → f a = []) : (l.filter p).flatMap f = l.flatMap f := by
  induction l with
  | nil => rfl
  | cons a l ih =>
    have hrest := ih fun b hb => h b (List.mem_cons_of_mem a hb)
    cases hp : p a with
    | true => rw [List.filter_cons_of_pos hp, List.flatMap_cons, List.flatMap_cons, hrest]
    | false =>
      rw [List.filter_cons_of_neg (by simp [hp]), List.flatMap_cons, hrest,
        h a List.mem_cons_self hp, List.nil_append]

/-- Rows that neither use a tool nor answer one change nothing. -/
theorem pendingIds_filter (rows : List JsString) : pendingIds (rows.filter isToolRow) = pendingIds rows := by
  have hused : usedIds (rows.filter isToolRow) = usedIds rows := by
    unfold usedIds
    rw [flatMap_filter_of_nil fun row _ h => ?_]
    simp only [isToolRow, Bool.or_eq_false_iff, Bool.not_eq_false', List.isEmpty_iff] at h
    exact h.1
  have hanswered : answeredIds (rows.filter isToolRow) = answeredIds rows := by
    unfold answeredIds
    rw [flatMap_filter_of_nil fun row _ h => ?_]
    simp only [isToolRow, Bool.or_eq_false_iff, Bool.not_eq_false', List.isEmpty_iff] at h
    exact h.2
  rw [pendingIds, hused, hanswered, pendingIds]

/-- A tail answers what it uses if the transcript does. -/
theorem answered_in_tail {rows tail : List JsString} (horder : AnswersFollow rows) (htail : tail <:+ rows)
    {id : JsString} (hused : id ∈ usedIds tail) : id ∈ answeredIds tail ↔ id ∈ answeredIds rows := by
  obtain ⟨before, rfl⟩ := htail
  constructor
  · intro h
    rw [answeredIds, List.flatMap_append]
    exact List.mem_append_right _ h
  · intro h
    obtain ⟨u, hmem, rfl⟩ := List.mem_map.mp hused
    obtain ⟨row, hrow, hu⟩ := List.mem_flatMap.mp hmem
    obtain ⟨front, after, rfl⟩ := List.append_of_mem hrow
    have hrowUses : u.id ∈ usedIds [row] := by
      rw [usedIds, List.flatMap_singleton]
      exact List.mem_map_of_mem hu
    have hafter := horder (before ++ front) row after (List.append_assoc _ _ _).symm u.id hrowUses h
    obtain ⟨r, hr, hid⟩ := List.mem_flatMap.mp hafter
    exact List.mem_flatMap.mpr ⟨r, List.mem_append_right front (List.mem_cons_of_mem row hr), hid⟩

/-- What is pending in a tail is what occurs in it and is pending in the transcript. -/
theorem pendingIds_tail {rows tail : List JsString} (horder : AnswersFollow rows) (htail : tail <:+ rows) :
    pendingIds tail = (usedIds tail).eraseDups.filter fun id => decide (id ∈ pendingIds rows) := by
  unfold pendingIds
  refine List.filter_congr fun id hid => ?_
  have hused := List.mem_eraseDups.mp hid
  have hrows : id ∈ usedIds rows := by
    obtain ⟨before, rfl⟩ := htail
    rw [usedIds, List.flatMap_append, List.map_append]
    exact List.mem_append_right _ hused
  have hanswered := answered_in_tail horder htail hused
  rw [Bool.eq_iff_iff]
  simp only [Bool.not_eq_true', List.contains_eq_mem, decide_eq_false_iff_not, decide_eq_true_eq,
    List.mem_filter, List.mem_eraseDups]
  rw [hanswered]
  exact ⟨fun h => ⟨hrows, h⟩, fun h => h.2⟩

/-- Over any tail of a transcript whose answers follow, with any other lines in between:
the ids returned are those that occur in the tail and are pending in the transcript,
each once, in order of their first use in the tail. -/
theorem pending_in_tail {rows tail : List JsString} {file : Option Bytes} (horder : AnswersFollow rows)
    (htail : tail <:+ rows)
    (hfile : (readJsonlTailLines file DEFAULT_TAIL_BYTES).filter isToolRow = tail.filter isToolRow) :
    (extractPendingToolUses file).map (·.id) =
        (usedIds tail).eraseDups.filter (fun id => decide (id ∈ pendingIds rows)) ∧
      ((extractPendingToolUses file).map (·.id)).Nodup := by
  have hids : (extractPendingToolUses file).map (·.id) = pendingIds tail := by
    rw [extractPendingToolUses_ids, ← pendingIds_filter, hfile, pendingIds_filter]
  refine ⟨hids.trans (pendingIds_tail horder htail), ?_⟩
  rw [hids]
  exact (nodup_eraseDups _).filter _

/-! ## The window on a file -/

/-- The rows that are there as a whole. -/
def complete (f : JsonlFile) : List JsString :=
  (f.rows ++ if f.written = f.last.line.length then [f.last] else []).map (·.text)

theorem rowsInside_all {n : Nat} {tail : Bytes} {rows : List JsonObject}
    (h : (fileOf rows tail).length ≤ n) : rowsInside n tail rows = rows := by
  induction rows with
  | nil => rfl
  | cons o os ih =>
    have hlen := length_fileOf_cons o os tail
    rw [rowsInside, if_pos h, ih (by omega)]

theorem rowsInside_suffix (n : Nat) (tail : Bytes) (rows : List JsonObject) :
    rowsInside n tail rows <:+ rows := by
  induction rows with
  | nil => exact List.suffix_rfl
  | cons o os ih =>
    by_cases hall : (fileOf (o :: os) tail).length ≤ n
    · rw [rowsInside_all hall]
    · rw [rowsInside, if_neg hall]
      exact ih.trans (List.suffix_cons o os)

theorem inside_suffix (f : JsonlFile) (n : Nat) : (f.inside n).map (·.text) <:+ complete f := by
  refine List.IsSuffix.map _ ?_
  unfold JsonlFile.inside
  by_cases hdone : f.written = f.last.line.length
  · by_cases hfit : f.written ≤ n
    · rw [if_pos ⟨hdone, hfit⟩, if_pos hdone]
      obtain ⟨before, hbefore⟩ := rowsInside_suffix n f.tail f.rows
      exact ⟨before, by rw [← List.append_assoc, hbefore]⟩
    · have hnone : rowsInside n f.tail f.rows = [] := by
        refine rowsInside_eq_nil ?_ _
        rw [length_tail]
        exact not_le.mp hfit
      rw [if_neg fun h => hfit h.2, hnone]
      exact List.nil_suffix
  · rw [if_neg fun h => hdone h.1, if_neg hdone, List.append_nil, List.append_nil]
    exact rowsInside_suffix n f.tail f.rows

/-- The lines of the window and the whole rows in it use and answer the same. -/
theorem window_toolRows {f : JsonlFile} {n : Nat} (h : ¬ CutsUnfinished f n) :
    (readJsonlTailLines (some f.bytes) n).filter isToolRow = ((f.inside n).map (·.text)).filter isToolRow := by
  have haccepted : acceptedLines f.bytes n = (f.inside n).map (·.text) := by
    rw [acceptedLines_eq, JsonlFile.bytes, accepted_window, accepted_tail h, JsonlFile.inside, List.map_append]
  rw [← haccepted, acceptedLines, List.filter_filter]
  refine List.filter_congr fun row _ => ?_
  cases hparse : parse row with
  | some obj => simp
  | none =>
    have hnone : isToolRow row = false := by
      simp [isToolRow, toolUsesOf, toolResultsOf, rowBlocks, hparse]
    rw [hnone]
    rfl

/-- The tools that the status derivation takes for pending are pending in the file. -/
theorem pending_of_file {f : JsonlFile} (h : ¬ CutsUnfinished f DEFAULT_TAIL_BYTES)
    (horder : AnswersFollow (complete f)) :
    (extractPendingToolUses (some f.bytes)).map (·.id) =
      (usedIds ((f.inside DEFAULT_TAIL_BYTES).map (·.text))).eraseDups.filter fun id =>
        decide (id ∈ pendingIds (complete f)) := by
  rw [extractPendingToolUses_ids, ← pendingIds_filter, window_toolRows h, pendingIds_filter]
  exact pendingIds_tail horder (inside_suffix f _)

/-! ## A tail that begins after a use -/

def toolRow (type : JsString) (block : List (JsString × Json)) : JsString :=
  stringify (.obj [(js "type", .str type),
    (js "message", .obj [(js "content", .arr [.obj block])])])

def useRow (id : JsString) : JsString :=
  toolRow (js "assistant") [(js "type", .str (js "tool_use")), (js "id", .str id)]

def answerRow (id : JsString) : JsString :=
  toolRow (js "user") [(js "type", .str (js "tool_result")), (js "tool_use_id", .str id)]

/-- The first of two tools is answered. -/
def twoTools : List JsString := [useRow (js "a"), useRow (js "b"), answerRow (js "a")]

/-- The tail with a cut and a foreign line. -/
def twoToolsFile : Bytes :=
  encode (js "e\"\x7d]\x7d\x7d\n" ++ useRow (js "b") ++ js "\n[]\n" ++ answerRow (js "a") ++ js "\n")

/-- The window begins in the row of a use, and a line in it is no row. -/
theorem second_tool_pending :
    (extractPendingToolUses (some twoToolsFile)).map (·.id) = [js "b"] := by
  have horder : AnswersFollow twoTools := by
    refine answersFollow_of_order fun before row after hrows id hused hanswered => ?_
    have hnone : answeredIds [useRow (js "a"), useRow (js "b")] = [] := by decide +kernel
    have hlast : usedIds [answerRow (js "a")] = [] := by decide +kernel
    match before, hrows with
    | [], hrows =>
      obtain ⟨rfl, -⟩ := List.cons.inj hrows
      have hmem : id ∈ answeredIds [useRow (js "a"), useRow (js "b")] :=
        List.mem_append_left _ (by simpa [answeredIds] using hanswered)
      rw [hnone] at hmem
      cases hmem
    | [_], hrows =>
      obtain ⟨rfl, htail⟩ := List.cons.inj hrows
      obtain ⟨rfl, -⟩ := List.cons.inj htail
      rw [List.singleton_append, hnone] at hanswered
      cases hanswered
    | [_, _], hrows =>
      obtain ⟨-, htail⟩ := List.cons.inj hrows
      obtain ⟨-, hend⟩ := List.cons.inj htail
      obtain ⟨rfl, -⟩ := List.cons.inj hend
      rw [hlast] at hused
      cases hused
    | _ :: _ :: _ :: more, hrows =>
      have hlen := congrArg List.length hrows
      simp [twoTools] at hlen
  have hlines : (readJsonlTailLines (some twoToolsFile) DEFAULT_TAIL_BYTES).filter isToolRow =
      twoTools.tail.filter isToolRow := by decide +kernel
  have hpending := (pending_in_tail horder (List.tail_suffix twoTools) hlines).1
  rw [hpending]
  decide +kernel

end Conductor.Jsonl.PendingTools
