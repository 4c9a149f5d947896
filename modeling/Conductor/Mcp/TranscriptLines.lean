import Conductor.Jsonl.TailLines
import Conductor.Mcp.SchemaChecks

/-! # The lines of the transcript tool

The tool hands its number of lines to a reader that takes a number of bytes.
What it returns is what begins in the last `limit` bytes of the file, after a
piece of the line that they begin in. -/
namespace Conductor.Mcp.TranscriptLines
open Conductor.Js.Text Conductor.Js.Number Conductor.Js.Values Conductor.Js.JsonText
open Conductor.Js.JsonCut Conductor.Js.Utf8 Conductor.Js.Utf8Cut Conductor.Lib.Framing Conductor.Jsonl.Parser
open Conductor.Js.Numerals (eq_of_isJsonSpace)
open Conductor.Jsonl.TailLines Conductor.Mcp.Tools Conductor.Mcp.Handlers
open Conductor.Mcp.SchemaChecks (quietWorld)

/-! ## JSONL files -/

/-- A line of a JSONL file: a JSON text, or white space. -/
structure JsonLine where
  text : JsString
  isText : IsText text
  oneLine : 10 ∉ text
  json : text.all isJsonSpace = true ∨ (parse text).isSome = true

def JsonLine.bytes (o : JsonLine) : Bytes := encode o.text

/-- A line feed after every line but the last. -/
def fileBytes (rows : List JsonLine) (last : JsonLine) : Bytes :=
  frame 10 (rows.map (·.bytes)) ++ last.bytes

def notBlank (l : JsString) : Bool := !(trim l).isEmpty

def nonBlankLines (bytes : Bytes) : List JsString := (lines (decode bytes)).filter notBlank

/-- The last `min n N` of `N` lines. -/
def lastLines (n : Nat) (ls : List JsString) : List JsString := ls.drop (ls.length - min n ls.length)

/-- The lines that begin before the last `n` bytes. -/
def outside (n : Nat) (last : JsonLine) : List JsonLine → List JsonLine
  | [] => if last.bytes.length ≤ n then [] else [last]
  | o :: os => if (fileBytes (o :: os) last).length ≤ n then [] else o :: outside n last os

/-- The lines that begin in them. -/
def inside (n : Nat) (last : JsonLine) : List JsonLine → List JsonLine
  | [] => if last.bytes.length ≤ n then [last] else []
  | o :: os => if (fileBytes (o :: os) last).length ≤ n then o :: os ++ [last] else inside n last os

/-- The lines of the answer, when there is one. -/
def transcriptLines (r : ToolRun) : Option (List JsString) :=
  match r.result with
  | .ok (.transcript _ _ ls _) => some ls
  | _ => none

/-! ## JSON texts -/

theorem notBlank_iff (s : JsString) : notBlank s = true ↔ ∃ u ∈ s, isWhiteSpace u = false := by
  rw [notBlank, Bool.not_eq_true', List.isEmpty_eq_false_iff, ne_eq, trim_eq_nil_iff]
  simp

theorem notBlank_of_parse {s : JsString} (h : (parse s).isSome = true) : notBlank s = true := by
  obtain ⟨u, rest, hs, hu⟩ := visible_of_parse h
  have hmem : u ∈ skipSpace s := hs ▸ List.mem_cons_self
  exact (notBlank_iff s).mpr ⟨u, List.dropWhile_subset _ hmem, hu⟩

/-! ## One line that was cut -/

/-- White space that was cut is white space. -/
theorem cut_space {s : JsString} (h : s.all isJsonSpace = true) (i : Nat) :
    notBlank (decode ((encode s).drop i)) = false := by
  have hspace : ∀ u ∈ s, u < 0x80 ∧ isWhiteSpace u = true := by
    intro u hu
    rcases eq_of_isJsonSpace (List.all_eq_true.mp h u hu) with rfl | rfl | rfl | rfl
    · decide
    · decide
    · decide
    · decide
  have hascii : ∀ u ∈ s, u < 0x80 := fun u hu => (hspace u hu).1
  rw [encode_ascii hascii, ← List.map_drop, decode_ascii fun u hu => hascii u (List.mem_of_mem_drop hu),
    ← Bool.not_eq_true, notBlank_iff]
  rintro ⟨u, hu, hno⟩
  rw [(hspace u (List.mem_of_mem_drop hu)).2] at hno
  cases hno

theorem cut_line (o : JsonLine) {i : Nat} (hi : 0 < i) (hle : i ≤ o.bytes.length) :
    10 ∉ decode (o.bytes.drop i) ∧ (notBlank (decode (o.bytes.drop i)) = true →
      notBlank o.text = true ∧ decode (o.bytes.drop i) ≠ o.text) := by
  constructor
  · intro hmem
    obtain ⟨cs, hcs, ht⟩ := o.isText
    have hbytes : o.bytes = bytes cs := by
      rw [JsonLine.bytes, ht, encode_units hcs]
    rw [hbytes] at hle hmem
    rw [← List.take_of_length_le (Nat.le_refl ((bytes cs).drop i).length)] at hmem
    exact o.oneLine (ht ▸ mem_decode_slice hcs hle _ (by decide) hmem)
  · intro hcut
    rcases o.json with hspace | hparse
    · rw [JsonLine.bytes, cut_space hspace] at hcut
      cases hcut
    · exact ⟨notBlank_of_parse hparse, cut_json o.isText hparse hi hle⟩

/-! ## The window -/

section
variable {n : Nat} {last : JsonLine}

def texts (os : List JsonLine) : List JsString := (os.map (·.text)).filter notBlank

theorem nonBlankLines_cons {a : Bytes} (b : Bytes) (h : 10 ∉ decode a) :
    nonBlankLines (a ++ 10 :: b) = [decode a].filter notBlank ++ nonBlankLines b := by
  rw [nonBlankLines, decode_newline, lines_cons h, ← List.singleton_append, List.filter_append]
  rfl

theorem nonBlankLines_one {a : Bytes} (h : 10 ∉ decode a) :
    nonBlankLines a = [decode a].filter notBlank := by
  rw [nonBlankLines, lines_of_not_mem h]

theorem decode_line (o : JsonLine) : decode o.bytes = o.text := o.isText.decode_encode

theorem fileBytes_cons (o : JsonLine) (os : List JsonLine) (last : JsonLine) :
    fileBytes (o :: os) last = o.bytes ++ 10 :: fileBytes os last := by
  simp [fileBytes, frame]

theorem length_fileBytes_cons (o : JsonLine) (os : List JsonLine) (last : JsonLine) :
    (fileBytes (o :: os) last).length = o.bytes.length + 1 + (fileBytes os last).length := by
  rw [fileBytes_cons, List.length_append, List.length_cons]
  omega

/-- All that begins in a file that the window holds. -/
theorem outside_of_le {os : List JsonLine} (h : (fileBytes os last).length ≤ n) :
    outside n last os = [] ∧ inside n last os = os ++ [last] := by
  cases os with
  | nil => exact ⟨if_pos h, if_pos h⟩
  | cons o os => exact ⟨if_pos h, if_pos h⟩

theorem outside_append_inside (os : List JsonLine) :
    outside n last os ++ inside n last os = os ++ [last] := by
  induction os with
  | nil =>
    unfold outside inside
    split
    · rfl
    · rfl
  | cons o os ih =>
    unfold outside inside
    split
    · rfl
    · rw [List.cons_append, ih, List.cons_append]

theorem nonBlankLines_file (os : List JsonLine) :
    nonBlankLines (fileBytes os last) = texts (os ++ [last]) := by
  induction os with
  | nil =>
    have hone := nonBlankLines_one (decode_line last ▸ last.oneLine)
    rw [decode_line] at hone
    simpa [fileBytes, frame, texts] using hone
  | cons o os ih =>
    rw [fileBytes_cons, nonBlankLines_cons _ (decode_line o ▸ o.oneLine), ih, decode_line, texts, texts,
      List.cons_append, List.map_cons]
    exact (List.filter_append [o.text] _).symm

theorem window_rest (o : JsonLine) (os : List JsonLine) (h : n ≤ (fileBytes os last).length) :
    window n (fileBytes (o :: os) last) = window n (fileBytes os last) := by
  have hassoc : fileBytes (o :: os) last = (o.bytes ++ [10]) ++ fileBytes os last := by
    rw [fileBytes_cons]
    simp
  rw [hassoc, window_append _ h]

/-- What is left of a line that was cut: nothing, or another text. -/
theorem cut_lines (o : JsonLine) {i : Nat} (hi : 0 < i) (hle : i ≤ o.bytes.length) :
    [decode (o.bytes.drop i)].filter notBlank = [] ∨ ∃ p,
      [decode (o.bytes.drop i)].filter notBlank = [p] ∧ texts [o] = [o.text] ∧ p ≠ o.text := by
  obtain ⟨_, hcut⟩ := cut_line o hi hle
  cases hblank : notBlank (decode (o.bytes.drop i)) with
  | false => exact .inl (by simp [hblank])
  | true =>
    obtain ⟨hwhole, hne⟩ := hcut hblank
    exact .inr ⟨_, by simp [hblank], by simp [texts, hwhole], hne⟩

/-- Before the lines that begin in the window stands at most a piece, and that
of the last line that begins before it. -/
theorem nonBlankLines_window (n : Nat) (last : JsonLine) (os : List JsonLine) :
    ∃ cut, nonBlankLines (window n (fileBytes os last)) = cut ++ texts (inside n last os) ∧
      (cut = [] ∨ ∃ before o p, cut = [p] ∧ texts (outside n last os) = before ++ [o] ∧ p ≠ o) := by
  have hwhole : ∀ os, (fileBytes os last).length ≤ n →
      nonBlankLines (window n (fileBytes os last)) = texts (inside n last os) := by
    intro os hle
    rw [window_all hle, nonBlankLines_file, (outside_of_le hle).2]
  induction os with
  | nil =>
    by_cases hall : (fileBytes [] last).length ≤ n
    · exact ⟨[], hwhole [] hall, .inl rfl⟩
    · have hlast : fileBytes [] last = last.bytes := rfl
      rw [hlast] at hall ⊢
      have hi : 0 < last.bytes.length - n := by omega
      have hout : outside n last [] = [last] := if_neg hall
      have hin : inside n last [] = [] := if_neg hall
      refine ⟨_, ?_, (cut_lines last hi (Nat.sub_le _ n)).imp_right ?_⟩
      · rw [window, nonBlankLines_one (cut_line last hi (Nat.sub_le _ n)).1, hin]
        exact (List.append_nil _).symm
      · rintro ⟨p, hp, ht, hne⟩
        exact ⟨[], last.text, p, hp, by rw [hout, ht]; rfl, hne⟩
  | cons o os ih =>
    by_cases hall : (fileBytes (o :: os) last).length ≤ n
    · exact ⟨[], hwhole (o :: os) hall, .inl rfl⟩
    have hout : outside n last (o :: os) = o :: outside n last os := if_neg hall
    have hin : inside n last (o :: os) = inside n last os := if_neg hall
    have hlen := length_fileBytes_cons o os last
    rw [hin, hout]
    by_cases hnone : n ≤ (fileBytes os last).length
    · rw [window_rest o os hnone]
      obtain ⟨cut, hcut, hpiece⟩ := ih
      refine ⟨cut, hcut, hpiece.imp_right ?_⟩
      rintro ⟨before, x, p, hp, ht, hne⟩
      refine ⟨texts [o] ++ before, x, p, hp, ?_, hne⟩
      rw [List.append_assoc, ← ht, texts, texts, texts, ← List.filter_append]
      rfl
    · -- the window begins in this line
      have hi : 0 < (fileBytes (o :: os) last).length - n := by omega
      have hle : (fileBytes (o :: os) last).length - n ≤ o.bytes.length := by omega
      have hos : (fileBytes os last).length ≤ n := by omega
      have hwin : window n (fileBytes (o :: os) last) =
          o.bytes.drop ((fileBytes (o :: os) last).length - n) ++ 10 :: fileBytes os last := by
        rw [window, ← List.drop_append_of_le_length hle, ← fileBytes_cons]
      refine ⟨_, ?_, (cut_lines o hi hle).imp_right ?_⟩
      · rw [hwin, nonBlankLines_cons _ (cut_line o hi hle).1, nonBlankLines_file, (outside_of_le hos).2]
      · rintro ⟨p, hp, ht, hne⟩
        exact ⟨[], o.text, p, hp, by rw [(outside_of_le hos).1, ht]; rfl, hne⟩

theorem texts_append (os ps : List JsonLine) : texts (os ++ ps) = texts os ++ texts ps := by
  rw [texts, texts, texts, List.map_append, List.filter_append]

theorem texts_eq_nil_iff (os : List JsonLine) : texts os = [] ↔ ∀ o ∈ os, notBlank o.text = false := by
  rw [texts, List.filter_eq_nil_iff]
  simp

/-- A line that is not blank has a byte, and there is one between two lines. -/
theorem length_texts_one (o : JsonLine) : 2 * (texts [o]).length ≤ o.bytes.length + 1 := by
  cases hblank : notBlank o.text with
  | false => simp [texts, hblank]
  | true =>
    have hpos : 0 < o.bytes.length := by
      refine List.length_pos_iff.mpr fun hnil => ?_
      have htext := decode_line o
      rw [hnil] at htext
      rw [← htext] at hblank
      cases hblank
    have hone : texts [o] = [o.text] := by simp [texts, hblank]
    rw [hone, List.length_singleton]
    omega

theorem length_texts (os : List JsonLine) (last : JsonLine) :
    2 * (texts (os ++ [last])).length ≤ (fileBytes os last).length + 1 := by
  induction os with
  | nil => exact length_texts_one last
  | cons o os ih =>
    have hone := length_texts_one o
    rw [List.cons_append, ← List.singleton_append, texts_append, List.length_append,
      length_fileBytes_cons]
    omega

theorem length_texts_inside (n : Nat) (last : JsonLine) (os : List JsonLine) :
    2 * (texts (inside n last os)).length ≤ n + 1 := by
  induction os with
  | nil =>
    by_cases hall : (fileBytes [] last).length ≤ n
    · have hlen := length_texts [] last
      rw [(outside_of_le hall).2]
      omega
    · have hin : inside n last [] = [] := if_neg hall
      rw [hin]
      simp [texts]
  | cons o os ih =>
    by_cases hall : (fileBytes (o :: os) last).length ≤ n
    · have hlen := length_texts (o :: os) last
      rw [(outside_of_le hall).2]
      omega
    · have hin : inside n last (o :: os) = inside n last os := if_neg hall
      rw [hin]
      exact ih

/-! ## The last byte -/

/-- The file ends in a line of one byte that is not blank. -/
def EndsInOne (last : JsonLine) : Prop := last.bytes.length = 1 ∧ notBlank last.text = true

/-- Only such a line begins in the last byte. -/
theorem endsInOne_of_inside {os : List JsonLine} (h : (texts (inside 1 last os)).length = 1) :
    EndsInOne last := by
  induction os with
  | nil =>
    by_cases hall : last.bytes.length ≤ 1
    · have hin : inside 1 last [] = [last] := if_pos hall
      rw [hin] at h
      have hlen := length_texts_one last
      refine ⟨by omega, ?_⟩
      by_contra hno
      have hblank : texts [last] = [] := by simp [texts, hno]
      rw [hblank] at h
      cases h
    · have hin : inside 1 last [] = [] := if_neg hall
      rw [hin] at h
      cases h
  | cons o os ih =>
    by_cases hall : (fileBytes (o :: os) last).length ≤ 1
    · have hone := length_texts_one o
      have hrest := length_texts os last
      rw [length_fileBytes_cons] at hall
      rw [(outside_of_le (by rw [length_fileBytes_cons]; exact hall)).2, List.cons_append,
        ← List.singleton_append, texts_append, List.length_append] at h
      omega
    · have hin : inside 1 last (o :: os) = inside 1 last os := if_neg hall
      rw [hin] at h
      exact ih h

theorem nonBlankLines_one_byte (os : List JsonLine) (h : EndsInOne last) :
    nonBlankLines (window 1 (fileBytes os last)) = [last.text] := by
  obtain ⟨hlen, hblank⟩ := h
  have hwin : window 1 (fileBytes os last) = last.bytes := by
    rw [fileBytes, window_append _ (by omega), window_all (by omega)]
  have hone := nonBlankLines_one (decode_line last ▸ last.oneLine)
  rw [decode_line] at hone
  rw [hwin, hone]
  simp [hblank]

/-- The window shows the last lines when no line before it has anything to show,
or when one line was asked for and the last byte is one. -/
theorem window_iff {n : Nat} (hn : 1 ≤ n) (os : List JsonLine) (last : JsonLine) :
    nonBlankLines (window n (fileBytes os last)) = lastLines n (nonBlankLines (fileBytes os last)) ↔
      (∀ o ∈ outside n last os, notBlank o.text = false) ∨ (n = 1 ∧ EndsInOne last) := by
  obtain ⟨cut, hwin, hpiece⟩ := nonBlankLines_window n last os
  have hall : nonBlankLines (fileBytes os last) = texts (outside n last os) ++ texts (inside n last os) := by
    rw [nonBlankLines_file, ← outside_append_inside (n := n), texts_append]
  have hfew := length_texts_inside n last os
  rw [← texts_eq_nil_iff]
  constructor
  · intro h
    rw [hwin, hall, lastLines] at h
    rw [or_iff_not_imp_left]
    intro hne
    have hpos : 0 < (texts (outside n last os)).length := List.length_pos_iff.mpr hne
    have hlen := congrArg List.length h
    rw [List.length_append, List.length_drop, List.length_append] at hlen
    rcases hpiece with rfl | ⟨before, o, p, rfl, hout, hpo⟩
    · simp only [List.length_nil] at hlen
      have hfull : (texts (inside n last os)).length = n := by omega
      have hone : n = 1 := by omega
      subst hone
      exact ⟨rfl, endsInOne_of_inside hfull⟩
    · -- a piece would have to be the whole line
      rw [hout] at h
      simp only [hout, List.length_append, List.length_singleton] at h hlen
      have hdrop : before.length + 1 + (texts (inside n last os)).length -
          min n (before.length + 1 + (texts (inside n last os)).length) = before.length := by
        omega
      rw [hdrop, List.append_assoc, List.drop_left] at h
      exact absurd (List.cons.inj h).1 hpo
  · rintro (hnil | ⟨rfl, hone⟩)
    · have hcut : cut = [] := by
        refine hpiece.resolve_right ?_
        rintro ⟨before, o, p, _, hout, _⟩
        rw [hnil] at hout
        exact absurd hout.symm (by simp)
      rw [hwin, hall, hcut, hnil, List.nil_append, lastLines, Nat.min_eq_right (by omega), Nat.sub_self]
      rfl
    · have hlast : nonBlankLines (fileBytes os last) = texts os ++ [last.text] := by
        rw [nonBlankLines_file, texts_append]
        simp [texts, hone.2]
      rw [nonBlankLines_one_byte os hone, hlast, lastLines, List.length_append, List.length_singleton,
        Nat.min_eq_left (by omega), Nat.add_sub_cancel, List.drop_left]

end

/-! ## The tool -/

theorem tailLines_eq (file : Bytes) (n : Nat) :
    tailLines (some file) n = nonBlankLines (window n file) := by
  have hread : ∀ m, readJsonlTailLines (some file) m = nonBlankLines (window m file) := by
    intro m
    have hm : file.length - min file.length m = file.length - m := by omega
    unfold readJsonlTailLines
    simp only [hm]
    rfl
  unfold tailLines
  simp only
  split
  · next hle =>
    have hle' : file.length ≤ n := by exact_mod_cast hle
    rw [hread, window_all (Nat.le_refl _), window_all hle']
  · rw [if_pos ⟨by simp, by positivity⟩, hread]
    simp

section
variable {w : ToolWorld} {args : Json} {path : JsString} {n : Nat} {rows : List JsonLine} {last : JsonLine}

/-- With a limit of `n` the tool returns the last `n` lines when no line that
begins before the last `n` bytes has anything to show; or else for `n = 1`,
when the last line is one byte. -/
theorem lines_iff (hpath : stringArg args (js "path") = some path) (hne : path ≠ [])
    (hlimit : numberArg args (js "limit") = some (n : Rat)) (hn : 1 ≤ n)
    (hfile : w.disk.bytes path = some (fileBytes rows last)) :
    transcriptLines (transcriptTool w args) =
        some (lastLines n (nonBlankLines (fileBytes rows last))) ↔
      (∀ o ∈ outside n last rows, notBlank o.text = false) ∨ (n = 1 ∧ EndsInOne last) := by
  have hrun : transcriptLines (transcriptTool w args) =
      some (tailLines (some (fileBytes rows last)) n) := by
    obtain ⟨u, s, rfl⟩ := List.exists_cons_of_ne_nil hne
    simp only [transcriptTool, withText, hpath, hlimit, hfile, Option.getD_some]
    rfl
  rw [hrun, tailLines_eq, Option.some.injEq, window_iff hn]

end

def lineOf (text : JsString) (ht : text.all (fun u => decide (u < 0x80)) = true) (hl : 10 ∉ text)
    (hj : text.all isJsonSpace = true ∨ (parse text).isSome = true) : JsonLine :=
  ⟨text, isText_of_all ht, hl, hj⟩

def lineA : JsonLine := lineOf (js "[\"a\"]") (by decide) (by decide) (by decide)
def lineB : JsonLine := lineOf (js "[\"b\"]") (by decide) (by decide) (by decide)
def noLine : JsonLine := lineOf [] (by decide) (by decide) (by decide)

/-- The two lines are all there is on the disk. -/
def twoLines : ToolWorld :=
  { quietWorld 0 with disk := fun _ => some ⟨fileBytes [lineA, lineB] noLine, 0⟩ }

def twoLinesArgs (limit : Nat) : Json :=
  .obj [(js "path", .str (js "/t.jsonl")), (js "limit", .num (.finite limit))]

theorem many_bytes : transcriptLines (transcriptTool twoLines (twoLinesArgs 20)) =
    some (lastLines 20 (nonBlankLines (fileBytes [lineA, lineB] noLine))) :=
  (lines_iff (show stringArg (twoLinesArgs 20) (js "path") = some (js "/t.jsonl") from rfl) (by decide)
    rfl (by decide) rfl).mpr (.inl (by decide))

/-- Two lines were asked for, and the last two bytes came. -/
theorem two_bytes : transcriptLines (transcriptTool twoLines (twoLinesArgs 2)) = some [js "]"] ∧
    lastLines 2 (nonBlankLines (fileBytes [lineA, lineB] noLine)) = [lineA.text, lineB.text] := by
  decide

end Conductor.Mcp.TranscriptLines
