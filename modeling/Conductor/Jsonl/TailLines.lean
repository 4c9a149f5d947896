import Conductor.Js.JsonAccepts
import Conductor.Js.JsonCut
import Conductor.Jsonl.Parser
import Conductor.Lib.Framing

/-! # The lines of a tail

A file of serialised objects, the last of which its writer may still be
writing, and a window on its last bytes. The window may begin in the middle of
a line and the writer may have stopped in the middle of one; a line that was
cut on one side is never taken for a record. -/
namespace Conductor.Jsonl.TailLines
open Conductor.Lib.Framing Conductor.Js.Text Conductor.Js.Values Conductor.Js.JsonText
open Conductor.Js.JsonAccepts Conductor.Js.JsonCut Conductor.Js.Utf8 Conductor.Js.Utf8Cut
open Conductor.Jsonl.Parser

structure JsonObject where
  members : List (JsString × Json)
  doubles : Doubles (.obj members)

def JsonObject.text (o : JsonObject) : JsString := stringify (.obj o.members)
def JsonObject.line (o : JsonObject) : Bytes := encode o.text

/-- Complete lines, then one of which the first `written` bytes are there. -/
structure JsonlFile where
  rows : List JsonObject
  last : JsonObject
  written : Nat
  le : written ≤ last.line.length

/-- What the rows and the bytes after them are on disk. -/
def fileOf (rows : List JsonObject) (tail : Bytes) : Bytes := frame 10 (rows.map (·.line)) ++ tail

def JsonlFile.tail (f : JsonlFile) : Bytes := f.last.line.take f.written
def JsonlFile.bytes (f : JsonlFile) : Bytes := fileOf f.rows f.tail

/-- The rows that lie in the last `n` bytes: from the first byte of such a row
to the end of the file there are no more. -/
def rowsInside (n : Nat) (tail : Bytes) : List JsonObject → List JsonObject
  | [] => []
  | o :: os =>
    if (fileOf (o :: os) tail).length ≤ n then o :: rowsInside n tail os else rowsInside n tail os

/-- The complete lines that lie wholly inside the last `n` bytes. -/
def JsonlFile.inside (f : JsonlFile) (n : Nat) : List JsonObject :=
  rowsInside n f.tail f.rows ++
    if f.written = f.last.line.length ∧ f.written ≤ n then [f.last] else []

/-- The lines of the tail that `JSON.parse` accepts. -/
def acceptedLines (file : Bytes) (maxBytes : Nat) : List JsString :=
  (readJsonlTailLines (some file) maxBytes).filter fun l => (parse l).isSome

/-- The window begins inside the line that is still being written. -/
def CutsUnfinished (f : JsonlFile) (n : Nat) : Prop :=
  0 < n ∧ n < f.written ∧ f.written < f.last.line.length

/-! ## Line by line -/

/-- A line is kept and is a record. -/
def keeps (l : JsString) : Bool := !(trim l).isEmpty && (parse l).isSome

def accepted (bytes : Bytes) : List JsString := (lines (decode bytes)).filter keeps

def window (n : Nat) (bytes : Bytes) : Bytes := bytes.drop (bytes.length - n)

theorem acceptedLines_eq (file : Bytes) (n : Nat) : acceptedLines file n = accepted (window n file) := by
  have hn : file.length - min file.length n = file.length - n := by omega
  unfold acceptedLines readJsonlTailLines accepted window
  simp only [hn, List.filter_filter]
  exact List.filter_congr fun l _ => Bool.and_comm _ _

theorem accepted_cons {a : Bytes} (b : Bytes) (h : 10 ∉ decode a) :
    accepted (a ++ 10 :: b) = (if keeps (decode a) then [decode a] else []) ++ accepted b := by
  rw [accepted, decode_newline, lines_cons h, List.filter_cons]
  split
  · rfl
  · rfl

theorem accepted_one {a : Bytes} (h : 10 ∉ decode a) :
    accepted a = if keeps (decode a) then [decode a] else [] := by
  rw [accepted, lines_of_not_mem h, List.filter_cons]
  rfl

/-! ## One object -/

theorem newline_not_mem_text (o : JsonObject) : 10 ∉ o.text := by
  intro h
  exact absurd (printable_stringify (.obj o.members) 10 h) (by decide)

theorem newline_not_mem_slice (o : JsonObject) {i : Nat} (hi : i ≤ o.line.length) (j : Nat) :
    10 ∉ decode ((o.line.drop i).take j) := by
  obtain ⟨cs, hcs, ht⟩ := kept_stringify isText_kept (.obj o.members)
  intro hmem
  have hline : o.line = bytes cs := by
    rw [JsonObject.line, JsonObject.text, ht, encode_units hcs]
  rw [hline] at hi hmem
  have hu := mem_decode_slice hcs hi j (by decide) hmem
  rw [← ht] at hu
  exact newline_not_mem_text o hu

theorem decode_line (o : JsonObject) : decode o.line = o.text := decode_encode_stringify (.obj o.members)

theorem trim_text (o : JsonObject) : (trim o.text).isEmpty = false := by
  have htext : o.text = (0x7B :: commas (stringifyMembers o.members)) ++ [0x7D] := rfl
  have hstart : trimStart o.text = o.text := by
    rw [htext]
    rfl
  have hend : trimEnd o.text = o.text := by
    rw [htext]
    exact List.rdropWhile_concat_neg isWhiteSpace _ _ (by decide)
  rw [trim, hstart, hend, htext]
  rfl

theorem keeps_text (o : JsonObject) : keeps o.text = true := by
  have hparse : (parse o.text).isSome = true := parse_stringify o.doubles
  rw [keeps, hparse, trim_text]
  rfl

theorem keeps_drop (o : JsonObject) {i : Nat} (hi : 0 < i) (hle : i ≤ o.line.length) :
    keeps (decode (o.line.drop i)) = false := by
  rw [keeps, JsonObject.line, JsonObject.text, parse_drop_bytes o.members hi hle]
  simp

theorem keeps_take (o : JsonObject) {i : Nat} (hlt : i < o.line.length) :
    keeps (decode (o.line.take i)) = false := by
  rw [keeps, JsonObject.line, JsonObject.text, parse_take_bytes o.members hlt]
  simp

/-! ## The window -/

theorem window_all {n : Nat} {b : Bytes} (h : b.length ≤ n) : window n b = b := by
  rw [window, Nat.sub_eq_zero_of_le h]
  rfl

theorem window_append {n : Nat} (a : Bytes) {b : Bytes} (h : n ≤ b.length) :
    window n (a ++ b) = window n b := by
  have hsub : (a ++ b).length - n = a.length + (b.length - n) := by
    rw [List.length_append]
    omega
  rw [window, hsub, List.drop_append, List.drop_eq_nil_of_le (by omega), List.nil_append,
    Nat.add_sub_cancel_left, window]

theorem fileOf_cons (o : JsonObject) (os : List JsonObject) (tail : Bytes) :
    fileOf (o :: os) tail = o.line ++ 10 :: fileOf os tail := by
  simp [fileOf, frame]

theorem length_fileOf_cons (o : JsonObject) (os : List JsonObject) (tail : Bytes) :
    (fileOf (o :: os) tail).length = o.line.length + 1 + (fileOf os tail).length := by
  rw [fileOf_cons, List.length_append, List.length_cons]
  omega

/-- Row by row: the window holds a row, or begins in it, or begins after it. -/
theorem accepted_window (n : Nat) (tail : Bytes) (rows : List JsonObject) :
    accepted (window n (fileOf rows tail)) =
      (rowsInside n tail rows).map (·.text) ++ accepted (window n tail) := by
  induction rows with
  | nil => rfl
  | cons o os ih =>
    have hlen := length_fileOf_cons o os tail
    have hdec : 10 ∉ decode o.line := by
      rw [decode_line]
      exact newline_not_mem_text o
    by_cases hall : (fileOf (o :: os) tail).length ≤ n
    · have hrest : window n (fileOf os tail) = fileOf os tail := window_all (by omega)
      rw [hrest] at ih
      rw [window_all hall, rowsInside, if_pos hall, fileOf_cons, accepted_cons _ hdec, ih, decode_line,
        keeps_text]
      rfl
    · rw [rowsInside, if_neg hall, ← ih]
      by_cases hnone : n ≤ (fileOf os tail).length
      · rw [fileOf_cons, show o.line ++ 10 :: fileOf os tail = (o.line ++ [10]) ++ fileOf os tail by simp,
          window_append _ hnone]
      · -- the window begins in the middle of this row
        have hi : 0 < (fileOf (o :: os) tail).length - n := by omega
        have hle : (fileOf (o :: os) tail).length - n ≤ o.line.length := by omega
        have hcut := newline_not_mem_slice o hle (o.line.length)
        rw [List.take_of_length_le (by rw [List.length_drop]; omega)] at hcut
        have hrest : window n (fileOf os tail) = fileOf os tail := window_all (by omega)
        have hwin : window n (fileOf (o :: os) tail) =
            o.line.drop ((fileOf (o :: os) tail).length - n) ++ 10 :: fileOf os tail := by
          rw [window, ← List.drop_append_of_le_length hle, ← fileOf_cons]
        rw [hrest, hwin, accepted_cons _ hcut, keeps_drop o hi hle]
        rfl

theorem accepted_nil : accepted [] = [] := by
  decide

theorem newline_not_mem_take (o : JsonObject) (i : Nat) : 10 ∉ decode (o.line.take i) := by
  have h := newline_not_mem_slice o (Nat.zero_le _) i
  rwa [List.drop_zero] at h

theorem length_tail (f : JsonlFile) : f.tail.length = f.written := by
  rw [JsonlFile.tail, List.length_take]
  exact Nat.min_eq_left f.le

/-- The line at the end of the file. -/
theorem accepted_tail {f : JsonlFile} {n : Nat} (h : ¬ CutsUnfinished f n) :
    accepted (window n f.tail) =
      (if f.written = f.last.line.length ∧ f.written ≤ n then [f.last] else []).map (·.text) := by
  have hlen := length_tail f
  by_cases hdone : f.written = f.last.line.length
  · have htail : f.tail = f.last.line := by
      rw [JsonlFile.tail, hdone, List.take_length]
    rw [htail]
    by_cases hfit : f.written ≤ n
    · have hone := accepted_one (decode_line f.last ▸ newline_not_mem_text f.last)
      rw [decode_line, keeps_text] at hone
      rw [if_pos ⟨hdone, hfit⟩, window_all (by omega), hone]
      rfl
    · have hi : 0 < f.last.line.length - n := by omega
      have hcut := newline_not_mem_slice f.last (Nat.sub_le _ n) f.last.line.length
      rw [List.take_of_length_le (by rw [List.length_drop]; omega)] at hcut
      have hone := accepted_one hcut
      rw [keeps_drop f.last hi (Nat.sub_le _ n)] at hone
      rw [if_neg fun hc => hfit hc.2, window, hone]
      rfl
  · have hlt : f.written < f.last.line.length := lt_of_le_of_ne f.le hdone
    rw [if_neg fun hc => hdone hc.1]
    by_cases hfit : f.written ≤ n
    · have hone := accepted_one (newline_not_mem_take f.last f.written)
      rw [keeps_take f.last hlt] at hone
      rw [window_all (by omega), JsonlFile.tail, hone]
      rfl
    · have hz : n = 0 := by
        by_contra hne
        exact h ⟨by omega, by omega, hlt⟩
      rw [hz, window, Nat.sub_zero, List.drop_length, accepted_nil]
      rfl

theorem rowsInside_eq_nil {n : Nat} {tail : Bytes} (h : n < tail.length) (rows : List JsonObject) :
    rowsInside n tail rows = [] := by
  induction rows with
  | nil => rfl
  | cons o os ih =>
    have hle : tail.length ≤ (fileOf (o :: os) tail).length := by
      rw [fileOf, List.length_append]
      omega
    rw [rowsInside, if_neg (by omega), ih]

/-- A window inside the unfinished line is one line, the last bytes of it. -/
theorem lines_of_cutsUnfinished {f : JsonlFile} {n : Nat} (h : CutsUnfinished f n) :
    readJsonlTailLines (some f.bytes) n =
      [decode (window n f.tail)].filter fun l => !(trim l).isEmpty := by
  obtain ⟨_, hlt, hwritten⟩ := h
  have hlen := length_tail f
  have hn : f.bytes.length - min f.bytes.length n = f.bytes.length - n := by omega
  have hwin : window n f.bytes = window n f.tail := by
    rw [JsonlFile.bytes, fileOf, window_append _ (by omega)]
  have hcut : window n f.tail = (f.last.line.drop (f.written - n)).take n := by
    rw [window, hlen, JsonlFile.tail, List.drop_take]
    congr 1
    omega
  have hslice := newline_not_mem_slice f.last (show f.written - n ≤ f.last.line.length by omega) n
  rw [← hcut] at hslice
  unfold readJsonlTailLines
  simp only [hn]
  rw [← window, hwin, lines_of_not_mem hslice]

/-- Unless the window begins inside the line that is still being written, the
lines that are accepted are the complete lines inside the window, in order. In
that one case no complete line lies in the window, and the one line returned,
unless it is blank, is the last bytes of the unfinished one. -/
theorem accepted_lines_inside (f : JsonlFile) (maxBytes : Nat) :
    (¬ CutsUnfinished f maxBytes →
      acceptedLines f.bytes maxBytes = (f.inside maxBytes).map (·.text)) ∧
    (CutsUnfinished f maxBytes →
      f.inside maxBytes = [] ∧ readJsonlTailLines (some f.bytes) maxBytes =
        [decode (window maxBytes f.tail)].filter fun l => !(trim l).isEmpty) := by
  constructor
  · intro h
    rw [acceptedLines_eq, JsonlFile.bytes, accepted_window, accepted_tail h, JsonlFile.inside,
      List.map_append]
  · intro h
    have hlt : maxBytes < f.tail.length := by
      rw [length_tail]
      exact h.2.1
    refine ⟨?_, lines_of_cutsUnfinished h⟩
    rw [JsonlFile.inside, rowsInside_eq_nil hlt, if_neg fun hc => absurd hc.2 (not_le.mpr h.2.1)]
    rfl

/-! ## A line inside a line -/

def emptyInside : JsonObject := ⟨[(js "a", .obj [])], trivial, trivial⟩

/-- `{"a":{}}` on a line, and again without its last byte. -/
def oneUnfinished : JsonlFile := ⟨[emptyInside], emptyInside, 7, by decide⟩

/-- A window of ten bytes begins in the complete line, and both lines are cut. -/
theorem both_lines_cut : acceptedLines oneUnfinished.bytes 10 = (oneUnfinished.inside 10).map (·.text) :=
  (accepted_lines_inside oneUnfinished 10).1 fun h => absurd h.2.1 (by decide)

/-- The last two bytes are an object that nobody wrote as a line. -/
theorem inner_object_accepted :
    ¬ ∀ (f : JsonlFile) (maxBytes : Nat),
      acceptedLines f.bytes maxBytes = (f.inside maxBytes).map (·.text) := by
  intro h
  have hlines : acceptedLines oneUnfinished.bytes 2 = [js "\x7b\x7d"] := by decide +kernel
  have hinside : (oneUnfinished.inside 2).map (·.text) = [] := by decide +kernel
  have hfile := h oneUnfinished 2
  rw [hlines, hinside] at hfile
  cases hfile

end Conductor.Jsonl.TailLines
