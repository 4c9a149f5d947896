import Conductor.Lib.Framing
import Conductor.Js.Numerals

/-! # The text exposition format

Every line ends with a newline. A line that begins with `#` is a comment, an empty
line says nothing, and any other line is a sample: the name of a metric, its labels
between braces, a value, and perhaps a time. In the value of a label a backslash
stands before a backslash, a double quote or the letter n of a newline, and nowhere
else. -/
namespace Conductor.Timeseries.TextFormat
open Conductor.Lib.Framing Conductor.Js.Text Conductor.Js.Number Conductor.Js.JsonText Conductor.Js.Numerals

structure Series where
  name : JsString
  labels : List (JsString × JsString)
  value : JsNumber
  /-- Milliseconds, when the line has a time. -/
  timestamp : Option Int
  deriving DecidableEq

def Series.key (s : Series) : JsString × List (JsString × JsString) := (s.name, s.labels)

/-! ## The grammar -/

def isBlank (u : UInt16) : Bool := u == 0x20 || u == 9

def isLetter (u : UInt16) : Bool := (0x41 ≤ u && u ≤ 0x5A) || (0x61 ≤ u && u ≤ 0x7A)

/-- `[a-zA-Z_]`, and then digits as well. -/
def isLabelStart (u : UInt16) : Bool := isLetter u || u == 0x5F
def isLabelUnit (u : UInt16) : Bool := isLabelStart u || isDigit u

/-- The name of a metric may hold colons. -/
def isNameStart (u : UInt16) : Bool := isLabelStart u || u == 0x3A
def isNameUnit (u : UInt16) : Bool := isNameStart u || isDigit u

def skipBlanks (s : JsString) : JsString := s.dropWhile isBlank

def parseName (start unit : UInt16 → Bool) : JsString → Option (JsString × JsString)
  | u :: s => if start u then some (u :: s.takeWhile unit, s.dropWhile unit) else none
  | [] => none

/-- The unit that an escape stands for. -/
def unescape (u : UInt16) : Option UInt16 :=
  if u = 0x5C ∨ u = 0x22 then some u else if u = 0x6E then some 10 else none

/-- Up to the closing quote. -/
def parseLabelValue : JsString → Option (JsString × JsString)
  | [] => none
  | u :: s =>
    if u = 0x22 then some ([], s)
    else if u = 0x5C then
      match s with
      | [] => none
      | c :: s => do
        let v ← unescape c
        let (value, rest) ← parseLabelValue s
        return (v :: value, rest)
    else do
      let (value, rest) ← parseLabelValue s
      return (u :: value, rest)

def parseLabel (s : JsString) : Option ((JsString × JsString) × JsString) := do
  let (name, s) ← parseName isLabelStart isLabelUnit s
  let s ← expect (js "=") (skipBlanks s)
  let s ← expect (js "\"") (skipBlanks s)
  let (value, s) ← parseLabelValue s
  return ((name, value), skipBlanks s)

/-- What follows the opening brace, at most so many labels; a comma may end them. -/
def parseLabels : Nat → JsString → Option (List (JsString × JsString) × JsString)
  | 0, _ => none
  | fuel + 1, s =>
    let s := skipBlanks s
    if s.head? = some 0x7D then some ([], s.tail)
    else do
      let (label, s) ← parseLabel s
      if s.head? = some 0x2C then do
        let (labels, s) ← parseLabels fuel s.tail
        return (label :: labels, s)
      else if s.head? = some 0x7D then return ([label], s.tail)
      else none

/-- A decimal, or one of the three words. -/
def valueOf (token : JsString) : Option JsNumber :=
  if token = js "NaN" then some .nan
  else if token = js "+Inf" then some (.infinity false)
  else if token = js "-Inf" then some (.infinity true)
  else match parseNumber token with
    | some (n, []) => some n
    | _ => none

/-- Nothing, or the digits of an integer. -/
def timestampOf (s : JsString) : Option (Option Int) :=
  let digits := if s.head? = some 0x2D then s.tail else s
  if s = [] then some none
  else if digits = [] ∨ digits.any (!isDigit ·) then none
  else some (some (if s.head? = some 0x2D then -(digitsValue digits : Int) else digitsValue digits))

def parseBraces (s : JsString) : Option (List (JsString × JsString) × JsString) :=
  if s.head? = some 0x7B then parseLabels s.length s.tail else some ([], s)

/-- The value, and the time if there is one. -/
def parseReading (s : JsString) : Option (JsNumber × Option Int) := do
  let s := skipBlanks s
  let value ← valueOf (s.takeWhile (!isBlank ·))
  let timestamp ← timestampOf ((skipBlanks (s.dropWhile (!isBlank ·))).rdropWhile isBlank)
  return (value, timestamp)

def parseSample (line : JsString) : Option Series := do
  let (name, s) ← parseName isNameStart isNameUnit line
  let (labels, s) ← parseBraces (skipBlanks s)
  let (value, timestamp) ← parseReading s
  return { name, labels, value, timestamp }

/-- A comment or an empty line has no sample. -/
def parseLine (line : JsString) : Option (List Series) :=
  let s := skipBlanks line
  if s = [] ∨ s.head? = some 0x23 then some [] else (parseSample s).map fun series => [series]

def parseLines : List JsString → Option (List Series)
  | [] => some []
  | line :: lines => do
    let series ← parseLine line
    let rest ← parseLines lines
    return series ++ rest

def parseBody (body : JsString) : Option (List Series) :=
  if body = [] ∨ body.getLast? = some 10 then parseLines (records 10 body) else none

/-! ## Lines -/

theorem parseLines_append {ls ms : List JsString} {ss ts : List Series} (hs : parseLines ls = some ss)
    (ht : parseLines ms = some ts) : parseLines (ls ++ ms) = some (ss ++ ts) := by
  induction ls generalizing ss with
  | nil =>
    cases hs
    exact ht
  | cons l ls ih =>
    obtain ⟨series, hl, hs⟩ := Option.bind_eq_some_iff.mp hs
    obtain ⟨rest, hrest, hs⟩ := Option.bind_eq_some_iff.mp hs
    cases hs
    simp [parseLines, hl, ih hrest]

theorem parseLines_comment {line : JsString} (h : line.head? = some 0x23) (ls : List JsString) :
    parseLines (line :: ls) = parseLines ls := by
  obtain ⟨text, rfl⟩ := List.head?_eq_some_iff.mp h
  have hline : parseLine (0x23 :: text) = some [] := rfl
  simp [parseLines, hline]

theorem parseLines_one {line : JsString} {s : Series} (h : parseLine line = some [s]) :
    parseLines [line] = some [s] := by
  simp [parseLines, h]

theorem parseLines_map {α : Type*} {l : List α} {line : α → JsString} {series : α → Series}
    (h : ∀ a ∈ l, parseLine (line a) = some [series a]) : parseLines (l.map line) = some (l.map series) := by
  induction l with
  | nil => rfl
  | cons a l ih =>
    have hrest := ih fun b hb => h b (List.mem_cons_of_mem a hb)
    simp [parseLines, h a List.mem_cons_self, hrest]

theorem parseBody_frame {ls : List JsString} (h : ∀ l ∈ ls, 10 ∉ l) : parseBody (frame 10 ls) = parseLines ls := by
  have hend : frame 10 ls = [] ∨ (frame 10 ls).getLast? = some 10 := by
    induction ls using List.reverseRecOn with
    | nil => exact .inl rfl
    | append_singleton ls l _ =>
      right
      rw [frame_append, frame_singleton, ← List.append_assoc, List.getLast?_concat]
  rw [parseBody, if_pos hend, records_frame h]

/-! ## Samples -/

/-- A label value with its escapes. -/
def escapeUnit (u : UInt16) : JsString :=
  if u = 0x5C then js "\\\\" else if u = 0x22 then js "\\\"" else if u = 10 then js "\\n" else [u]

theorem parseLabelValue_quote (rest : JsString) : parseLabelValue (0x22 :: rest) = some ([], rest) := by
  rw [parseLabelValue.eq_def]
  rfl

theorem parseLabelValue_plain {u : UInt16} (hb : u ≠ 0x5C) (hq : u ≠ 0x22) (s : JsString) :
    parseLabelValue (u :: s) = (parseLabelValue s).map fun r => (u :: r.1, r.2) := by
  rw [parseLabelValue.eq_def]
  simp only [if_neg hq, if_neg hb]
  cases parseLabelValue s <;> rfl

theorem parseLabelValue_escaped (v rest : JsString) :
    parseLabelValue (v.flatMap escapeUnit ++ 0x22 :: rest) = some (v, rest) := by
  induction v with
  | nil => exact parseLabelValue_quote rest
  | cons u v ih =>
    rw [List.flatMap_cons, List.append_assoc, escapeUnit]
    by_cases hb : u = 0x5C
    · subst hb
      show parseLabelValue (0x5C :: 0x5C :: (v.flatMap escapeUnit ++ 0x22 :: rest)) = _
      simp [parseLabelValue, unescape, ih]
    · by_cases hq : u = 0x22
      · subst hq
        show parseLabelValue (0x5C :: 0x22 :: (v.flatMap escapeUnit ++ 0x22 :: rest)) = _
        simp [parseLabelValue, unescape, ih]
      · by_cases hn : u = 10
        · subst hn
          show parseLabelValue (0x5C :: 0x6E :: (v.flatMap escapeUnit ++ 0x22 :: rest)) = _
          simp [parseLabelValue, unescape, ih]
        · rw [if_neg hb, if_neg hq, if_neg hn, List.singleton_append, parseLabelValue_plain hb hq, ih]
          rfl

def IsName (start unit : UInt16 → Bool) (name : JsString) : Prop :=
  ∃ u s, name = u :: s ∧ start u = true ∧ ∀ w ∈ s, unit w = true

theorem isName_of {start unit : UInt16 → Bool} {name : JsString}
    (h : (name.head?.any start && name.tail.all unit) = true) : IsName start unit name := by
  rw [Bool.and_eq_true, List.all_eq_true] at h
  cases name with
  | nil => cases h.1
  | cons u s => exact ⟨u, s, rfl, h⟩

theorem parseName_append {start unit : UInt16 → Bool} {name : JsString} (h : IsName start unit name) {u : UInt16}
    (hu : unit u = false) (rest : JsString) : parseName start unit (name ++ u :: rest) = some (name, u :: rest) := by
  obtain ⟨v, s, rfl, hv, hs⟩ := h
  rw [List.cons_append, parseName, if_pos hv, List.takeWhile_append_of_pos hs, List.dropWhile_append_of_pos hs]
  simp [hu]

/-- `name="value"`. -/
def labelText (l : JsString × JsString) : JsString := l.1 ++ 0x3D :: 0x22 :: (l.2.flatMap escapeUnit ++ [0x22])

theorem parseLabel_text {l : JsString × JsString} (h : IsName isLabelStart isLabelUnit l.1) {u : UInt16}
    (hu : isBlank u = false) (rest : JsString) : parseLabel (labelText l ++ u :: rest) = some (l, u :: rest) := by
  have htext : labelText l ++ u :: rest =
      l.1 ++ 0x3D :: 0x22 :: (l.2.flatMap escapeUnit ++ 0x22 :: u :: rest) := by
    simp [labelText]
  have hblank : skipBlanks (u :: rest) = u :: rest := by simp [skipBlanks, hu]
  rw [htext, parseLabel, parseName_append h (by decide)]
  have hequals : ∀ t, expect (js "=") (skipBlanks (0x3D :: t)) = some t := fun _ => rfl
  have hquote : ∀ t, expect (js "\"") (skipBlanks (0x22 :: t)) = some t := fun _ => rfl
  simp [hequals, hquote, parseLabelValue_escaped, hblank]

/-- The labels up to the closing brace. -/
def labelsText : List (JsString × JsString) → JsString
  | [] => [0x7D]
  | [l] => labelText l ++ [0x7D]
  | l :: ls => labelText l ++ 0x2C :: labelsText ls

theorem isNameStart_of_label {u : UInt16} (h : isLabelStart u = true) : isNameStart u = true := by
  rw [isNameStart, h, Bool.true_or]

theorem not_blank_of_start {u : UInt16} (h : isNameStart u = true) : isBlank u = false := by
  refine Bool.eq_false_iff.mpr fun hblank => ?_
  obtain rfl | rfl : u = 0x20 ∨ u = 9 := by simpa [isBlank] using hblank
  · cases h
  · cases h

theorem head_labelText {l : JsString × JsString} (h : IsName isLabelStart isLabelUnit l.1) (rest : JsString) :
    skipBlanks (labelText l ++ rest) = labelText l ++ rest ∧ (labelText l ++ rest).head? ≠ some 0x7D := by
  obtain ⟨u, s, hname, hu, -⟩ := h
  have hbrace : u ≠ 0x7D := by
    rintro rfl
    cases hu
  rw [labelText, hname]
  simp [skipBlanks, not_blank_of_start (isNameStart_of_label hu), hbrace]

theorem parseLabels_text {ls : List (JsString × JsString)} (h : ∀ l ∈ ls, IsName isLabelStart isLabelUnit l.1)
    {fuel : Nat} (hfuel : ls.length < fuel) (rest : JsString) :
    parseLabels fuel (labelsText ls ++ rest) = some (ls, rest) := by
  induction fuel generalizing ls with
  | zero => omega
  | succ fuel ih =>
    cases ls with
    | nil => rfl
    | cons l ls =>
      have hl : IsName isLabelStart isLabelUnit l.1 := h l List.mem_cons_self
      cases ls with
      | nil =>
        rw [labelsText, List.append_assoc, parseLabels, List.singleton_append]
        obtain ⟨hskip, hbrace⟩ := head_labelText hl (0x7D :: rest)
        simp only [hskip, if_neg hbrace]
        rw [parseLabel_text hl (by decide)]
        rfl
      | cons m ls =>
        rw [labelsText, List.append_assoc, parseLabels]
        · obtain ⟨hskip, hbrace⟩ := head_labelText hl (0x2C :: labelsText (m :: ls) ++ rest)
          have hrest := ih (fun k hk => h k (List.mem_cons_of_mem l hk)) (by simpa using hfuel)
          simp only [hskip, if_neg hbrace]
          rw [List.cons_append, parseLabel_text hl (by decide)]
          simp [hrest]
        · simp

theorem length_labelsText (ls : List (JsString × JsString)) : ls.length < (labelsText ls).length := by
  have hlabel : ∀ l, 0 < (labelText l).length := by
    intro l
    rw [labelText, List.length_append, List.length_cons]
    omega
  induction ls with
  | nil => decide
  | cons l ls ih =>
    have hpos := hlabel l
    cases ls with
    | nil =>
      rw [labelsText, List.length_append, List.length_singleton, List.length_singleton]
      omega
    | cons m ls =>
      rw [labelsText]
      · rw [List.length_append, List.length_cons]
        show (m :: ls).length + 1 < (labelText l).length + ((labelsText (m :: ls)).length + 1)
        omega
      · simp

theorem skipBlanks_plain {value : JsString} (hplain : ∀ u ∈ value, isBlank u = false) : skipBlanks value = value := by
  refine List.dropWhile_eq_self_iff.mpr fun hpos hblank => ?_
  rw [hplain _ (List.getElem_mem hpos)] at hblank
  cases hblank

theorem parseReading_text {value : JsString} {v : JsNumber} (hvalue : valueOf value = some v)
    (hplain : ∀ u ∈ value, isBlank u = false) : parseReading value = some (v, none) := by
  have hall : ∀ u ∈ value, (!isBlank u) = true := fun u hu => by rw [hplain u hu]; rfl
  have htake : value.takeWhile (!isBlank ·) = value := List.takeWhile_eq_self_iff.mpr hall
  have hdrop : value.dropWhile (!isBlank ·) = [] := List.dropWhile_eq_nil_iff.mpr hall
  rw [parseReading]
  simp only [skipBlanks_plain hplain, htake, hdrop, hvalue]
  rfl

/-- A value does not begin like labels. -/
theorem head_value {value : JsString} {v : JsNumber} (hvalue : valueOf value = some v) : value.head? ≠ some 0x7B := by
  intro hhead
  obtain ⟨s, rfl⟩ := List.head?_eq_some_iff.mp hhead
  have hnone : valueOf (0x7B :: s) = none := rfl
  rw [hnone] at hvalue
  cases hvalue

/-- The name, the labels in braces if there are any, and the value. -/
def sampleText (name : JsString) (labels : List (JsString × JsString)) (value : JsString) : JsString :=
  name ++ ((if labels = [] then [] else 0x7B :: labelsText labels) ++ 0x20 :: value)

section Sample

variable {name value : JsString} {labels : List (JsString × JsString)} {v : JsNumber}
variable (hname : IsName isNameStart isNameUnit name)
variable (hlabels : ∀ l ∈ labels, IsName isLabelStart isLabelUnit l.1)
variable (hvalue : valueOf value = some v) (hplain : ∀ u ∈ value, isBlank u = false)
include hname hlabels hvalue hplain

theorem parseSample_text : parseSample (sampleText name labels value) = some ⟨name, labels, v, none⟩ := by
  have hreading := parseReading_text hvalue hplain
  have hblank : skipBlanks (0x20 :: value) = value := skipBlanks_plain hplain
  unfold sampleText
  by_cases hnone : labels = []
  · subst hnone
    have hhead := parseName_append hname (show isNameUnit 0x20 = false by decide) value
    have hbraces : parseBraces value = some ([], value) := if_neg (head_value hvalue)
    rw [if_pos rfl, List.nil_append, parseSample, hhead]
    simp [hblank, hbraces, hreading]
  · have hhead := parseName_append hname (show isNameUnit 0x7B = false by decide)
      (labelsText labels ++ 0x20 :: value)
    have hbraces : parseBraces (skipBlanks (0x7B :: (labelsText labels ++ 0x20 :: value))) =
        some (labels, 0x20 :: value) := by
      have hfuel : labels.length < (0x7B :: (labelsText labels ++ 0x20 :: value)).length := by
        have hlen := length_labelsText labels
        rw [List.length_cons, List.length_append]
        omega
      exact parseLabels_text hlabels hfuel _
    have hspace : parseReading (0x20 :: value) = parseReading value := rfl
    rw [if_neg hnone, List.cons_append, parseSample, hhead]
    simp [hbraces, hspace, hreading]

theorem parseLine_text : parseLine (sampleText name labels value) = some [⟨name, labels, v, none⟩] := by
  have hsample := parseSample_text hname hlabels hvalue hplain
  obtain ⟨u, s, rfl, hu, -⟩ := hname
  have hskip : skipBlanks (sampleText (u :: s) labels value) = sampleText (u :: s) labels value := by
    rw [sampleText, List.cons_append, skipBlanks, List.dropWhile_cons_of_neg]
    rw [not_blank_of_start hu]
    exact Bool.false_ne_true
  have hcomment : u ≠ 0x23 := by
    rintro rfl
    cases hu
  rw [parseLine, hskip, if_neg, hsample]
  · rfl
  · simp [sampleText, hcomment]

end Sample

end Conductor.Timeseries.TextFormat
