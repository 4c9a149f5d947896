import Conductor.Js.Values

/-! # `JSON.parse` and `JSON.stringify`

The parser is the grammar of the standard by recursive descent. Its fuel is
twice the length of the text: every second nested call consumes a unit. -/
namespace Conductor.Js.JsonText
open Conductor.Js.Text Conductor.Js.Number Conductor.Js.Values

/-- `CreateDataProperty`: a repeated key keeps its place and takes the new value. -/
def setMember (members : List (JsString × Json)) (key : JsString) (value : Json) :
    List (JsString × Json) :=
  if members.any (·.1 == key) then
    members.map fun m => if m.1 == key then (key, value) else m
  else members ++ [(key, value)]

def mkObject (members : List (JsString × Json)) : Json :=
  .obj (members.foldl (fun acc m => setMember acc m.1 m.2) [])

/-! ## Parsing -/

def isJsonSpace (u : UInt16) : Bool := u == 0x20 || u == 9 || u == 10 || u == 13

def skipSpace (s : JsString) : JsString := s.dropWhile isJsonSpace

def hexValue (u : UInt16) : Option Nat :=
  if isDigit u then some (u.toNat - 0x30)
  else if 0x61 ≤ u ∧ u ≤ 0x66 then some (u.toNat - 0x61 + 10)
  else if 0x41 ≤ u ∧ u ≤ 0x46 then some (u.toNat - 0x41 + 10)
  else none

/-- The unit of a one-letter escape. -/
def escapeValue (u : UInt16) : Option UInt16 :=
  if u = 0x22 then some 0x22 else if u = 0x5C then some 0x5C else if u = 0x2F then some 0x2F
  else if u = 0x62 then some 8 else if u = 0x66 then some 12 else if u = 0x6E then some 10
  else if u = 0x72 then some 13 else if u = 0x74 then some 9 else none

/-- The units of a string literal after its opening quote, and the rest. -/
def parseString : JsString → Option (JsString × JsString)
  | [] => none
  | u :: rest =>
    if u = 0x22 then some ([], rest)
    else if u < 0x20 then none
    else if u = 0x5C then
      match rest with
      | [] => none
      | e :: rest' =>
        if e = 0x75 then
          match rest' with
          | a :: b :: c :: d :: more => do
            let w ← hexValue a
            let x ← hexValue b
            let y ← hexValue c
            let z ← hexValue d
            let (s, out) ← parseString more
            return (UInt16.ofNat (((w * 16 + x) * 16 + y) * 16 + z) :: s, out)
          | _ => none
        else do
          let v ← escapeValue e
          let (s, out) ← parseString rest'
          return (v :: s, out)
    else do
      let (s, out) ← parseString rest
      return (u :: s, out)

/-- The digits of an integer part: `0` or a run that does not start with it. -/
def parseWhole : JsString → Option (JsString × JsString)
  | [] => none
  | u :: rest =>
    if u = 0x30 then some ([u], rest)
    else if isDigit u then some (u :: rest.takeWhile isDigit, rest.dropWhile isDigit)
    else none

/-- An optional fraction. -/
def parseFraction : JsString → Option (JsString × JsString)
  | u :: rest =>
    if u = 0x2E then
      let ds := rest.takeWhile isDigit
      if ds.isEmpty then none else some (ds, rest.dropWhile isDigit)
    else some ([], u :: rest)
  | [] => some ([], [])

/-- An optional exponent. -/
def parseExponent : JsString → Option (Int × JsString)
  | u :: rest =>
    if u = 0x65 ∨ u = 0x45 then
      let negative := rest.head? = some 0x2D
      let ds := if rest.head? = some 0x2D ∨ rest.head? = some 0x2B then rest.tail else rest
      let run := ds.takeWhile isDigit
      if run.isEmpty then none
      else some (if negative then -(digitsValue run : Int) else digitsValue run, ds.dropWhile isDigit)
    else some (0, u :: rest)
  | [] => some (0, [])

def parseNumber (s : JsString) : Option (JsNumber × JsString) := do
  let negative := s.head? = some 0x2D
  let (whole, s₁) ← parseWhole (if negative then s.tail else s)
  let (fraction, s₂) ← parseFraction s₁
  let (exponent, s₃) ← parseExponent s₂
  return (nearestDouble (decimalValue negative whole fraction exponent), s₃)

/-- The rest after a fixed text. -/
def expect (text s : JsString) : Option JsString :=
  if text.isPrefixOf s then some (s.drop text.length) else none

theorem expect_iff {text s rest : JsString} : expect text s = some rest ↔ s = text ++ rest := by
  unfold expect
  rw [Option.ite_none_right_eq_some, List.isPrefixOf_iff_prefix]
  constructor
  · intro h
    obtain ⟨⟨r, rfl⟩, h⟩ := h
    cases h
    rw [List.drop_left]
  · intro h
    subst h
    exact ⟨List.prefix_append text rest, by rw [List.drop_left]⟩

mutual

def parseValue : Nat → JsString → Option (Json × JsString)
  | 0, _ => none
  | fuel + 1, s =>
    match skipSpace s with
    | [] => none
    | u :: rest =>
      if u = 0x7B then
        match skipSpace rest with
        | 0x7D :: rest' => some (.obj [], rest')
        | rest' => (parseMembers fuel rest').map fun (ms, out) => (mkObject ms, out)
      else if u = 0x5B then
        match skipSpace rest with
        | 0x5D :: rest' => some (.arr [], rest')
        | rest' => (parseElements fuel rest').map fun (xs, out) => (.arr xs, out)
      else if u = 0x22 then (parseString rest).map fun (t, out) => (.str t, out)
      else if u = 0x6E then (expect (js "null") (u :: rest)).map fun out => (.null, out)
      else if u = 0x74 then (expect (js "true") (u :: rest)).map fun out => (.bool true, out)
      else if u = 0x66 then (expect (js "false") (u :: rest)).map fun out => (.bool false, out)
      else (parseNumber (u :: rest)).map fun (n, out) => (.num n, out)

/-- The elements of a non-empty array, up to its closing bracket. -/
def parseElements : Nat → JsString → Option (List Json × JsString)
  | 0, _ => none
  | fuel + 1, s => do
    let (x, s₁) ← parseValue fuel s
    match skipSpace s₁ with
    | 0x2C :: s₂ =>
      let (xs, out) ← parseElements fuel s₂
      return (x :: xs, out)
    | 0x5D :: out => return ([x], out)
    | _ => none

/-- The members of a non-empty object, up to its closing brace. -/
def parseMembers : Nat → JsString → Option (List (JsString × Json) × JsString)
  | 0, _ => none
  | fuel + 1, s => do
    let rest ← expect [0x22] (skipSpace s)
    let (key, s₁) ← parseString rest
    let s₂ ← expect [0x3A] (skipSpace s₁)
    let (v, s₃) ← parseValue fuel s₂
    match skipSpace s₃ with
    | 0x2C :: s₄ =>
      let (ms, out) ← parseMembers fuel s₄
      return ((key, v) :: ms, out)
    | 0x7D :: out => return ([(key, v)], out)
    | _ => none

end

/-- `JSON.parse`; `none` is a `SyntaxError`. -/
def parse (text : JsString) : Option Json := do
  let (v, out) ← parseValue (2 * text.length + 1) text
  if (skipSpace out).isEmpty then some v else none

/-! ## What was read -/

/-- How a value begins, and what is left of the text. -/
inductive ReadsValue (fuel : Nat) (s : JsString) : Json → JsString → Prop
  | emptyObject {rest out : JsString} (hs : skipSpace s = 0x7B :: rest)
      (hrest : skipSpace rest = 0x7D :: out) : ReadsValue fuel s (.obj []) out
  | object {rest out : JsString} {ms : List (JsString × Json)} (hs : skipSpace s = 0x7B :: rest)
      (h : parseMembers fuel (skipSpace rest) = some (ms, out)) : ReadsValue fuel s (mkObject ms) out
  | emptyArray {rest out : JsString} (hs : skipSpace s = 0x5B :: rest)
      (hrest : skipSpace rest = 0x5D :: out) : ReadsValue fuel s (.arr []) out
  | array {rest out : JsString} {xs : List Json} (hs : skipSpace s = 0x5B :: rest)
      (h : parseElements fuel (skipSpace rest) = some (xs, out)) : ReadsValue fuel s (.arr xs) out
  | string {rest t out : JsString} (hs : skipSpace s = 0x22 :: rest)
      (h : parseString rest = some (t, out)) : ReadsValue fuel s (.str t) out
  | null {out : JsString} (h : expect (js "null") (skipSpace s) = some out) :
      ReadsValue fuel s .null out
  | bool {b : Bool} {out : JsString}
      (h : expect (js (if b then "true" else "false")) (skipSpace s) = some out) :
      ReadsValue fuel s (.bool b) out
  | number {n : JsNumber} {out : JsString} (h : parseNumber (skipSpace s) = some (n, out)) :
      ReadsValue fuel s (.num n) out

theorem readsValue_of_parseValue {fuel : Nat} {s out : JsString} {v : Json}
    (h : parseValue (fuel + 1) s = some (v, out)) : ReadsValue fuel s v out := by
  rw [parseValue] at h
  cases hs : skipSpace s with
  | nil => rw [hs] at h; cases h
  | cons u rest =>
    rw [hs] at h
    simp only at h
    split_ifs at h with h₁ h₂ h₃ h₄ h₅ h₆
    · subst h₁
      split at h
      · rename_i hrest
        cases h
        exact .emptyObject hs hrest
      · obtain ⟨⟨ms, out'⟩, hm, h⟩ := Option.map_eq_some_iff.mp h
        cases h
        exact .object hs hm
    · subst h₂
      split at h
      · rename_i hrest
        cases h
        exact .emptyArray hs hrest
      · obtain ⟨⟨xs, out'⟩, hm, h⟩ := Option.map_eq_some_iff.mp h
        cases h
        exact .array hs hm
    · subst h₃
      obtain ⟨⟨t, out'⟩, hm, h⟩ := Option.map_eq_some_iff.mp h
      cases h
      exact .string hs hm
    · obtain ⟨out', hm, h⟩ := Option.map_eq_some_iff.mp h
      cases h
      exact .null (hs ▸ hm)
    · obtain ⟨out', hm, h⟩ := Option.map_eq_some_iff.mp h
      cases h
      exact .bool (b := true) (hs ▸ hm)
    · obtain ⟨out', hm, h⟩ := Option.map_eq_some_iff.mp h
      cases h
      exact .bool (b := false) (hs ▸ hm)
    · obtain ⟨⟨n, out'⟩, hm, h⟩ := Option.map_eq_some_iff.mp h
      cases h
      exact .number (hs ▸ hm)

/-- The first element, and what follows it: another one, or the end. -/
theorem parseElements_cases {fuel : Nat} {s out : JsString} {xs : List Json}
    (h : parseElements (fuel + 1) s = some (xs, out)) :
    ∃ x s₁, parseValue fuel s = some (x, s₁) ∧
      ((∃ s₂ ys, skipSpace s₁ = 0x2C :: s₂ ∧ parseElements fuel s₂ = some (ys, out) ∧ xs = x :: ys) ∨
        (skipSpace s₁ = 0x5D :: out ∧ xs = [x])) := by
  rw [parseElements] at h
  obtain ⟨⟨x, s₁⟩, hx, h⟩ := Option.bind_eq_some_iff.mp h
  refine ⟨x, s₁, hx, ?_⟩
  simp only at h
  split at h
  · rename_i s₂ hcomma
    obtain ⟨⟨ys, out'⟩, hy, h⟩ := Option.bind_eq_some_iff.mp h
    cases h
    exact .inl ⟨s₂, ys, hcomma, hy, rfl⟩
  · rename_i hclose
    cases h
    exact .inr ⟨hclose, rfl⟩
  · cases h

/-- The first member, and what follows it: another one, or the end. -/
theorem parseMembers_cases {fuel : Nat} {s out : JsString} {ms : List (JsString × Json)}
    (h : parseMembers (fuel + 1) s = some (ms, out)) :
    ∃ rest key s₁ s₂ v s₃, expect [0x22] (skipSpace s) = some rest ∧
      parseString rest = some (key, s₁) ∧ expect [0x3A] (skipSpace s₁) = some s₂ ∧
      parseValue fuel s₂ = some (v, s₃) ∧
      ((∃ s₄ ms', skipSpace s₃ = 0x2C :: s₄ ∧ parseMembers fuel s₄ = some (ms', out) ∧
          ms = (key, v) :: ms') ∨
        (skipSpace s₃ = 0x7D :: out ∧ ms = [(key, v)])) := by
  rw [parseMembers] at h
  obtain ⟨rest, hquote, h⟩ := Option.bind_eq_some_iff.mp h
  obtain ⟨⟨key, s₁⟩, hkey, h⟩ := Option.bind_eq_some_iff.mp h
  obtain ⟨s₂, hcolon, h⟩ := Option.bind_eq_some_iff.mp h
  obtain ⟨⟨v, s₃⟩, hv, h⟩ := Option.bind_eq_some_iff.mp h
  refine ⟨rest, key, s₁, s₂, v, s₃, hquote, hkey, hcolon, hv, ?_⟩
  simp only at h
  split at h
  · rename_i s₄ hcomma
    obtain ⟨⟨ms', out'⟩, hm, h⟩ := Option.bind_eq_some_iff.mp h
    cases h
    exact .inl ⟨s₄, ms', hcomma, hm, rfl⟩
  · rename_i hclose
    cases h
    exact .inr ⟨hclose, rfl⟩
  · cases h

theorem parse_cases {text : JsString} {v : Json} (h : parse text = some v) :
    ∃ out, parseValue (2 * text.length + 1) text = some (v, out) ∧ skipSpace out = [] := by
  unfold parse at h
  obtain ⟨⟨w, out⟩, hp, h⟩ := Option.bind_eq_some_iff.mp h
  obtain ⟨hout, h⟩ := Option.ite_none_right_eq_some.mp h
  cases h
  exact ⟨out, hp, List.isEmpty_iff.mp hout⟩

/-- The text begins with a character that `trim` keeps. -/
def Visible (s : JsString) : Prop := ∃ u rest, s = u :: rest ∧ isWhiteSpace u = false

theorem visible_expect {w s out : JsString} (hw : Visible w) (h : expect w s = some out) : Visible s := by
  obtain ⟨u, r, rfl, hu⟩ := hw
  exact ⟨u, r ++ out, expect_iff.mp h, hu⟩

theorem visible_digit {u : UInt16} (h : isDigit u = true) (s : JsString) : Visible (u :: s) :=
  ⟨u, s, rfl, isWhiteSpace_of_isDigit h⟩

theorem visible_parseNumber {s out : JsString} {n : JsNumber} (h : parseNumber s = some (n, out)) :
    Visible s := by
  unfold parseNumber at h
  obtain ⟨⟨whole, s₁⟩, hw, _⟩ := Option.bind_eq_some_iff.mp h
  cases s with
  | nil => cases hw
  | cons u s =>
    by_cases hminus : u = 0x2D
    · exact ⟨u, s, rfl, by rw [hminus]; decide⟩
    · simp only [List.head?_cons, Option.some.injEq, hminus, if_false, parseWhole] at hw
      split at hw
      · next hzero => exact visible_digit (by rw [hzero]; decide) s
      · split at hw
        · next hdigit => exact visible_digit hdigit s
        · cases hw

/-- A JSON text begins, after white space, with a visible character. -/
theorem visible_of_parse {s : JsString} (h : (parse s).isSome = true) : Visible (skipSpace s) := by
  obtain ⟨v, hv⟩ := Option.isSome_iff_exists.mp h
  obtain ⟨out, hread, _⟩ := parse_cases hv
  cases readsValue_of_parseValue hread with
  | emptyObject hs => exact ⟨_, _, hs, by decide⟩
  | object hs => exact ⟨_, _, hs, by decide⟩
  | emptyArray hs => exact ⟨_, _, hs, by decide⟩
  | array hs => exact ⟨_, _, hs, by decide⟩
  | string hs => exact ⟨_, _, hs, by decide⟩
  | null hex => exact visible_expect ⟨_, _, rfl, by decide⟩ hex
  | @bool b _ hex =>
    cases b with
    | true => exact visible_expect ⟨_, _, rfl, by decide⟩ hex
    | false => exact visible_expect ⟨_, _, rfl, by decide⟩ hex
  | number hn => exact visible_parseNumber hn

/-! ## Printing -/

def hexDigit (n : Nat) : UInt16 := UInt16.ofNat (if n < 10 then 0x30 + n else 0x57 + n)

/-- `\uXXXX` with lower-case digits. -/
def unicodeEscape (u : UInt16) : JsString :=
  let n := u.toNat
  [0x5C, 0x75, hexDigit (n / 0x1000), hexDigit (n / 0x100 % 0x10), hexDigit (n / 0x10 % 0x10),
    hexDigit (n % 0x10)]

/-- A unit that is not half of a surrogate pair. -/
def quoteUnit (u : UInt16) : JsString :=
  if u = 8 then js "\\b" else if u = 9 then js "\\t" else if u = 10 then js "\\n"
  else if u = 12 then js "\\f" else if u = 13 then js "\\r"
  else if u = 0x22 then js "\\\"" else if u = 0x5C then js "\\\\"
  else if u < 0x20 || isHighSurrogate u || isLowSurrogate u then unicodeEscape u
  else [u]

def quoteUnits : JsString → JsString
  | [] => []
  | [u] => quoteUnit u
  | u :: v :: rest =>
    if isHighSurrogate u && isLowSurrogate v then u :: v :: quoteUnits rest
    else quoteUnit u ++ quoteUnits (v :: rest)

/-- `QuoteJSONString`. -/
def quote (s : JsString) : JsString := js "\"" ++ quoteUnits s ++ js "\""

def numberText : JsNumber → JsString
  | .finite q => (JsNumber.finite q).toJsString
  | _ => js "null"

/-- Texts separated by commas. -/
def commas : List JsString → JsString
  | [] => []
  | [s] => s
  | s :: t :: rest => s ++ js "," ++ commas (t :: rest)

mutual

/-- `JSON.stringify` without indentation. -/
def stringify : Json → JsString
  | .null => js "null"
  | .bool b => js (if b then "true" else "false")
  | .num n => numberText n
  | .str s => quote s
  | .arr xs => js "[" ++ commas (stringifyAll xs) ++ js "]"
  | .obj members => js "\x7b" ++ commas (stringifyMembers members) ++ js "\x7d"

def stringifyAll : List Json → List JsString
  | [] => []
  | x :: xs => stringify x :: stringifyAll xs

def stringifyMembers : List (JsString × Json) → List JsString
  | [] => []
  | (key, v) :: ms => (quote key ++ js ":" ++ stringify v) :: stringifyMembers ms

end

def newline (depth : Nat) : JsString := 10 :: List.replicate (2 * depth) 0x20

/-- Printed elements, one a line, between brackets. -/
def block (opening closing : JsString) (depth : Nat) : List JsString → JsString
  | [] => opening ++ closing
  | s :: ss =>
    opening ++ newline (depth + 1) ++ s ++ ss.flatMap (fun t => js "," ++ newline (depth + 1) ++ t) ++
      newline depth ++ closing

mutual

/-- `JSON.stringify(v, null, 2)`, at a depth of nesting. -/
def stringifyIndented (depth : Nat) : Json → JsString
  | .null => js "null"
  | .bool b => js (if b then "true" else "false")
  | .num n => numberText n
  | .str s => quote s
  | .arr xs => block (js "[") (js "]") depth (stringifyIndentedAll (depth + 1) xs)
  | .obj members =>
    block (js "\x7b") (js "\x7d") depth (stringifyIndentedMembers (depth + 1) members)

def stringifyIndentedAll (depth : Nat) : List Json → List JsString
  | [] => []
  | x :: xs => stringifyIndented depth x :: stringifyIndentedAll depth xs

def stringifyIndentedMembers (depth : Nat) : List (JsString × Json) → List JsString
  | [] => []
  | (key, v) :: ms =>
    (quote key ++ js ": " ++ stringifyIndented depth v) :: stringifyIndentedMembers depth ms

end

example : stringifyIndented 0 (.obj [(js "a", .arr [.bool true]), (js "b", .arr [])]) =
    js "\x7b\n  \"a\": [\n    true\n  ],\n  \"b\": []\n\x7d" := by decide +kernel

/-! ## What a printed text consists of -/

/-- A property of texts that the printer cannot lose. -/
structure Kept (P : JsString → Prop) : Prop where
  nil : P []
  append : ∀ {s t}, P s → P t → P (s ++ t)
  word : ∀ s ∈ [js "null", js "true", js "false", js ",", js ":"], P s
  number : ∀ n, P (numberText n)
  quoted : ∀ s, P (quote s)
  array : ∀ {s}, P s → P (js "[" ++ s ++ js "]")
  object : ∀ {s}, P s → P (js "\x7b" ++ s ++ js "\x7d")

theorem Kept.commas {P : JsString → Prop} (h : Kept P) {ss : List JsString} (hs : ∀ s ∈ ss, P s) :
    P (commas ss) := by
  induction ss using commas.induct with
  | case1 => exact h.nil
  | case2 s => exact hs s (by simp)
  | case3 s t rest ih =>
    exact h.append (h.append (hs s (by simp)) (h.word _ (by simp)))
      (ih fun r hr => hs r (List.mem_cons_of_mem s hr))

mutual

theorem kept_stringify {P : JsString → Prop} (h : Kept P) : ∀ v : Json, P (stringify v)
  | .null => h.word (js "null") (by simp)
  | .bool true => h.word (js "true") (by simp)
  | .bool false => h.word (js "false") (by simp)
  | .num n => h.number n
  | .str s => h.quoted s
  | .arr xs => h.array (h.commas (kept_stringifyAll h xs))
  | .obj ms => h.object (h.commas (kept_stringifyMembers h ms))

theorem kept_stringifyAll {P : JsString → Prop} (h : Kept P) :
    ∀ xs : List Json, ∀ s ∈ stringifyAll xs, P s
  | [] => by intro s hs; cases hs
  | x :: xs => by
    intro s hs
    rw [stringifyAll] at hs
    obtain hs | hs := List.mem_cons.mp hs
    · rw [hs]
      exact kept_stringify h x
    · exact kept_stringifyAll h xs s hs

theorem kept_stringifyMembers {P : JsString → Prop} (h : Kept P) :
    ∀ ms : List (JsString × Json), ∀ s ∈ stringifyMembers ms, P s
  | [] => by intro s hs; cases hs
  | (key, v) :: ms => by
    intro s hs
    rw [stringifyMembers] at hs
    obtain hs | hs := List.mem_cons.mp hs
    · rw [hs]
      exact h.append (h.append (h.quoted key) (h.word _ (by simp))) (kept_stringify h v)
    · exact kept_stringifyMembers h ms s hs

end

/-- A quoted text is made of single units and of surrogate pairs. -/
theorem quoteUnits_of {P : JsString → Prop} (nil : P []) (append : ∀ {s t}, P s → P t → P (s ++ t))
    (unit : ∀ u, P (quoteUnit u))
    (pair : ∀ u v, isHighSurrogate u = true → isLowSurrogate v = true → P [u, v]) (s : JsString) :
    P (quoteUnits s) := by
  induction s using quoteUnits.induct with
  | case1 => exact nil
  | case2 u => exact unit u
  | case3 u v rest hpair ih =>
    rw [quoteUnits, if_pos hpair]
    obtain ⟨hu, hv⟩ := Bool.and_eq_true_iff.mp hpair
    exact append (pair u v hu hv) ih
  | case4 u v rest hpair ih =>
    rw [quoteUnits, if_neg hpair]
    exact append (unit u) ih

/-- No control character: a printed value fits on one line. -/
def Printable (s : JsString) : Prop := ∀ u ∈ s, 0x20 ≤ u

instance (s : JsString) : Decidable (Printable s) := List.decidableBAll (fun u => 0x20 ≤ u) s

theorem printable_append {s t : JsString} (hs : Printable s) (ht : Printable t) :
    Printable (s ++ t) :=
  List.forall_mem_append.mpr ⟨hs, ht⟩

theorem printable_hexDigit {n : Nat} (h : n < 16) : 0x20 ≤ hexDigit n := by
  rw [hexDigit, UInt16.le_iff_toNat_le, UInt16.toNat_ofNat']
  have e : (0x20 : UInt16).toNat = 0x20 := rfl
  split <;> omega

theorem printable_quoteUnit (u : UInt16) : Printable (quoteUnit u) := by
  have hu : u.toNat < 65536 := u.toNat_lt
  unfold quoteUnit
  repeat' split
  all_goals first | decide | skip
  · intro v hv
    simp only [unicodeEscape, List.mem_cons, List.not_mem_nil, or_false] at hv
    obtain rfl | rfl | rfl | rfl | rfl | rfl := hv
    · decide
    · decide
    · exact printable_hexDigit (by omega)
    · exact printable_hexDigit (by omega)
    · exact printable_hexDigit (by omega)
    · exact printable_hexDigit (by omega)
  · rename_i hctl
    intro v hv
    have hv : v = u := by simpa using hv
    rw [hv]
    simp only [Bool.or_eq_true, decide_eq_true_eq, not_or] at hctl
    exact UInt16.not_lt.mp hctl.1.1

theorem printable_quoteUnits (s : JsString) : Printable (quoteUnits s) := by
  refine quoteUnits_of (by decide) printable_append printable_quoteUnit (fun u v hu hv => ?_) s
  simp only [isHighSurrogate, isLowSurrogate, Bool.and_eq_true, decide_eq_true_eq] at hu hv
  exact List.forall_mem_cons.mpr ⟨UInt16.le_trans (by decide) hu.1,
    List.forall_mem_singleton.mpr (UInt16.le_trans (by decide) hv.1)⟩

theorem printable_quote (s : JsString) : Printable (quote s) := by
  have hq : Printable (js "\"") := by decide
  exact printable_append (printable_append hq (printable_quoteUnits s)) hq

/-- A digit, a sign, a point, an exponent mark or a letter of `null`. -/
def isNumberUnit (u : UInt16) : Bool :=
  isDigit u || u == 0x2E || u == 0x2B || u == 0x2D || u == 0x65 || u == 0x6E || u == 0x75 || u == 0x6C

def NumberUnits (s : JsString) : Prop := ∀ u ∈ s, isNumberUnit u = true

instance (s : JsString) : Decidable (NumberUnits s) :=
  List.decidableBAll (fun u => isNumberUnit u = true) s

theorem numberUnits_append {s t : JsString} (hs : NumberUnits s) (ht : NumberUnits t) :
    NumberUnits (s ++ t) :=
  List.forall_mem_append.mpr ⟨hs, ht⟩

/-- The units of a decimal numeral are digits. -/
theorem isDigit_toString {n : Nat} {u : UInt16} (hu : u ∈ js (toString n)) : isDigit u = true := by
  obtain ⟨c, hc, huc⟩ := List.mem_flatMap.mp hu
  have hc : c ∈ Nat.toDigits 10 n := by simpa using hc
  have hd : c.isDigit = true := Nat.isDigit_of_mem_toDigits (by decide) (by decide) hc
  have hv : 48 ≤ c.toNat ∧ c.toNat ≤ 57 := by
    simpa [Char.isDigit, UInt32.le_iff_toNat_le] using hd
  rw [encodeCodePoint, if_pos (by omega)] at huc
  have hu : u = UInt16.ofNat c.toNat := by simpa using huc
  have hn : u.toNat = c.toNat := by
    rw [hu, UInt16.toNat_ofNat']
    omega
  simp only [isDigit, Bool.and_eq_true, decide_eq_true_eq, UInt16.le_iff_toNat_le,
    UInt16.reduceToNat]
  omega

theorem numberUnits_digits {s : JsString} (h : ∀ u ∈ s, isDigit u = true) : NumberUnits s := by
  intro u hu
  simp [isNumberUnit, h u hu]

theorem numberUnits_toString (n : Nat) : NumberUnits (js (toString n)) :=
  numberUnits_digits fun _ hu => isDigit_toString hu

theorem numberUnits_zeros (n : Nat) : NumberUnits (zeros n) := by
  intro u hu
  rw [List.eq_of_mem_replicate hu]
  decide

theorem numberUnits_layout (s k : Nat) (n : Int) : NumberUnits (layout s k n) := by
  have hds : NumberUnits (js (toString s)) := numberUnits_toString s
  have htake : ∀ m, NumberUnits ((js (toString s)).take m) :=
    fun m u hu => hds u (List.mem_of_mem_take hu)
  have hdrop : ∀ m, NumberUnits ((js (toString s)).drop m) :=
    fun m u hu => hds u (List.mem_of_mem_drop hu)
  unfold layout
  split
  · exact numberUnits_append hds (numberUnits_zeros _)
  · split
    · exact numberUnits_append (numberUnits_append (htake _) (by decide)) (hdrop _)
    · split
      · exact numberUnits_append (numberUnits_append (by decide) (numberUnits_zeros _)) hds
      · have hm : NumberUnits (if k = 1 then js (toString s)
            else (js (toString s)).take 1 ++ js "." ++ (js (toString s)).drop 1) := by
          split
          · exact hds
          · exact numberUnits_append (numberUnits_append (htake _) (by decide)) (hdrop _)
        have he : NumberUnits (js (if n - 1 < 0 then "e-" else "e+")) := by
          split
          · decide
          · decide
        exact numberUnits_append (numberUnits_append hm he) (numberUnits_toString _)

theorem numberUnits_numberText (n : JsNumber) : NumberUnits (numberText n) := by
  cases n with
  | nan => exact (by decide : NumberUnits (js "null"))
  | infinity negative => exact (by decide : NumberUnits (js "null"))
  | finite q =>
    simp only [numberText, JsNumber.toJsString]
    by_cases hq : q = 0
    · rw [if_pos hq]
      decide
    · rw [if_neg hq]
      refine numberUnits_append ?_ (numberUnits_layout _ _ _)
      split
      · decide
      · decide

theorem printable_numberText (n : JsNumber) : Printable (numberText n) := by
  intro u hu
  have h := numberUnits_numberText n u hu
  simp only [isNumberUnit, isDigit, Bool.or_eq_true, Bool.and_eq_true, decide_eq_true_eq,
    beq_iff_eq] at h
  rcases h with ((((((h | rfl) | rfl) | rfl) | rfl) | rfl) | rfl) | rfl
  · exact UInt16.le_trans (by decide) h.1
  all_goals decide

theorem printable_kept : Kept Printable where
  nil := by decide
  append := printable_append
  word := by decide
  number := printable_numberText
  quoted := printable_quote
  array := fun h => printable_append (printable_append (by decide) h) (by decide)
  object := fun h => printable_append (printable_append (by decide) h) (by decide)

theorem printable_stringify (v : Json) : Printable (stringify v) := kept_stringify printable_kept v

end Conductor.Js.JsonText
