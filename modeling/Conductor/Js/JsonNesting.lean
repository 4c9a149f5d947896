import Conductor.Lib.Runs
import Conductor.Js.JsonText

/-! # Strings and brackets of a JSON text

A scanner that only counts brackets and follows string literals. Whatever the
parser accepts leaves it where it began. -/
namespace Conductor.Js.JsonNesting
open Conductor.Lib.Runs Conductor.Js.Text Conductor.Js.Number Conductor.Js.Values
open Conductor.Js.JsonText

inductive Mode
  | code
  | string
  /-- Inside a string, after a backslash. -/
  | escape
  deriving DecidableEq

structure Nesting where
  depth : Int
  mode : Mode
  deriving DecidableEq

/-- One unit. Outside of strings a backslash stands in no JSON text. -/
def scan (n : Nesting) (u : UInt16) : Option Nesting :=
  match n.mode with
  | .code =>
    if u = 0x22 then some ⟨n.depth, .string⟩
    else if u = 0x5C then none
    else if u = 0x7B ∨ u = 0x5B then some ⟨n.depth + 1, .code⟩
    else if u = 0x7D ∨ u = 0x5D then some ⟨n.depth - 1, .code⟩
    else some n
  | .string =>
    if u = 0x22 then some ⟨n.depth, .code⟩
    else if u = 0x5C then some ⟨n.depth, .escape⟩
    else some n
  | .escape => some ⟨n.depth, .string⟩

/-- A unit that means nothing outside of a string. -/
def isPlain (u : UInt16) : Bool :=
  u != 0x22 && u != 0x5C && u != 0x7B && u != 0x5B && u != 0x7D && u != 0x5D

theorem scan_plain {u : UInt16} (h : isPlain u = true) (d : Int) :
    scan ⟨d, .code⟩ u = some ⟨d, .code⟩ := by
  simp only [isPlain, Bool.and_eq_true, bne_iff_ne] at h
  obtain ⟨⟨⟨⟨⟨h₁, h₂⟩, h₃⟩, h₄⟩, h₅⟩, h₆⟩ := h
  simp [scan, h₁, h₂, h₃, h₄, h₅, h₆]

/-- The text takes the scanner from one state to another. -/
def Scans (a : Nesting) (s : JsString) (b : Nesting) : Prop := exec scan a s = some b

theorem Scans.append {a b c : Nesting} {s t : JsString} (hs : Scans a s b) (ht : Scans b t c) :
    Scans a (s ++ t) c := by
  unfold Scans at *
  rw [exec_append, hs]
  exact ht

theorem scans_append_iff {a c : Nesting} {s t : JsString} :
    Scans a (s ++ t) c ↔ ∃ b, Scans a s b ∧ Scans b t c := by
  unfold Scans
  rw [exec_append]
  exact Option.bind_eq_some_iff

theorem scans_cons_iff {a c : Nesting} {u : UInt16} {s : JsString} :
    Scans a (u :: s) c ↔ ∃ b, scan a u = some b ∧ Scans b s c := by
  unfold Scans
  rw [exec_cons]
  exact Option.bind_eq_some_iff

theorem scans_nil {a b : Nesting} : Scans a [] b ↔ a = b := by
  simp [Scans]

theorem scans_plain {s : JsString} (h : ∀ u ∈ s, isPlain u = true) (d : Int) :
    Scans ⟨d, .code⟩ s ⟨d, .code⟩ := by
  induction s with
  | nil => exact scans_nil.mpr rfl
  | cons u s ih =>
    exact scans_cons_iff.mpr ⟨_, scan_plain (h u (by simp)) d, ih fun v hv => h v (by simp [hv])⟩

/-- The scanner does not look at the depth. -/
theorem Scans.shift {a b : Nesting} {s : JsString} (h : Scans a s b) (k : Int) :
    Scans ⟨a.depth + k, a.mode⟩ s ⟨b.depth + k, b.mode⟩ := by
  induction s generalizing a with
  | nil => rw [scans_nil.mp h]; exact scans_nil.mpr rfl
  | cons u s ih =>
    obtain ⟨c, hu, hc⟩ := scans_cons_iff.mp h
    refine scans_cons_iff.mpr ⟨_, ?_, ih hc⟩
    obtain ⟨d, m⟩ := a
    cases m with
    | code =>
      simp only [scan] at hu ⊢
      split_ifs at hu ⊢ with h₁ h₂ h₃ h₄
      · cases hu; rfl
      · cases hu; rw [Option.some.injEq, Nesting.mk.injEq]; exact ⟨by ring, rfl⟩
      · cases hu; rw [Option.some.injEq, Nesting.mk.injEq]; exact ⟨by ring, rfl⟩
      · cases hu; rfl
    | string =>
      simp only [scan] at hu ⊢
      split_ifs at hu ⊢
      · cases hu; rfl
      · cases hu; rfl
      · cases hu; rfl
    | escape => cases hu; rfl

theorem Scans.unique {a b c : Nesting} {s : JsString} (hb : Scans a s b) (hc : Scans a s c) : b = c :=
  Option.some.inj (hb.symm.trans hc)

/-! ## What the parser accepts is balanced -/

/-- The parser went on from `s` to `out` over a balanced piece. -/
def Balanced (m : Mode) (s out : JsString) : Prop :=
  ∃ used, s = used ++ out ∧ ∀ d, Scans ⟨d, m⟩ used ⟨d, .code⟩

theorem Balanced.trans {m : Mode} {s t out : JsString} (h : Balanced m s t)
    (h' : Balanced .code t out) : Balanced m s out := by
  obtain ⟨used, rfl, hu⟩ := h
  obtain ⟨used', rfl, hu'⟩ := h'
  exact ⟨used ++ used', by rw [List.append_assoc], fun d => (hu d).append (hu' d)⟩

theorem balanced_plain (used out : JsString) (h : ∀ u ∈ used, isPlain u = true) :
    Balanced .code (used ++ out) out := ⟨used, rfl, scans_plain h⟩

theorem balanced_refl (s : JsString) : Balanced .code s s :=
  ⟨[], rfl, fun _ => scans_nil.mpr rfl⟩

theorem plain_of_isDigit {u : UInt16} (h : isDigit u = true) : isPlain u = true := by
  simp only [isDigit, Bool.and_eq_true, decide_eq_true_eq, UInt16.le_iff_toNat_le] at h
  simp only [isPlain, Bool.and_eq_true, bne_iff_ne, ne_eq, ← UInt16.toNat_inj]
  simp only [UInt16.reduceToNat] at h ⊢
  omega

theorem plain_of_isJsonSpace {u : UInt16} (h : isJsonSpace u = true) : isPlain u = true := by
  simp only [isJsonSpace, Bool.or_eq_true, beq_iff_eq] at h
  rcases h with ((rfl | rfl) | rfl) | rfl <;> rfl

theorem balanced_dropWhile {p : UInt16 → Bool} (hp : ∀ u, p u = true → isPlain u = true)
    (s : JsString) : Balanced .code s (s.dropWhile p) := by
  have h : Balanced .code (s.takeWhile p ++ s.dropWhile p) (s.dropWhile p) :=
    balanced_plain _ _ fun u hu => hp u (List.mem_takeWhile_imp hu)
  rwa [List.takeWhile_append_dropWhile] at h

theorem balanced_skipSpace (s : JsString) : Balanced .code s (skipSpace s) :=
  balanced_dropWhile (fun _ => plain_of_isJsonSpace) s

theorem balanced_expect {text s out : JsString} (ht : text.all isPlain = true)
    (h : expect text s = some out) : Balanced .code s out := by
  rw [expect_iff.mp h]
  exact balanced_plain text out (List.all_eq_true.mp ht)

/-- One unit of a string that does not end it. -/
theorem scan_string {u : UInt16} (hq : u ≠ 0x22) (hb : u ≠ 0x5C) (d : Int) :
    scan ⟨d, .string⟩ u = some ⟨d, .string⟩ := by
  simp [scan, hq, hb]

theorem balanced_string_cons {u : UInt16} {s out : JsString} (hq : u ≠ 0x22) (hb : u ≠ 0x5C)
    (h : Balanced .string s out) : Balanced .string (u :: s) out := by
  obtain ⟨used, rfl, hu⟩ := h
  exact ⟨u :: used, rfl, fun d => scans_cons_iff.mpr ⟨_, scan_string hq hb d, hu d⟩⟩

theorem balanced_string_escape {e : UInt16} {s out : JsString} (h : Balanced .string s out) :
    Balanced .string (0x5C :: e :: s) out := by
  obtain ⟨used, rfl, hu⟩ := h
  exact ⟨0x5C :: e :: used, rfl, fun d => scans_cons_iff.mpr ⟨⟨d, .escape⟩, rfl,
    scans_cons_iff.mpr ⟨⟨d, .string⟩, rfl, hu d⟩⟩⟩

/-- A string literal goes on by ending, by an escape or by a unit of its own. -/
theorem parseString_cons {u : UInt16} {rest t out : JsString}
    (h : parseString (u :: rest) = some (t, out)) :
    (u = 0x22 ∧ out = rest) ∨
      (u = 0x5C ∧ ∃ a b c d more t', rest = 0x75 :: a :: b :: c :: d :: more ∧
        (∀ x ∈ [a, b, c, d], (hexValue x).isSome) ∧ parseString more = some (t', out)) ∨
      (u = 0x5C ∧ ∃ e more t', rest = e :: more ∧ parseString more = some (t', out)) ∨
      (u ≠ 0x22 ∧ u ≠ 0x5C ∧ ∃ t', parseString rest = some (t', out)) := by
  rw [parseString.eq_def] at h
  simp only at h
  split at h
  · rename_i hq
    cases h
    exact .inl ⟨hq, rfl⟩
  · rename_i hq
    split at h
    · cases h
    · split at h
      · rename_i hb
        cases rest with
        | nil => cases h
        | cons e rest' =>
          simp only at h
          split at h
          · rename_i he
            split at h
            · rename_i a b c d more
              obtain ⟨w, ha, h⟩ := Option.bind_eq_some_iff.mp h
              obtain ⟨x, hb', h⟩ := Option.bind_eq_some_iff.mp h
              obtain ⟨y, hc, h⟩ := Option.bind_eq_some_iff.mp h
              obtain ⟨z, hd, h⟩ := Option.bind_eq_some_iff.mp h
              obtain ⟨⟨t', out'⟩, hm, h⟩ := Option.bind_eq_some_iff.mp h
              cases h
              refine .inr (.inl ⟨hb, a, b, c, d, more, t', by rw [he], ?_, hm⟩)
              simp [ha, hb', hc, hd]
            · cases h
          · obtain ⟨v, _, h⟩ := Option.bind_eq_some_iff.mp h
            obtain ⟨⟨t', out'⟩, hm, h⟩ := Option.bind_eq_some_iff.mp h
            cases h
            exact .inr (.inr (.inl ⟨hb, e, rest', t', rfl, hm⟩))
      · rename_i hb
        obtain ⟨⟨t', out'⟩, hm, h⟩ := Option.bind_eq_some_iff.mp h
        cases h
        exact .inr (.inr (.inr ⟨hq, hb, t', hm⟩))

theorem ne_of_hexValue {u : UInt16} (h : (hexValue u).isSome) : u ≠ 0x22 ∧ u ≠ 0x5C := by
  constructor
  · intro hu; rw [hu] at h; cases h
  · intro hu; rw [hu] at h; cases h

theorem balanced_parseString {s t out : JsString} (h : parseString s = some (t, out)) :
    Balanced .string s out := by
  induction hn : s.length using Nat.strong_induction_on generalizing s t with
  | _ n ih =>
    cases s with
    | nil => cases h
    | cons u rest =>
      rcases parseString_cons h with ⟨hu, hout⟩ | ⟨hu, a, b, c, d, more, t', hrest, hhex, hm⟩ |
        ⟨hu, e, more, t', hrest, hm⟩ | ⟨hq, hb, t', hm⟩
      · rw [hu, hout]
        exact ⟨[0x22], rfl, fun d => scans_cons_iff.mpr ⟨_, rfl, scans_nil.mpr rfl⟩⟩
      · have hmore := ih more.length (by rw [← hn, hrest]; simp only [List.length_cons]; omega) hm rfl
        have hne : ∀ x ∈ [a, b, c, d], x ≠ 0x22 ∧ x ≠ 0x5C := fun x hx => ne_of_hexValue (hhex x hx)
        simp only [List.forall_mem_cons] at hne
        obtain ⟨ha, hb, hc, hd, _⟩ := hne
        rw [hu, hrest]
        exact balanced_string_escape (balanced_string_cons ha.1 ha.2 (balanced_string_cons hb.1 hb.2
          (balanced_string_cons hc.1 hc.2 (balanced_string_cons hd.1 hd.2 hmore))))
      · have hmore := ih more.length (by rw [← hn, hrest]; simp only [List.length_cons]; omega) hm rfl
        rw [hu, hrest]
        exact balanced_string_escape hmore
      · exact balanced_string_cons hq hb (ih rest.length (by rw [← hn]; simp) hm rfl)

theorem balanced_digits (s : JsString) : Balanced .code s (s.dropWhile isDigit) :=
  balanced_dropWhile (fun _ => plain_of_isDigit) s

theorem balanced_cons {u : UInt16} (h : isPlain u = true) {s out : JsString}
    (hs : Balanced .code s out) : Balanced .code (u :: s) out :=
  (balanced_plain [u] s (by simpa using h)).trans hs

theorem balanced_parseWhole {s ds out : JsString} (h : parseWhole s = some (ds, out)) :
    Balanced .code s out := by
  cases s with
  | nil => cases h
  | cons u rest =>
    simp only [parseWhole] at h
    split at h
    · rename_i hz
      cases h
      rw [hz]
      exact balanced_cons (by decide) (balanced_refl out)
    · obtain ⟨hd, h⟩ := Option.ite_none_right_eq_some.mp h
      cases h
      exact balanced_cons (plain_of_isDigit hd) (balanced_digits rest)

theorem balanced_parseFraction {s ds out : JsString} (h : parseFraction s = some (ds, out)) :
    Balanced .code s out := by
  cases s with
  | nil => cases h; exact balanced_refl []
  | cons u rest =>
    simp only [parseFraction] at h
    split at h
    · rename_i hp
      split at h
      · cases h
      · cases h
        rw [hp]
        exact balanced_cons (by decide) (balanced_digits rest)
    · cases h
      exact balanced_refl _

theorem balanced_tail {s : JsString} {u : UInt16} (hu : isPlain u = true) (h : s.head? = some u) :
    Balanced .code s s.tail := by
  cases s with
  | nil => cases h
  | cons v rest =>
    cases h
    exact balanced_cons hu (balanced_refl rest)

/-- The sign of an exponent. -/
theorem balanced_sign (s : JsString) :
    Balanced .code s (if s.head? = some 0x2D ∨ s.head? = some 0x2B then s.tail else s) := by
  split
  · rename_i hsign
    rcases hsign with hsign | hsign
    · exact balanced_tail (by decide) hsign
    · exact balanced_tail (by decide) hsign
  · exact balanced_refl s

theorem balanced_parseExponent {s out : JsString} {e : Int} (h : parseExponent s = some (e, out)) :
    Balanced .code s out := by
  cases s with
  | nil => cases h; exact balanced_refl []
  | cons u rest =>
    have hsign := balanced_sign rest
    simp only [parseExponent] at h
    generalize (if rest.head? = some 0x2D ∨ rest.head? = some 0x2B then rest.tail else rest) = ds
      at h hsign
    by_cases hu : u = 0x65 ∨ u = 0x45
    · have hplain : isPlain u = true := by rcases hu with rfl | rfl <;> rfl
      rw [if_pos hu] at h
      split at h
      · cases h
      · simp only [Option.some.injEq, Prod.mk.injEq] at h
        rw [← h.2]
        exact balanced_cons hplain (hsign.trans (balanced_digits ds))
    · rw [if_neg hu] at h
      cases h
      exact balanced_refl _

theorem balanced_parseNumber {s out : JsString} {n : JsNumber} (h : parseNumber s = some (n, out)) :
    Balanced .code s out := by
  unfold parseNumber at h
  obtain ⟨⟨whole, s₁⟩, hw, h⟩ := Option.bind_eq_some_iff.mp h
  obtain ⟨⟨fraction, s₂⟩, hf, h⟩ := Option.bind_eq_some_iff.mp h
  obtain ⟨⟨exponent, s₃⟩, he, h⟩ := Option.bind_eq_some_iff.mp h
  cases h
  refine Balanced.trans ?_ ((balanced_parseWhole hw).trans
    ((balanced_parseFraction hf).trans (balanced_parseExponent he)))
  split
  · rename_i hs
    exact balanced_tail (by decide) hs
  · exact balanced_refl s

/-- A bracket, then a balanced piece one level deeper that ends with its bracket. -/
theorem balanced_bracket {opening closing : UInt16} {s t out : JsString}
    (ho : opening = 0x7B ∨ opening = 0x5B) (hc : closing = 0x7D ∨ closing = 0x5D)
    (h : Balanced .code s t) (ht : t = closing :: out) : Balanced .code (opening :: s) out := by
  obtain ⟨used, rfl, hu⟩ := h
  refine ⟨opening :: (used ++ [closing]), by simp [ht], fun d => ?_⟩
  have hclose : Scans ⟨d + 1, .code⟩ [closing] ⟨d, .code⟩ := by
    refine scans_cons_iff.mpr ⟨⟨d, .code⟩, ?_, scans_nil.mpr rfl⟩
    rcases hc with rfl | rfl
    · simp [scan]
    · simp [scan]
  refine scans_cons_iff.mpr ⟨⟨d + 1, .code⟩, ?_, (hu (d + 1)).append hclose⟩
  rcases ho with rfl | rfl
  · rfl
  · rfl

/-- A bracket with nothing but space before its partner. -/
theorem balanced_empty {opening closing : UInt16} {s out : JsString}
    (ho : opening = 0x7B ∨ opening = 0x5B) (hc : closing = 0x7D ∨ closing = 0x5D)
    (h : skipSpace s = closing :: out) : Balanced .code (opening :: s) out :=
  balanced_bracket ho hc (balanced_skipSpace s) h

theorem balanced_quote {s out : JsString} (h : Balanced .string s out) :
    Balanced .code (0x22 :: s) out := by
  obtain ⟨used, rfl, hu⟩ := h
  exact ⟨0x22 :: used, rfl, fun d => scans_cons_iff.mpr ⟨⟨d, .string⟩, rfl, hu d⟩⟩

theorem expect_singleton {u : UInt16} {s out : JsString} (h : expect [u] s = some out) :
    s = u :: out :=
  expect_iff.mp h

section

variable {fuel : Nat}
  (value : ∀ s v out, parseValue fuel s = some (v, out) → Balanced .code s out)
include value

theorem balanced_elements_succ (elements : ∀ s xs out, parseElements fuel s = some (xs, out) →
      Balanced .code s (0x5D :: out)) {s out : JsString} {xs : List Json}
    (h : parseElements (fuel + 1) s = some (xs, out)) : Balanced .code s (0x5D :: out) := by
  obtain ⟨x, s₁, hx, h⟩ := parseElements_cases h
  have hs₁ := (value s x s₁ hx).trans (balanced_skipSpace s₁)
  rcases h with ⟨s₂, ys, hcomma, hy, _⟩ | ⟨hclose, _⟩
  · rw [hcomma] at hs₁
    exact hs₁.trans (balanced_cons (by decide) (elements s₂ ys out hy))
  · rwa [hclose] at hs₁

theorem balanced_members_succ (members : ∀ s ms out, parseMembers fuel s = some (ms, out) →
      Balanced .code s (0x7D :: out)) {s out : JsString} {ms : List (JsString × Json)}
    (h : parseMembers (fuel + 1) s = some (ms, out)) : Balanced .code s (0x7D :: out) := by
  obtain ⟨rest, key, s₁, s₂, v, s₃, hquote, hkey, hcolon, hv, h⟩ := parseMembers_cases h
  have hs := balanced_skipSpace s
  rw [expect_singleton hquote] at hs
  have hs₁ := (hs.trans (balanced_quote (balanced_parseString hkey))).trans (balanced_skipSpace s₁)
  rw [expect_singleton hcolon] at hs₁
  have hs₃ := (hs₁.trans (balanced_cons (by decide) (value s₂ v s₃ hv))).trans (balanced_skipSpace s₃)
  rcases h with ⟨s₄, ms', hcomma, hm, _⟩ | ⟨hclose, _⟩
  · rw [hcomma] at hs₃
    exact hs₃.trans (balanced_cons (by decide) (members s₄ ms' out hm))
  · rwa [hclose] at hs₃

end

theorem balanced_value_succ {fuel : Nat}
    (elements : ∀ s xs out, parseElements fuel s = some (xs, out) → Balanced .code s (0x5D :: out))
    (members : ∀ s ms out, parseMembers fuel s = some (ms, out) → Balanced .code s (0x7D :: out))
    {s out : JsString} {v : Json} (h : parseValue (fuel + 1) s = some (v, out)) :
    Balanced .code s out := by
  refine (balanced_skipSpace s).trans ?_
  cases readsValue_of_parseValue h with
  | emptyObject hs hrest =>
    rw [hs]
    exact balanced_empty (.inl rfl) (.inl rfl) hrest
  | @object rest out ms hs hm =>
    have hbody := (balanced_skipSpace rest).trans (members _ ms out hm)
    rw [hs]
    exact balanced_bracket (.inl rfl) (.inl rfl) hbody rfl
  | emptyArray hs hrest =>
    rw [hs]
    exact balanced_empty (.inr rfl) (.inr rfl) hrest
  | @array rest out xs hs hx =>
    have hbody := (balanced_skipSpace rest).trans (elements _ xs out hx)
    rw [hs]
    exact balanced_bracket (.inr rfl) (.inr rfl) hbody rfl
  | string hs ht =>
    rw [hs]
    exact balanced_quote (balanced_parseString ht)
  | null hword => exact balanced_expect (by decide) hword
  | @bool b out hword =>
    cases b with
    | true => exact balanced_expect (by decide) hword
    | false => exact balanced_expect (by decide) hword
  | number hn => exact balanced_parseNumber hn

/-- The three mutual parsers, by induction on their common fuel. -/
theorem balanced_parse (fuel : Nat) :
    (∀ s v out, parseValue fuel s = some (v, out) → Balanced .code s out) ∧
    (∀ s xs out, parseElements fuel s = some (xs, out) → Balanced .code s (0x5D :: out)) ∧
    (∀ s ms out, parseMembers fuel s = some (ms, out) → Balanced .code s (0x7D :: out)) := by
  induction fuel with
  | zero =>
    refine ⟨fun _ _ _ h => ?_, fun _ _ _ h => ?_, fun _ _ _ h => ?_⟩
    · cases h
    · cases h
    · cases h
  | succ fuel ih =>
    obtain ⟨value, elements, members⟩ := ih
    exact ⟨fun _ _ _ h => balanced_value_succ elements members h,
      fun _ _ _ h => balanced_elements_succ value elements h,
      fun _ _ _ h => balanced_members_succ value members h⟩

/-- An accepted text leaves the scanner where it began. -/
theorem scans_of_parse {text : JsString} (h : (parse text).isSome = true) :
    Scans ⟨0, .code⟩ text ⟨0, .code⟩ := by
  obtain ⟨v, hv⟩ := Option.isSome_iff_exists.mp h
  obtain ⟨out, hp, hout⟩ := parse_cases hv
  have hall := ((balanced_parse _).1 text v out hp).trans (balanced_skipSpace out)
  obtain ⟨used, rfl, hu⟩ := hall
  rw [hout, List.append_nil]
  exact hu 0

end Conductor.Js.JsonNesting
