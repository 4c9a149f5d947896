import Conductor.Js.Text

/-! # UTF-8 at the border to the file system

`buf.toString("utf8")` replaces every maximal ill-formed subpart by U+FFFD;
writing a string replaces an unpaired surrogate the same way. -/
namespace Conductor.Js.Utf8
open Conductor.Js.Text

abbrev Bytes := List UInt8

/-- What is owed inside a sequence: the bytes still to come, the bounds of the
next one and the bits so far. -/
structure Partial where
  needed : Nat
  lower : UInt8
  upper : UInt8
  bits : Nat

/-- The first byte of a sequence: the units it completes, or what it opens. -/
def first (b : UInt8) : JsString × Option Partial :=
  if b < 0x80 then ([b.toUInt16], none)
  else if 0xC2 ≤ b ∧ b ≤ 0xDF then ([], some ⟨1, 0x80, 0xBF, b.toNat - 0xC0⟩)
  else if 0xE0 ≤ b ∧ b ≤ 0xEF then
    ([], some ⟨2, if b = 0xE0 then 0xA0 else 0x80, if b = 0xED then 0x9F else 0xBF, b.toNat - 0xE0⟩)
  else if 0xF0 ≤ b ∧ b ≤ 0xF4 then
    ([], some ⟨3, if b = 0xF0 then 0x90 else 0x80, if b = 0xF4 then 0x8F else 0xBF, b.toNat - 0xF0⟩)
  else ([0xFFFD], none)

def decodeFrom : Option Partial → Bytes → JsString
  | none, [] => []
  | some _, [] => [0xFFFD]
  | none, b :: bs => (first b).1 ++ decodeFrom (first b).2 bs
  | some p, b :: bs =>
    if p.lower ≤ b ∧ b ≤ p.upper then
      let bits := p.bits * 0x40 + (b.toNat - 0x80)
      if p.needed ≤ 1 then encodeCodePoint bits ++ decodeFrom none bs
      else decodeFrom (some ⟨p.needed - 1, 0x80, 0xBF, bits⟩) bs
    else 0xFFFD :: ((first b).1 ++ decodeFrom (first b).2 bs)

def decode (bytes : Bytes) : JsString := decodeFrom none bytes

/-- A byte completes a unit or opens a sequence. -/
theorem length_first (b : UInt8) :
    (first b).1.length + (if (first b).2.isSome = true then 1 else 0) = 1 := by
  unfold first
  split_ifs <;> simp_all

/-- A text has at most as many units as its file has bytes. A sequence that is left
unfinished counts one byte for the replacement character. -/
theorem length_decodeFrom (p : Option Partial) (bytes : Bytes) :
    (decodeFrom p bytes).length ≤ bytes.length + (if p.isSome = true then 1 else 0) := by
  have hopen : ∀ (b : UInt8) (bs : Bytes), (decodeFrom (first b).2 bs).length ≤
      bs.length + (if (first b).2.isSome = true then 1 else 0) →
      ((first b).1 ++ decodeFrom (first b).2 bs).length ≤ bs.length + 1 := by
    intro b bs h
    have hfirst := length_first b
    rw [List.length_append]
    omega
  induction bytes generalizing p with
  | nil =>
    cases p with
    | none => simp [decodeFrom]
    | some p => simp [decodeFrom]
  | cons b bs ih =>
    cases p with
    | none => simpa [decodeFrom] using hopen b bs (ih _)
    | some p =>
      simp only [decodeFrom, Option.isSome_some, if_true, List.length_cons]
      split
      · split
        · have hunits := length_encodeCodePoint (p.bits * 0x40 + (b.toNat - 0x80))
          have hrest := ih none
          simp only [Option.isSome_none, Bool.false_eq_true, if_false] at hrest
          rw [List.length_append]
          omega
        · have hrest := ih (some ⟨p.needed - 1, 0x80, 0xBF, p.bits * 0x40 + (b.toNat - 0x80)⟩)
          simp only [Option.isSome_some, if_true] at hrest
          omega
      · have hrest := hopen b bs (ih _)
        rw [List.length_cons]
        omega

theorem length_decode (bytes : Bytes) : (decode bytes).length ≤ bytes.length := length_decodeFrom none bytes

def encodeScalar (c : Nat) : Bytes :=
  if c < 0x80 then [UInt8.ofNat c]
  else if c < 0x800 then [UInt8.ofNat (0xC0 + c / 0x40), UInt8.ofNat (0x80 + c % 0x40)]
  else if c < 0x10000 then
    [UInt8.ofNat (0xE0 + c / 0x1000), UInt8.ofNat (0x80 + c / 0x40 % 0x40), UInt8.ofNat (0x80 + c % 0x40)]
  else
    [UInt8.ofNat (0xF0 + c / 0x40000), UInt8.ofNat (0x80 + c / 0x1000 % 0x40),
      UInt8.ofNat (0x80 + c / 0x40 % 0x40), UInt8.ofNat (0x80 + c % 0x40)]

/-- A unit that is not half of a surrogate pair. -/
def encodeUnit (u : UInt16) : Bytes :=
  encodeScalar (if isHighSurrogate u || isLowSurrogate u then 0xFFFD else u.toNat)

def encode : JsString → Bytes
  | [] => []
  | [u] => encodeUnit u
  | u :: v :: rest =>
    if isHighSurrogate u && isLowSurrogate v then encodeScalar (pairCodePoint u v) ++ encode rest
    else encodeUnit u ++ encode (v :: rest)

theorem mem_encodeScalar {c : Nat} {b : UInt8} (hc : c < 0x110000) (hb : b < 0x80)
    (h : b ∈ encodeScalar c) : c = b.toNat := by
  have hb' : b.toNat < 128 := hb
  -- a byte of a longer sequence has its high bit set
  have high : ∀ n : Nat, 128 ≤ n → n < 256 → b ≠ UInt8.ofNat n := by
    intro n hlo hhi he
    have hn : b.toNat = n := by
      rw [he, UInt8.toNat_ofNat']
      omega
    omega
  unfold encodeScalar at h
  split at h
  · have he : b = UInt8.ofNat c := by simpa using h
    rw [he, UInt8.toNat_ofNat']
    omega
  · split at h
    · simp only [List.mem_cons, List.not_mem_nil, or_false] at h
      obtain h | h := h
      · exact absurd h (high _ (by omega) (by omega))
      · exact absurd h (high _ (by omega) (by omega))
    · split at h
      · simp only [List.mem_cons, List.not_mem_nil, or_false] at h
        obtain h | h | h := h
        · exact absurd h (high _ (by omega) (by omega))
        · exact absurd h (high _ (by omega) (by omega))
        · exact absurd h (high _ (by omega) (by omega))
      · simp only [List.mem_cons, List.not_mem_nil, or_false] at h
        obtain h | h | h | h := h
        · exact absurd h (high _ (by omega) (by omega))
        · exact absurd h (high _ (by omega) (by omega))
        · exact absurd h (high _ (by omega) (by omega))
        · exact absurd h (high _ (by omega) (by omega))

theorem mem_encodeUnit {u : UInt16} {b : UInt8} (hb : b < 0x80) (h : b ∈ encodeUnit u) :
    u = b.toUInt16 := by
  have hb' : b.toNat < 128 := hb
  have hu : u.toNat < 65536 := u.toNat_lt
  unfold encodeUnit at h
  split at h
  · have hc := mem_encodeScalar (by decide) hb h
    omega
  · have hc := mem_encodeScalar (by omega) hb h
    apply UInt16.toNat.inj
    rw [hc]
    rfl

/-- An ASCII byte of the encoding is a unit of the text. -/
theorem mem_encode {s : JsString} {b : UInt8} (hb : b < 0x80) (h : b ∈ encode s) :
    b.toUInt16 ∈ s := by
  have hb' : b.toNat < 128 := hb
  induction s using encode.induct with
  | case1 => cases h
  | case2 u =>
    rw [encode] at h
    simp [mem_encodeUnit hb h]
  | case3 hi lo rest hpair ih =>
    rw [encode, if_pos hpair] at h
    obtain ⟨hhi, hlo⟩ := Bool.and_eq_true_iff.mp hpair
    obtain ⟨hge, hlt⟩ := pairCodePoint_lt hhi hlo
    obtain h | h := List.mem_append.mp h
    · have hc := mem_encodeScalar hlt hb h
      omega
    · simp [ih h]
  | case4 u v rest hpair ih =>
    rw [encode, if_neg hpair] at h
    obtain h | h := List.mem_append.mp h
    · simp [mem_encodeUnit hb h]
    · exact List.mem_cons_of_mem u (ih h)

end Conductor.Js.Utf8
