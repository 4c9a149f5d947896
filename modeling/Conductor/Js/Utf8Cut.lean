import Conductor.Js.Utf8

/-! # UTF-8 text that was cut

What encodes a text decodes to it. A cut at a byte leaves at most one broken
sequence, and its bytes decode to U+FFFD. -/
namespace Conductor.Js.Utf8Cut
open Conductor.Js.Text Conductor.Js.Utf8

/-! ## One sequence -/

def IsScalar (c : Nat) : Prop := c < 0xD800 ∨ (0xE000 ≤ c ∧ c < 0x110000)

/-- The bytes that complete a sequence to the code point. -/
inductive Owes : Partial → Bytes → Nat → Prop
  | last {p : Partial} {b : UInt8} (bounds : p.lower ≤ b ∧ b ≤ p.upper) (needed : p.needed ≤ 1) :
      Owes p [b] (p.bits * 0x40 + (b.toNat - 0x80))
  | more {p : Partial} {b : UInt8} {bs : Bytes} {c : Nat} (bounds : p.lower ≤ b ∧ b ≤ p.upper)
      (needed : ¬ p.needed ≤ 1)
      (rest : Owes ⟨p.needed - 1, 0x80, 0xBF, p.bits * 0x40 + (b.toNat - 0x80)⟩ bs c) :
      Owes p (b :: bs) c

theorem Owes.decode {p : Partial} {bs : Bytes} {c : Nat} (h : Owes p bs c) (rest : Bytes) :
    decodeFrom (some p) (bs ++ rest) = encodeCodePoint c ++ decodeFrom none rest := by
  induction h with
  | last bounds needed => simp only [List.singleton_append, decodeFrom, if_pos bounds, if_pos needed]
  | more bounds needed _ ih => simp only [List.cons_append, decodeFrom, if_pos bounds, if_neg needed, ih]

/-- An unfinished sequence at the end. -/
theorem Owes.take {p : Partial} {bs : Bytes} {c : Nat} (h : Owes p bs c) {j : Nat}
    (hj : j < bs.length) : decodeFrom (some p) (bs.take j) = [0xFFFD] := by
  induction h generalizing j with
  | last bounds needed =>
    have : j = 0 := by simpa using hj
    rw [this]
    rfl
  | more bounds needed _ ih =>
    cases j with
    | zero => rfl
    | succ j =>
      simp only [List.take_succ_cons, decodeFrom, if_pos bounds, if_neg needed]
      exact ih (by simpa using hj)

/-- `b` is no first byte of a sequence. -/
def IsContinuation (b : UInt8) : Prop := 0x80 ≤ b ∧ b < 0xC0

theorem first_continuation {b : UInt8} (h : IsContinuation b) : first b = ([0xFFFD], none) := by
  obtain ⟨hlo, hhi⟩ := h
  simp only [UInt8.le_iff_toNat_le, UInt8.lt_iff_toNat_lt, UInt8.reduceToNat] at hlo hhi
  unfold first
  simp only [UInt8.le_iff_toNat_le, UInt8.lt_iff_toNat_lt, UInt8.reduceToNat]
  rw [if_neg (by omega), if_neg (by omega), if_neg (by omega), if_neg (by omega)]

theorem decode_continuations {bs : Bytes} (h : ∀ b ∈ bs, IsContinuation b) (rest : Bytes) :
    decodeFrom none (bs ++ rest) = List.replicate bs.length 0xFFFD ++ decodeFrom none rest := by
  induction bs with
  | nil => rfl
  | cons b bs ih =>
    simp only [List.cons_append, decodeFrom, first_continuation (h b (by simp)),
      ih fun c hc => h c (by simp [hc])]
    rfl

/-! The bytes of a scalar value, by the length of its sequence. -/

theorem toNat_ofNat {n : Nat} (h : n < 256) : (UInt8.ofNat n).toNat = n := by
  rw [UInt8.toNat_ofNat']
  omega

/-- A byte after the first, with its six bits. -/
structure Carries (b : UInt8) (n : Nat) : Prop where
  toNat : b.toNat = 0x80 + n
  small : n < 0x40

theorem carries_ofNat {n : Nat} (h : n < 0x40) : Carries (UInt8.ofNat (0x80 + n)) n :=
  ⟨toNat_ofNat (by omega), h⟩

theorem Carries.isContinuation {b : UInt8} {n : Nat} (h : Carries b n) : IsContinuation b := by
  have hb := h.toNat
  have hn := h.small
  constructor
  · simp only [UInt8.le_iff_toNat_le, UInt8.reduceToNat]
    omega
  · simp only [UInt8.lt_iff_toNat_lt, UInt8.reduceToNat]
    omega

theorem Carries.bounds {b lower upper : UInt8} {n : Nat} (h : Carries b n)
    (hlo : lower.toNat ≤ 0x80 + n) (hhi : 0x80 + n ≤ upper.toNat) : lower ≤ b ∧ b ≤ upper := by
  rw [UInt8.le_iff_toNat_le, UInt8.le_iff_toNat_le, h.toNat]
  exact ⟨hlo, hhi⟩

theorem Carries.any {b : UInt8} {n : Nat} (h : Carries b n) : 0x80 ≤ b ∧ b ≤ 0xBF := by
  have hn := h.small
  refine h.bounds ?_ ?_
  · simp
  · simp only [UInt8.reduceToNat]
    omega

theorem Carries.owes_last {b : UInt8} {n bits c : Nat} (h : Carries b n) {lower upper : UInt8}
    (hb : lower ≤ b ∧ b ≤ upper) (hc : bits * 0x40 + n = c) : Owes ⟨1, lower, upper, bits⟩ [b] c := by
  have hl : Owes ⟨1, lower, upper, bits⟩ [b] (bits * 0x40 + (b.toNat - 0x80)) := .last hb (le_refl _)
  rwa [h.toNat, Nat.add_sub_cancel_left, hc] at hl

theorem Carries.owes_more {b : UInt8} {n bits c k : Nat} {bs : Bytes} (h : Carries b n)
    {lower upper : UInt8} (hb : lower ≤ b ∧ b ≤ upper)
    (rest : Owes ⟨k + 1, 0x80, 0xBF, bits * 0x40 + n⟩ bs c) :
    Owes ⟨k + 2, lower, upper, bits⟩ (b :: bs) c := by
  refine .more hb (by simp) ?_
  rw [h.toNat, Nat.add_sub_cancel_left]
  exact rest

/-- The first byte of a longer sequence and what it leaves owed. -/
structure Opening (c : Nat) (b : UInt8) (bs : Bytes) (p : Partial) : Prop where
  encoded : encodeScalar c = b :: bs
  first : first b = ([], some p)
  owes : Owes p bs c
  continuations : ∀ x ∈ bs, IsContinuation x

theorem opening_two {c : Nat} (hlo : 0x80 ≤ c) (hhi : c < 0x800) :
    ∃ b bs p, Opening c b bs p := by
  have hb : (UInt8.ofNat (0xC0 + c / 0x40)).toNat = 0xC0 + c / 0x40 := toNat_ofNat (by omega)
  have hx : Carries (UInt8.ofNat (0x80 + c % 0x40)) (c % 0x40) := carries_ofNat (by omega)
  refine ⟨UInt8.ofNat (0xC0 + c / 0x40), [UInt8.ofNat (0x80 + c % 0x40)],
    ⟨1, 0x80, 0xBF, c / 0x40⟩, ?_, ?_, hx.owes_last hx.any (by omega), ?_⟩
  · rw [encodeScalar, if_neg (by omega), if_pos hhi]
  · simp only [first, UInt8.le_iff_toNat_le, UInt8.lt_iff_toNat_lt, UInt8.reduceToNat, hb]
    rw [if_neg (by omega), if_pos (by omega), Nat.add_sub_cancel_left]
  · exact List.forall_mem_singleton.mpr hx.isContinuation

theorem opening_three {c : Nat} (hlo : 0x800 ≤ c) (hhi : c < 0x10000) (hs : IsScalar c) :
    ∃ b bs p, Opening c b bs p := by
  have hb : (UInt8.ofNat (0xE0 + c / 0x1000)).toNat = 0xE0 + c / 0x1000 := toNat_ofNat (by omega)
  have hx : Carries (UInt8.ofNat (0x80 + c / 0x40 % 0x40)) (c / 0x40 % 0x40) := carries_ofNat (by omega)
  have hy : Carries (UInt8.ofNat (0x80 + c % 0x40)) (c % 0x40) := carries_ofNat (by omega)
  have heq : ∀ m : UInt8, UInt8.ofNat (0xE0 + c / 0x1000) = m ↔ 0xE0 + c / 0x1000 = m.toNat := by
    intro m
    rw [← UInt8.toNat_inj, hb]
  refine ⟨UInt8.ofNat (0xE0 + c / 0x1000), [UInt8.ofNat (0x80 + c / 0x40 % 0x40),
      UInt8.ofNat (0x80 + c % 0x40)],
    ⟨2, if c / 0x1000 = 0 then 0xA0 else 0x80, if c / 0x1000 = 0xD then 0x9F else 0xBF, c / 0x1000⟩,
    ?_, ?_, hx.owes_more (hx.bounds ?_ ?_) (hy.owes_last hy.any (by omega)), ?_⟩
  · rw [encodeScalar, if_neg (by omega), if_neg (by omega), if_pos hhi]
  · simp only [first, UInt8.le_iff_toNat_le, UInt8.lt_iff_toNat_lt, heq, UInt8.reduceToNat, hb]
    rw [if_neg (by omega), if_neg (by omega), if_pos (by omega), Nat.add_sub_cancel_left]
    simp only [Nat.add_eq_left, show (0xE0 + c / 0x1000 = 0xED) ↔ (c / 0x1000 = 0xD) by omega]
  · split
    · simp only [UInt8.reduceToNat]
      omega
    · simp
  · split
    · rcases hs with hs | hs
      · simp only [UInt8.reduceToNat]
        omega
      · omega
    · simp only [UInt8.reduceToNat]
      omega
  · exact List.forall_mem_cons.mpr ⟨hx.isContinuation, List.forall_mem_singleton.mpr hy.isContinuation⟩

theorem opening_four {c : Nat} (hlo : 0x10000 ≤ c) (hs : IsScalar c) :
    ∃ b bs p, Opening c b bs p := by
  have hc : c < 0x110000 := by rcases hs with hs | hs <;> omega
  have hb : (UInt8.ofNat (0xF0 + c / 0x40000)).toNat = 0xF0 + c / 0x40000 := toNat_ofNat (by omega)
  have hx : Carries (UInt8.ofNat (0x80 + c / 0x1000 % 0x40)) (c / 0x1000 % 0x40) :=
    carries_ofNat (by omega)
  have hy : Carries (UInt8.ofNat (0x80 + c / 0x40 % 0x40)) (c / 0x40 % 0x40) := carries_ofNat (by omega)
  have hz : Carries (UInt8.ofNat (0x80 + c % 0x40)) (c % 0x40) := carries_ofNat (by omega)
  have heq : ∀ m : UInt8, UInt8.ofNat (0xF0 + c / 0x40000) = m ↔ 0xF0 + c / 0x40000 = m.toNat := by
    intro m
    rw [← UInt8.toNat_inj, hb]
  refine ⟨UInt8.ofNat (0xF0 + c / 0x40000), [UInt8.ofNat (0x80 + c / 0x1000 % 0x40),
      UInt8.ofNat (0x80 + c / 0x40 % 0x40), UInt8.ofNat (0x80 + c % 0x40)],
    ⟨3, if c / 0x40000 = 0 then 0x90 else 0x80, if c / 0x40000 = 4 then 0x8F else 0xBF, c / 0x40000⟩,
    ?_, ?_, hx.owes_more (hx.bounds ?_ ?_) (hy.owes_more hy.any (hz.owes_last hz.any (by omega))), ?_⟩
  · rw [encodeScalar, if_neg (by omega), if_neg (by omega), if_neg (by omega)]
  · simp only [first, UInt8.le_iff_toNat_le, UInt8.lt_iff_toNat_lt, heq, UInt8.reduceToNat, hb]
    rw [if_neg (by omega), if_neg (by omega), if_neg (by omega), if_pos (by omega),
      Nat.add_sub_cancel_left]
    simp only [Nat.add_eq_left, show (0xF0 + c / 0x40000 = 0xF4) ↔ (c / 0x40000 = 4) by omega]
  · split
    · simp only [UInt8.reduceToNat]
      omega
    · simp
  · split
    · simp only [UInt8.reduceToNat]
      omega
    · simp only [UInt8.reduceToNat]
      omega
  · exact List.forall_mem_cons.mpr ⟨hx.isContinuation, List.forall_mem_cons.mpr
      ⟨hy.isContinuation, List.forall_mem_singleton.mpr hz.isContinuation⟩⟩

theorem exists_opening {c : Nat} (hs : IsScalar c) (hc : 0x80 ≤ c) : ∃ b bs p, Opening c b bs p := by
  by_cases h₂ : c < 0x800
  · exact opening_two hc h₂
  · by_cases h₃ : c < 0x10000
    · exact opening_three (by omega) h₃ hs
    · exact opening_four (by omega) hs

/-! ## A text -/

def units (cs : List Nat) : JsString := cs.flatMap encodeCodePoint
def bytes (cs : List Nat) : Bytes := cs.flatMap encodeScalar

theorem decode_scalar {c : Nat} (hs : IsScalar c) (rest : Bytes) :
    decodeFrom none (encodeScalar c ++ rest) = encodeCodePoint c ++ decodeFrom none rest := by
  by_cases hc : c < 0x80
  · have hb : (UInt8.ofNat c).toNat = c := toNat_ofNat (by omega)
    have hlt : UInt8.ofNat c < 0x80 := by
      rw [UInt8.lt_iff_toNat_lt, hb]
      exact hc
    rw [encodeScalar, if_pos hc, List.singleton_append, decodeFrom, first, if_pos hlt, encodeCodePoint,
      if_pos (by omega)]
    simp only [List.cons_append, List.nil_append, List.cons.injEq, and_true]
    rw [← UInt16.toNat_inj, UInt8.toNat_toUInt16, hb, UInt16.toNat_ofNat']
    omega
  · obtain ⟨b, bs, p, ho⟩ := exists_opening hs (by omega)
    rw [ho.encoded, List.cons_append, decodeFrom, ho.first]
    exact ho.owes.decode rest

theorem decode_bytes {cs : List Nat} (h : ∀ c ∈ cs, IsScalar c) (rest : Bytes) :
    decodeFrom none (bytes cs ++ rest) = units cs ++ decodeFrom none rest := by
  induction cs with
  | nil => rfl
  | cons c cs ih =>
    rw [bytes, units, List.flatMap_cons, List.flatMap_cons, List.append_assoc, List.append_assoc,
      decode_scalar (h c (by simp))]
    exact congrArg _ (ih fun d hd => h d (by simp [hd]))

theorem encodeCodePoint_ne_nil (c : Nat) : encodeCodePoint c ≠ [] := by
  unfold encodeCodePoint
  split
  · simp
  · simp

/-- A first byte with all that follows it, or an ASCII byte. -/
theorem encodeScalar_cut {c i : Nat} (hs : IsScalar c) (hi : 0 < i) (hlt : i < (encodeScalar c).length) :
    ∃ b bs p, Opening c b bs p ∧ i - 1 < bs.length := by
  by_cases hc : c < 0x80
  · rw [encodeScalar, if_pos hc] at hlt
    simp only [List.length_singleton] at hlt
    omega
  · obtain ⟨b, bs, p, ho⟩ := exists_opening hs (by omega)
    rw [ho.encoded, List.length_cons] at hlt
    exact ⟨b, bs, p, ho, by omega⟩

/-- What is left of the bytes of a text after the first of them: the rest of a
broken sequence and the rest of the text. -/
theorem drop_bytes {cs : List Nat} (h : ∀ c ∈ cs, IsScalar c) {i : Nat} (hi : i ≤ (bytes cs).length) :
    ∃ p bs ds, units cs = p ++ units ds ∧ (0 < i → p ≠ []) ∧ (∀ b ∈ bs, IsContinuation b) ∧
      (∀ d ∈ ds, IsScalar d) ∧ (bytes cs).drop i = bs ++ bytes ds := by
  induction cs generalizing i with
  | nil =>
    have hz : i = 0 := by simpa [bytes] using hi
    exact ⟨[], [], [], rfl, by omega, by simp, by simp, by rw [hz]; rfl⟩
  | cons c cs ih =>
    have hrest : ∀ d ∈ cs, IsScalar d := fun d hd => h d (by simp [hd])
    have hcons : bytes (c :: cs) = encodeScalar c ++ bytes cs := rfl
    have hunits : units (c :: cs) = encodeCodePoint c ++ units cs := rfl
    by_cases hz : i = 0
    · exact ⟨[], [], c :: cs, rfl, by omega, by simp, h, by rw [hz]; rfl⟩
    · by_cases hlt : i < (encodeScalar c).length
      · obtain ⟨b, bs, p, ho, hj⟩ := encodeScalar_cut (h c (by simp)) (by omega) hlt
        have hi' : i = i - 1 + 1 := by omega
        refine ⟨encodeCodePoint c, bs.drop (i - 1), cs, hunits, fun _ => encodeCodePoint_ne_nil c,
          fun x hx => ho.continuations x (List.mem_of_mem_drop hx), hrest, ?_⟩
        rw [hcons, List.drop_append_of_le_length (by omega), ho.encoded, hi', List.drop_succ_cons,
          Nat.add_sub_cancel]
      · have hle : i - (encodeScalar c).length ≤ (bytes cs).length := by
          rw [hcons, List.length_append] at hi
          omega
        obtain ⟨p, bs, ds, hu, _, hbs, hds, hd⟩ := ih hrest hle
        refine ⟨encodeCodePoint c ++ p, bs, ds, by rw [hunits, hu, List.append_assoc], fun _ => ?_, hbs,
          hds, ?_⟩
        · exact List.append_ne_nil_of_left_ne_nil (encodeCodePoint_ne_nil c) p
        · rw [hcons, List.drop_append, List.drop_eq_nil_of_le (by omega), List.nil_append, hd]

/-- The last bytes of a text. -/
theorem decode_drop {cs : List Nat} (h : ∀ c ∈ cs, IsScalar c) {i : Nat} (hi : i ≤ (bytes cs).length) :
    ∃ p k q, units cs = p ++ q ∧ (0 < i → p ≠ []) ∧
      decode ((bytes cs).drop i) = List.replicate k 0xFFFD ++ q := by
  obtain ⟨p, bs, ds, hu, hp, hbs, hds, hd⟩ := drop_bytes h hi
  refine ⟨p, bs.length, units ds, hu, hp, ?_⟩
  have hall := decode_bytes hds []
  rw [List.append_nil] at hall
  rw [hd, decode, decode_continuations hbs, hall]
  exact congrArg _ (List.append_nil _)

/-- The first bytes of a text. -/
theorem decode_take {cs : List Nat} (h : ∀ c ∈ cs, IsScalar c) {i : Nat} (hi : i < (bytes cs).length) :
    ∃ p r q, units cs = p ++ q ∧ q ≠ [] ∧ (r = [] ∨ r = [0xFFFD]) ∧
      decode ((bytes cs).take i) = p ++ r := by
  induction cs generalizing i with
  | nil => cases hi
  | cons c cs ih =>
    have hcons : bytes (c :: cs) = encodeScalar c ++ bytes cs := rfl
    have hunits : units (c :: cs) = encodeCodePoint c ++ units cs := rfl
    have hne : units (c :: cs) ≠ [] := List.append_ne_nil_of_left_ne_nil (encodeCodePoint_ne_nil c) _
    by_cases hlt : i < (encodeScalar c).length
    · by_cases hz : i = 0
      · exact ⟨[], [], _, rfl, hne, .inl rfl, by rw [hz]; rfl⟩
      · obtain ⟨b, bs, p, ho, hj⟩ := encodeScalar_cut (h c (by simp)) (by omega) hlt
        have hi' : i = i - 1 + 1 := by omega
        refine ⟨[], [0xFFFD], _, rfl, hne, .inr rfl, ?_⟩
        rw [hcons, List.take_append_of_le_length (by omega), ho.encoded, hi', List.take_succ_cons, decode,
          decodeFrom, ho.first]
        exact ho.owes.take hj
    · have hle : i - (encodeScalar c).length < (bytes cs).length := by
        rw [hcons, List.length_append] at hi
        omega
      obtain ⟨p, r, q, hu, hq, hr, hd⟩ := ih (fun d hd => h d (by simp [hd])) hle
      refine ⟨encodeCodePoint c ++ p, r, q, by rw [hunits, hu, List.append_assoc], hq, hr, ?_⟩
      rw [hcons, List.take_append, List.take_of_length_le (by omega), decode, decode_scalar (h c (by simp)),
        List.append_assoc]
      exact congrArg _ hd

/-- No byte of a piece of a text decodes to a unit that the text does not have,
the replacement of what was cut apart. -/
theorem mem_decode_slice {cs : List Nat} (h : ∀ c ∈ cs, IsScalar c) {i : Nat}
    (hi : i ≤ (bytes cs).length) (j : Nat) {u : UInt16} (hu : u ≠ 0xFFFD)
    (hmem : u ∈ decode (((bytes cs).drop i).take j)) : u ∈ units cs := by
  obtain ⟨p, bs, ds, hunits, _, hbs, hds, hd⟩ := drop_bytes h hi
  have hrest : ∀ (x : JsString), u ∈ List.replicate bs.length 0xFFFD ++ x → u ∈ x := by
    intro x hx
    rcases List.mem_append.mp hx with hx | hx
    · exact absurd (List.eq_of_mem_replicate hx) hu
    · exact hx
  rw [hunits]
  refine List.mem_append_right p ?_
  rw [hd, List.take_append] at hmem
  by_cases hj : j ≤ bs.length
  · have hall : decodeFrom none (bs.take j ++ []) = List.replicate (bs.take j).length 0xFFFD ++ [] :=
      decode_continuations (fun b hb => hbs b (List.mem_of_mem_take hb)) []
    rw [Nat.sub_eq_zero_of_le hj, List.take_zero, decode, hall] at hmem
    rcases List.mem_append.mp hmem with hx | hx
    · exact absurd (List.eq_of_mem_replicate hx) hu
    · cases hx
  · rw [List.take_of_length_le (by omega), decode, decode_continuations hbs] at hmem
    have hmem := hrest _ hmem
    by_cases hlt : j - bs.length < (bytes ds).length
    · obtain ⟨p', r, q, hu', _, hr, hd'⟩ := decode_take hds hlt
      rw [show decodeFrom none ((bytes ds).take (j - bs.length)) = p' ++ r from hd'] at hmem
      rw [hu']
      rcases List.mem_append.mp hmem with hx | hx
      · exact List.mem_append_left q hx
      · rcases hr with rfl | rfl
        · cases hx
        · exact absurd (List.mem_singleton.mp hx) hu
    · have hall := decode_bytes hds []
      rw [List.append_nil] at hall
      rw [List.take_of_length_le (by omega), hall] at hmem
      rcases List.mem_append.mp hmem with hx | hx
      · exact hx
      · cases hx

/-! ## Texts without half surrogate pairs -/

/-- The text of a sequence of code points: it is written as it is. -/
def IsText (s : JsString) : Prop := ∃ cs, (∀ c ∈ cs, IsScalar c) ∧ s = units cs

theorem isText_nil : IsText [] := ⟨[], by simp, rfl⟩

theorem IsText.append {s t : JsString} (hs : IsText s) (ht : IsText t) : IsText (s ++ t) := by
  obtain ⟨cs, hcs, rfl⟩ := hs
  obtain ⟨ds, hds, rfl⟩ := ht
  exact ⟨cs ++ ds, List.forall_mem_append.mpr ⟨hcs, hds⟩, by simp [units]⟩

theorem isText_unit {u : UInt16} (hh : isHighSurrogate u = false) (hl : isLowSurrogate u = false) :
    IsText [u] := by
  have hu : u.toNat < 65536 := u.toNat_lt
  refine ⟨[u.toNat], List.forall_mem_singleton.mpr ?_, ?_⟩
  · simp only [isHighSurrogate, isLowSurrogate, Bool.and_eq_false_iff, decide_eq_false_iff_not,
      UInt16.le_iff_toNat_le, UInt16.reduceToNat] at hh hl
    unfold IsScalar
    omega
  · rw [units, List.flatMap_cons, List.flatMap_nil, List.append_nil, encodeCodePoint, if_pos hu,
      UInt16.ofNat_toNat]

/-- ASCII. -/
theorem isText_ascii {s : JsString} (h : ∀ u ∈ s, u < 0x80) : IsText s := by
  induction s with
  | nil => exact isText_nil
  | cons u s ih =>
    have hu := h u (by simp)
    have hne : isHighSurrogate u = false ∧ isLowSurrogate u = false := by
      simp only [isHighSurrogate, isLowSurrogate, Bool.and_eq_false_iff, decide_eq_false_iff_not,
        UInt16.le_iff_toNat_le, UInt16.lt_iff_toNat_lt, UInt16.reduceToNat] at hu ⊢
      omega
    exact (isText_unit hne.1 hne.2).append (ih fun v hv => h v (by simp [hv]))

theorem isText_of_all {s : JsString} (h : s.all fun u => decide (u < 0x80)) : IsText s :=
  isText_ascii fun u hu => of_decide_eq_true (List.all_eq_true.mp h u hu)

theorem isText_pair {u v : UInt16} (hu : isHighSurrogate u = true) (hv : isLowSurrogate v = true) :
    IsText [u, v] := by
  obtain ⟨hlo, hhi⟩ := pairCodePoint_lt hu hv
  refine ⟨[pairCodePoint u v], List.forall_mem_singleton.mpr (.inr ⟨by omega, hhi⟩), ?_⟩
  simp only [isHighSurrogate, isLowSurrogate, Bool.and_eq_true, decide_eq_true_eq,
    UInt16.le_iff_toNat_le, UInt16.reduceToNat] at hu hv
  have hlong : ¬ pairCodePoint u v < 0x10000 := by omega
  unfold pairCodePoint at *
  rw [units, List.flatMap_cons, List.flatMap_nil, List.append_nil, encodeCodePoint, if_neg hlong]
  simp only [List.cons.injEq, and_true, ← UInt16.toNat_inj, UInt16.toNat_ofNat']
  omega

theorem encodeUnit_scalar {c : Nat} (hs : IsScalar c) (hc : c < 0x10000) :
    isHighSurrogate (UInt16.ofNat c) = false ∧ encodeUnit (UInt16.ofNat c) = encodeScalar c := by
  have hn : (UInt16.ofNat c).toNat = c := by
    rw [UInt16.toNat_ofNat']
    omega
  have hh : isHighSurrogate (UInt16.ofNat c) = false := by
    simp only [isHighSurrogate, Bool.and_eq_false_iff, decide_eq_false_iff_not,
      UInt16.le_iff_toNat_le, UInt16.reduceToNat, hn]
    rcases hs with hs | hs
    · omega
    · omega
  have hl : isLowSurrogate (UInt16.ofNat c) = false := by
    simp only [isLowSurrogate, Bool.and_eq_false_iff, decide_eq_false_iff_not,
      UInt16.le_iff_toNat_le, UInt16.reduceToNat, hn]
    rcases hs with hs | hs
    · omega
    · omega
  exact ⟨hh, by rw [encodeUnit, hh, hl, hn]; rfl⟩

theorem encode_cons_unit {u : UInt16} (h : isHighSurrogate u = false) (s : JsString) :
    encode (u :: s) = encodeUnit u ++ encode s := by
  cases s with
  | nil => simp [encode]
  | cons v s => rw [encode, h]; rfl

theorem encode_units {cs : List Nat} (h : ∀ c ∈ cs, IsScalar c) : encode (units cs) = bytes cs := by
  induction cs with
  | nil => rfl
  | cons c cs ih =>
    have hs := h c (by simp)
    have hrest := ih fun d hd => h d (by simp [hd])
    have hunits : units (c :: cs) = encodeCodePoint c ++ units cs := rfl
    rw [hunits, show bytes (c :: cs) = encodeScalar c ++ bytes cs from rfl, encodeCodePoint, ← hrest]
    by_cases hc : c < 0x10000
    · obtain ⟨hh, he⟩ := encodeUnit_scalar hs hc
      rw [if_pos hc, List.singleton_append, encode_cons_unit hh, he]
    · have hlt : c < 0x110000 := by
        rcases hs with hs | hs
        · omega
        · exact hs.2
      have hhi : (UInt16.ofNat (0xD800 + (c - 0x10000) / 0x400)).toNat = 0xD800 + (c - 0x10000) / 0x400 := by
        rw [UInt16.toNat_ofNat']
        omega
      have hlo : (UInt16.ofNat (0xDC00 + (c - 0x10000) % 0x400)).toNat = 0xDC00 + (c - 0x10000) % 0x400 := by
        rw [UInt16.toNat_ofNat']
        omega
      have hpair : (isHighSurrogate (UInt16.ofNat (0xD800 + (c - 0x10000) / 0x400)) &&
          isLowSurrogate (UInt16.ofNat (0xDC00 + (c - 0x10000) % 0x400))) = true := by
        simp only [isHighSurrogate, isLowSurrogate, Bool.and_eq_true, decide_eq_true_eq,
          UInt16.le_iff_toNat_le, UInt16.reduceToNat, hhi, hlo]
        omega
      have hcode : 0x10000 + (0xD800 + (c - 0x10000) / 0x400 - 0xD800) * 0x400 +
          (0xDC00 + (c - 0x10000) % 0x400 - 0xDC00) = c := by omega
      rw [if_neg hc, List.cons_append, List.singleton_append, encode, if_pos hpair]
      unfold pairCodePoint
      rw [hhi, hlo, hcode]

/-- Writing a text and reading it back. -/
theorem IsText.decode_encode {s : JsString} (h : IsText s) : decode (encode s) = s := by
  obtain ⟨cs, hcs, rfl⟩ := h
  have hd := decode_bytes hcs []
  rw [List.append_nil] at hd
  rw [encode_units hcs, decode, hd]
  exact List.append_nil _

theorem encode_ascii {s : JsString} (h : ∀ u ∈ s, u < 0x80) : encode s = s.map (·.toUInt8) := by
  have hunit : ∀ u ∈ s, isHighSurrogate u = false ∧ encodeUnit u = [u.toUInt8] := by
    intro u hu
    have hlt : u.toNat < 0x80 := h u hu
    have hhigh : isHighSurrogate u = false := by
      simp only [isHighSurrogate, Bool.and_eq_false_iff, decide_eq_false_iff_not,
        UInt16.le_iff_toNat_le, UInt16.reduceToNat]
      omega
    have hlow : isLowSurrogate u = false := by
      simp only [isLowSurrogate, Bool.and_eq_false_iff, decide_eq_false_iff_not,
        UInt16.le_iff_toNat_le, UInt16.reduceToNat]
      omega
    refine ⟨hhigh, ?_⟩
    rw [encodeUnit, hhigh, hlow, encodeScalar]
    simp only [Bool.or_self, Bool.false_eq_true, if_false, hlt, if_true]
    rfl
  induction s using encode.induct with
  | case1 => rfl
  | case2 u => exact (hunit u (by simp)).2
  | case3 u v rest hpair ih =>
    rw [(hunit u (by simp)).1] at hpair
    cases hpair
  | case4 u v rest hpair ih =>
    rw [encode, if_neg hpair, (hunit u (by simp)).2,
      ih (fun w hw => h w (by simp [hw])) (fun w hw => hunit w (by simp [hw]))]
    rfl

theorem decode_ascii {s : JsString} (h : ∀ u ∈ s, u < 0x80) : decode (s.map (·.toUInt8)) = s := by
  rw [← encode_ascii h]
  exact (isText_ascii h).decode_encode

/-! ## Lines -/

theorem first_lower {b : UInt8} {p : Partial} (h : (first b).2 = some p) : 0x80 ≤ p.lower := by
  unfold first at h
  split_ifs at h
  all_goals
    cases h
    dsimp only
    decide

/-- A line feed ends whatever sequence was open before it. -/
theorem decodeFrom_newline (a b : Bytes) {p : Option Partial} (hp : ∀ q, p = some q → 0x80 ≤ q.lower) :
    decodeFrom p (a ++ 10 :: b) = decodeFrom p a ++ 10 :: decodeFrom none b := by
  induction a generalizing p with
  | nil =>
    cases p with
    | none => rfl
    | some q =>
      have hlow : ¬ (q.lower ≤ 10 ∧ (10 : UInt8) ≤ q.upper) := by
        intro h
        exact absurd (UInt8.le_trans (hp q rfl) h.1) (by decide)
      simp only [List.nil_append, decodeFrom, if_neg hlow]
      rfl
  | cons x a ih =>
    have hfirst : decodeFrom (first x).2 (a ++ 10 :: b) = decodeFrom (first x).2 a ++ 10 :: decodeFrom none b :=
      ih fun q hq => first_lower hq
    cases p with
    | none => rw [List.cons_append, decodeFrom, decodeFrom, hfirst, List.append_assoc]
    | some q =>
      rw [List.cons_append, decodeFrom, decodeFrom]
      split
      · simp only
        split
        · rw [ih (by simp), List.append_assoc]
        · refine ih fun r hr => ?_
          cases hr
          exact UInt8.le_refl _
      · rw [hfirst, List.cons_append, List.append_assoc]

theorem decode_newline (a b : Bytes) : decode (a ++ 10 :: b) = decode a ++ 10 :: decode b :=
  decodeFrom_newline a b (by simp)

end Conductor.Js.Utf8Cut
