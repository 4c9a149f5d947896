import Mathlib.Data.List.Basic

/-! # Unanchored regular expressions with word boundaries

The fragment of backtracking regular expressions that decides by searching:
character classes, repetition of one class, sequence, alternation, `\b` and
`$`. A position in a subject is a pair of lists, the part before it reversed
and the part after it. `Matches` says what a pattern accepts at a position,
`ends` computes where a match started there can end, and `test` searches. -/
namespace Conductor.Lib.Regex

variable {α β : Type*}

inductive Pattern (α : Type*) where
  | empty
  /-- One character of the class. -/
  | chr (p : α → Bool)
  /-- Any number of characters of the class. -/
  | many (p : α → Bool)
  | seq (r s : Pattern α)
  | alt (r s : Pattern α)
  /-- `\b`: exactly one of the two neighbours is in the class of word characters. -/
  | bound (w : α → Bool)
  /-- `$` without the multiline flag. -/
  | atEnd

/-- Exactly one of the neighbours of a position is a word character. -/
def isBound (w : α → Bool) (left right : List α) : Bool :=
  left.head?.any w != right.head?.any w

/-- What a pattern accepts after `left` (reversed) and before `post`. -/
def Pattern.Matches : Pattern α → List α → List α → List α → Prop
  | .empty, _, mid, _ => mid = []
  | .chr p, _, mid, _ => ∃ a, p a = true ∧ mid = [a]
  | .many p, _, mid, _ => ∀ a ∈ mid, p a = true
  | .seq r s, left, mid, post => ∃ m₁ m₂, mid = m₁ ++ m₂ ∧
      r.Matches left m₁ (m₂ ++ post) ∧ s.Matches (m₁.reverse ++ left) m₂ post
  | .alt r s, left, mid, post => r.Matches left mid post ∨ s.Matches left mid post
  | .bound w, left, mid, post => mid = [] ∧ isBound w left post = true
  | .atEnd, _, mid, post => mid = [] ∧ post = []

/-- The positions reached by taking characters of one class. -/
def manyEnds (p : α → Bool) : List α → List α → List (List α × List α)
  | left, [] => [(left, [])]
  | left, a :: rest => (left, a :: rest) :: if p a then manyEnds p (a :: left) rest else []

/-- The positions where a match that starts at the given one can end. -/
def Pattern.ends : Pattern α → List α → List α → List (List α × List α)
  | .empty, left, rest => [(left, rest)]
  | .chr _, _, [] => []
  | .chr p, left, a :: rest => if p a then [(a :: left, rest)] else []
  | .many p, left, rest => manyEnds p left rest
  | .seq r s, left, rest => (r.ends left rest).flatMap fun q => s.ends q.1 q.2
  | .alt r s, left, rest => r.ends left rest ++ s.ends left rest
  | .bound w, left, rest => if isBound w left rest then [(left, rest)] else []
  | .atEnd, left, rest => if rest.isEmpty then [(left, rest)] else []

/-- Search from the given position on. -/
def Pattern.search (r : Pattern α) : List α → List α → Bool
  | left, [] => !(r.ends left []).isEmpty
  | left, a :: rest => !(r.ends left (a :: rest)).isEmpty || r.search (a :: left) rest

/-- `RegExp.prototype.test`. -/
def Pattern.test (r : Pattern α) (subject : List α) : Bool := r.search [] subject

theorem mem_manyEnds {p : α → Bool} {left rest left' rest' : List α} :
    (left', rest') ∈ manyEnds p left rest ↔
      ∃ mid, rest = mid ++ rest' ∧ left' = mid.reverse ++ left ∧ ∀ a ∈ mid, p a = true := by
  induction rest generalizing left with
  | nil =>
    simp only [manyEnds, List.mem_singleton, Prod.mk.injEq]
    constructor
    · intro h
      obtain ⟨rfl, rfl⟩ := h
      exact ⟨[], by simp⟩
    · intro h
      obtain ⟨mid, hr, rfl, -⟩ := h
      obtain ⟨rfl, rfl⟩ := List.append_eq_nil_iff.mp hr.symm
      simp
  | cons a rest ih =>
    simp only [manyEnds, List.mem_cons, Prod.mk.injEq]
    constructor
    · intro h
      rcases h with ⟨rfl, rfl⟩ | h
      · exact ⟨[], by simp⟩
      · split at h
        · rename_i ha
          obtain ⟨mid, rfl, rfl, hm⟩ := ih.mp h
          exact ⟨a :: mid, by simp, by simp, by simpa [ha] using hm⟩
        · simp at h
    · intro h
      obtain ⟨mid, hr, rfl, hm⟩ := h
      cases mid with
      | nil => left; simp at hr; simp [hr]
      | cons b mid =>
        right
        obtain ⟨rfl, rfl⟩ : a = b ∧ rest = mid ++ rest' := by simpa using hr
        rw [if_pos (hm a (by simp))]
        exact ih.mpr ⟨mid, rfl, by simp, fun c hc => hm c (by simp [hc])⟩

/-- `ends` enumerates exactly the ends of the matches. -/
theorem mem_ends (r : Pattern α) {left rest left' rest' : List α} :
    (left', rest') ∈ r.ends left rest ↔
      ∃ mid, rest = mid ++ rest' ∧ left' = mid.reverse ++ left ∧ r.Matches left mid rest' := by
  induction r generalizing left rest left' rest' with
  | empty =>
    simp only [Pattern.ends, List.mem_singleton, Prod.mk.injEq, Pattern.Matches]
    constructor
    · intro h
      obtain ⟨rfl, rfl⟩ := h
      exact ⟨[], by simp⟩
    · intro h
      obtain ⟨mid, rfl, rfl, rfl⟩ := h
      simp
  | chr p =>
    cases rest with
    | nil => simp [Pattern.ends, Pattern.Matches]
    | cons a rest =>
      simp only [Pattern.ends, Pattern.Matches]
      constructor
      · intro h
        split at h
        · rename_i ha
          obtain ⟨rfl, rfl⟩ : left' = a :: left ∧ rest' = rest := by simpa using h
          exact ⟨[a], by simp, by simp, a, ha, rfl⟩
        · simp at h
      · intro h
        obtain ⟨mid, hr, rfl, b, hb, rfl⟩ := h
        obtain ⟨rfl, rfl⟩ : a = b ∧ rest = rest' := by simpa using hr
        simp [hb]
  | many p => exact mem_manyEnds
  | seq r s ihr ihs =>
    simp only [Pattern.ends, List.mem_flatMap, Pattern.Matches]
    constructor
    · intro h
      obtain ⟨⟨l₁, r₁⟩, h₁, h₂⟩ := h
      obtain ⟨m₁, rfl, rfl, hm₁⟩ := ihr.mp h₁
      obtain ⟨m₂, rfl, rfl, hm₂⟩ := ihs.mp h₂
      exact ⟨m₁ ++ m₂, by simp, by simp, m₁, m₂, rfl, hm₁, hm₂⟩
    · intro h
      obtain ⟨mid, rfl, rfl, m₁, m₂, rfl, hm₁, hm₂⟩ := h
      exact ⟨(m₁.reverse ++ left, m₂ ++ rest'), ihr.mpr ⟨m₁, by simp, rfl, hm₁⟩,
        ihs.mpr ⟨m₂, rfl, by simp, hm₂⟩⟩
  | alt r s ihr ihs =>
    simp only [Pattern.ends, List.mem_append, ihr, ihs, Pattern.Matches]
    constructor
    · intro h
      rcases h with ⟨mid, h₁, h₂, h⟩ | ⟨mid, h₁, h₂, h⟩
      · exact ⟨mid, h₁, h₂, Or.inl h⟩
      · exact ⟨mid, h₁, h₂, Or.inr h⟩
    · intro h
      obtain ⟨mid, h₁, h₂, h | h⟩ := h
      · exact Or.inl ⟨mid, h₁, h₂, h⟩
      · exact Or.inr ⟨mid, h₁, h₂, h⟩
  | bound w =>
    simp only [Pattern.ends, Pattern.Matches]
    constructor
    · intro h
      split at h
      · rename_i hb
        obtain ⟨rfl, rfl⟩ : left' = left ∧ rest' = rest := by simpa using h
        exact ⟨[], by simp, by simp, rfl, hb⟩
      · simp at h
    · intro h
      obtain ⟨mid, rfl, rfl, rfl, hb⟩ := h
      simpa using hb
  | atEnd =>
    simp only [Pattern.ends, Pattern.Matches]
    constructor
    · intro h
      split at h
      · rename_i he
        obtain ⟨rfl, rfl⟩ : left' = left ∧ rest' = rest := by simpa using h
        exact ⟨[], by simp, by simp, rfl, by simpa using he⟩
      · simp at h
    · intro h
      obtain ⟨mid, rfl, rfl, rfl, rfl⟩ := h
      simp

theorem ends_nonempty (r : Pattern α) {left rest : List α} :
    (!(r.ends left rest).isEmpty) = true ↔
      ∃ mid post, rest = mid ++ post ∧ r.Matches left mid post := by
  simp only [Bool.not_eq_true', List.isEmpty_eq_false_iff_exists_mem]
  constructor
  · intro h
    obtain ⟨⟨l, post⟩, h⟩ := h
    obtain ⟨mid, hr, -, hm⟩ := (mem_ends r).mp h
    exact ⟨mid, post, hr, hm⟩
  · intro h
    obtain ⟨mid, post, hr, hm⟩ := h
    exact ⟨_, (mem_ends r).mpr ⟨mid, hr, rfl, hm⟩⟩

theorem search_iff (r : Pattern α) (left rest : List α) :
    r.search left rest = true ↔ ∃ pre mid post, rest = pre ++ mid ++ post ∧
      r.Matches (pre.reverse ++ left) mid post := by
  induction rest generalizing left with
  | nil =>
    rw [Pattern.search, ends_nonempty]
    constructor
    · intro h
      obtain ⟨mid, post, h, hm⟩ := h
      exact ⟨[], mid, post, by simpa using h, hm⟩
    · intro h
      obtain ⟨pre, mid, post, h, hm⟩ := h
      have hnil := h.symm
      simp only [List.append_eq_nil_iff] at hnil
      obtain ⟨⟨rfl, rfl⟩, rfl⟩ := hnil
      exact ⟨[], [], rfl, hm⟩
  | cons a rest ih =>
    rw [Pattern.search, Bool.or_eq_true, ends_nonempty, ih]
    constructor
    · intro h
      rcases h with ⟨mid, post, h, hm⟩ | ⟨pre, mid, post, h, hm⟩
      · exact ⟨[], mid, post, h, hm⟩
      · exact ⟨a :: pre, mid, post, by simp [h], by simpa using hm⟩
    · intro h
      obtain ⟨pre, mid, post, h, hm⟩ := h
      cases pre with
      | nil => exact Or.inl ⟨mid, post, h, hm⟩
      | cons b pre =>
        obtain ⟨rfl, rfl⟩ : a = b ∧ rest = pre ++ (mid ++ post) := by simpa using h
        exact Or.inr ⟨pre, mid, post, by simp, by simpa using hm⟩

/-- A search succeeds exactly when some part of the subject matches in its place. -/
theorem test_iff (r : Pattern α) {subject : List α} :
    r.test subject = true ↔ ∃ pre mid post, subject = pre ++ mid ++ post ∧
      r.Matches pre.reverse mid post := by
  simpa [Pattern.test] using search_iff r [] subject

/-! ## Literals -/

/-- The pattern of a fixed text. -/
def lit [BEq α] : List α → Pattern α
  | [] => .empty
  | a :: as => .seq (.chr (· == a)) (lit as)

@[simp] theorem matches_lit [BEq α] [LawfulBEq α] {text left mid post : List α} :
    (lit text).Matches left mid post ↔ mid = text := by
  induction text generalizing left mid with
  | nil => simp [lit, Pattern.Matches]
  | cons a as ih =>
    simp only [lit, Pattern.Matches, ih, beq_iff_eq]
    constructor
    · intro h
      obtain ⟨m₁, m₂, rfl, ⟨b, rfl, rfl⟩, rfl⟩ := h
      rfl
    · intro h
      obtain rfl := h
      exact ⟨[a], as, rfl, ⟨a, rfl, rfl⟩, rfl⟩

/-- One pattern after the other. -/
def seqAll : List (Pattern α) → Pattern α
  | [] => .empty
  | [r] => r
  | r :: s :: rs => .seq r (seqAll (s :: rs))

/-- Alternation over a list of patterns. -/
def anyOf : List (Pattern α) → Pattern α
  | [] => .chr fun _ => false
  | [r] => r
  | r :: s :: rs => .alt r (anyOf (s :: rs))

@[simp] theorem matches_anyOf {rs : List (Pattern α)} {left mid post : List α} :
    (anyOf rs).Matches left mid post ↔ ∃ r ∈ rs, r.Matches left mid post := by
  induction rs with
  | nil => simp [anyOf, Pattern.Matches]
  | cons r rs ih =>
    cases rs with
    | nil => simp [anyOf]
    | cons s rs => simp [anyOf, Pattern.Matches, ih]

/-! ## Assertions at the two ends of a sequence -/

theorem matches_bound_seq {w : α → Bool} {r : Pattern α} {left mid post : List α} :
    (Pattern.seq (.bound w) r).Matches left mid post ↔
      isBound w left (mid ++ post) = true ∧ r.Matches left mid post := by
  refine ⟨fun h => ?_, fun h => ⟨[], mid, rfl, ⟨rfl, h.1⟩, h.2⟩⟩
  obtain ⟨m₁, m₂, rfl, ⟨rfl, hb⟩, hr⟩ := h
  exact ⟨hb, hr⟩

theorem matches_seq_bound {w : α → Bool} {r : Pattern α} {left mid post : List α} :
    (Pattern.seq r (.bound w)).Matches left mid post ↔
      r.Matches left mid post ∧ isBound w (mid.reverse ++ left) post = true := by
  refine ⟨fun h => ?_, fun h => ⟨mid, [], (List.append_nil mid).symm, h.1, rfl, h.2⟩⟩
  obtain ⟨m₁, m₂, rfl, hr, rfl, hb⟩ := h
  rw [List.append_nil]
  exact ⟨hr, hb⟩

theorem matches_seq_atEnd {r : Pattern α} {left mid post : List α} :
    (Pattern.seq r .atEnd).Matches left mid post ↔ r.Matches left mid [] ∧ post = [] := by
  refine ⟨fun h => ?_, fun h => ⟨mid, [], (List.append_nil mid).symm, ?_, rfl, h.2⟩⟩
  · obtain ⟨m₁, m₂, rfl, hr, rfl, rfl⟩ := h
    rw [List.append_nil]
    exact ⟨hr, rfl⟩
  · rw [h.2]
    exact h.1

/-! ## Subjects seen through a map -/

/-- The pattern on the subjects that `f` maps to those of the given one. -/
def Pattern.comap (f : α → β) : Pattern β → Pattern α
  | .empty => .empty
  | .chr p => .chr fun a => p (f a)
  | .many p => .many fun a => p (f a)
  | .seq r s => .seq (r.comap f) (s.comap f)
  | .alt r s => .alt (r.comap f) (s.comap f)
  | .bound w => .bound fun a => w (f a)
  | .atEnd => .atEnd

theorem isBound_map (f : α → β) (w : β → Bool) (left right : List α) :
    isBound w (left.map f) (right.map f) = isBound (fun a => w (f a)) left right := by
  cases left <;> cases right <;> rfl

theorem matches_comap (f : α → β) (r : Pattern β) {left mid post : List α} :
    (r.comap f).Matches left mid post ↔ r.Matches (left.map f) (mid.map f) (post.map f) := by
  induction r generalizing left mid post with
  | empty => simp [Pattern.comap, Pattern.Matches]
  | chr p =>
    simp only [Pattern.comap, Pattern.Matches]
    constructor
    · intro h
      obtain ⟨a, ha, rfl⟩ := h
      exact ⟨f a, ha, rfl⟩
    · intro h
      obtain ⟨b, hb, hm⟩ := h
      obtain ⟨a, rfl, rfl⟩ := List.map_eq_singleton_iff.mp hm
      exact ⟨a, hb, rfl⟩
  | many p => simp [Pattern.comap, Pattern.Matches]
  | seq r s ihr ihs =>
    simp only [Pattern.comap, Pattern.Matches, ihr, ihs]
    constructor
    · intro h
      obtain ⟨m₁, m₂, rfl, h₁, h₂⟩ := h
      exact ⟨m₁.map f, m₂.map f, by simp, by simpa using h₁, by simpa using h₂⟩
    · intro h
      obtain ⟨n₁, n₂, hm, h₁, h₂⟩ := h
      obtain ⟨m₁, m₂, rfl, rfl, rfl⟩ := List.map_eq_append_iff.mp hm
      exact ⟨m₁, m₂, rfl, by simpa using h₁, by simpa using h₂⟩
  | alt r s ihr ihs => simp only [Pattern.comap, Pattern.Matches, ihr, ihs]
  | bound w => simp [Pattern.comap, Pattern.Matches, isBound_map]
  | atEnd => simp [Pattern.comap, Pattern.Matches]

/-- A literal whose characters `f` neither moves nor hits is its own preimage. -/
theorem comap_lit [BEq β] {f : β → β} {text : List β}
    (h : ∀ a ∈ text, ∀ b, (f b == a) = (b == a)) : (lit text).comap f = lit text := by
  induction text with
  | nil => rfl
  | cons a text ih =>
    have ha : (fun b => f b == a) = fun b => b == a := funext (h a (by simp))
    have hrest : (lit text).comap f = lit text := ih fun c hc => h c (by simp [hc])
    simp only [lit, Pattern.comap, hrest, ha]

/-- Searching a mapped subject is searching the subject itself. -/
theorem test_map (f : α → β) (r : Pattern β) (subject : List α) :
    r.test (subject.map f) = (r.comap f).test subject := by
  rw [Bool.eq_iff_iff, test_iff, test_iff]
  constructor
  · intro h
    obtain ⟨pre, mid, post, h, hm⟩ := h
    obtain ⟨l₁, l₂, rfl, h₁, rfl⟩ := List.map_eq_append_iff.mp h
    obtain ⟨l₃, l₄, rfl, rfl, rfl⟩ := List.map_eq_append_iff.mp h₁
    exact ⟨l₃, l₄, l₂, rfl, (matches_comap f r).mpr (by simpa using hm)⟩
  · intro h
    obtain ⟨pre, mid, post, rfl, hm⟩ := h
    exact ⟨pre.map f, mid.map f, post.map f, by simp, by
      simpa using (matches_comap f r).mp hm⟩

/-! ## Longer subjects -/

/-- No part of the pattern asks for the end of the subject. -/
def Pattern.noEnd : Pattern α → Bool
  | .seq r s | .alt r s => r.noEnd && s.noEnd
  | .atEnd => false
  | _ => true

theorem isBound_append (w : α → Bool) {left right : List α} (more : List α) (h : right ≠ []) :
    isBound w left (right ++ more) = isBound w left right := by
  cases right with
  | nil => exact absurd rfl h
  | cons a right => rfl

/-- A match that does not reach the end of the subject survives any
continuation of it: nothing looks further than one character ahead. -/
theorem matches_append {r : Pattern α} (hr : r.noEnd = true) {left mid post : List α}
    (more : List α) (hp : post ≠ []) (h : r.Matches left mid post) :
    r.Matches left mid (post ++ more) := by
  induction r generalizing left mid post with
  | empty | chr _ | many _ => exact h
  | seq r s ihr ihs =>
    obtain ⟨hr₁, hr₂⟩ := Bool.and_eq_true_iff.mp hr
    obtain ⟨m₁, m₂, rfl, h₁, h₂⟩ := h
    refine ⟨m₁, m₂, rfl, ?_, ihs hr₂ hp h₂⟩
    rw [← List.append_assoc]
    exact ihr hr₁ (by simp [hp]) h₁
  | alt r s ihr ihs =>
    obtain ⟨hr₁, hr₂⟩ := Bool.and_eq_true_iff.mp hr
    rcases h with h | h
    · exact Or.inl (ihr hr₁ hp h)
    · exact Or.inr (ihs hr₂ hp h)
  | bound w =>
    obtain ⟨rfl, hb⟩ := h
    exact ⟨rfl, by rw [isBound_append w more hp]; exact hb⟩
  | atEnd => simp [Pattern.noEnd] at hr

/-! ## What stands before a match -/

/-- A match looks back one character at most. -/
theorem matches_congr_left {r : Pattern α} {left left' mid post : List α}
    (hleft : left.head? = left'.head?) (h : r.Matches left mid post) : r.Matches left' mid post := by
  induction r generalizing left left' mid post with
  | empty | chr _ | many _ | atEnd => exact h
  | seq r s ihr ihs =>
    obtain ⟨m₁, m₂, rfl, h₁, h₂⟩ := h
    refine ⟨m₁, m₂, rfl, ihr hleft h₁, ihs ?_ h₂⟩
    rw [List.head?_append, List.head?_append, hleft]
  | alt r s ihr ihs =>
    rcases h with h | h
    · exact Or.inl (ihr hleft h)
    · exact Or.inr (ihs hleft h)
  | bound w =>
    obtain ⟨rfl, hb⟩ := h
    refine ⟨rfl, ?_⟩
    unfold isBound at hb ⊢
    rw [← hleft]
    exact hb

/-- The class of the character that every match begins with. -/
def Pattern.first : Pattern α → Option (α → Bool)
  | .chr p => some p
  | .seq r _ => r.first
  | _ => none

/-- Where every match begins with a character, none looks back. -/
theorem matches_first {r : Pattern α} {p : α → Bool} (hr : r.first = some p)
    {left mid post : List α} (h : r.Matches left mid post) :
    (∃ a m, mid = a :: m ∧ p a = true) ∧ ∀ left', r.Matches left' mid post := by
  induction r generalizing left mid post with
  | chr q =>
    cases hr
    obtain ⟨a, ha, rfl⟩ := h
    exact ⟨⟨a, [], rfl, ha⟩, fun _ => ⟨a, ha, rfl⟩⟩
  | seq r s ihr ihs =>
    obtain ⟨m₁, m₂, rfl, h₁, h₂⟩ := h
    obtain ⟨⟨a, m, rfl, ha⟩, hany⟩ := ihr hr h₁
    refine ⟨⟨a, m ++ m₂, rfl, ha⟩, fun left' => ⟨a :: m, m₂, rfl, hany left', matches_congr_left ?_ h₂⟩⟩
    simp [List.head?_append]
  | empty | many _ | alt _ _ | bound _ | atEnd => cases hr

/-- A search goes past a beginning in which no match can begin. -/
theorem test_append_left {r : Pattern α} {p : α → Bool} (hr : r.first = some p) {pre : List α}
    (hpre : ∀ a ∈ pre, p a = false) (subject : List α) : r.test (pre ++ subject) = r.test subject := by
  rw [Bool.eq_iff_iff, test_iff, test_iff]
  constructor
  · intro h
    obtain ⟨before, mid, post, hs, hm⟩ := h
    obtain ⟨⟨a, m, rfl, ha⟩, hany⟩ := matches_first hr hm
    rw [List.append_assoc, List.append_eq_append_iff] at hs
    rcases hs with ⟨c, rfl, hs⟩ | ⟨c, hc, hs⟩
    · exact ⟨c, a :: m, post, by rw [hs, List.append_assoc], hany _⟩
    · cases c with
      | nil => exact ⟨[], a :: m, post, hs.symm, hany _⟩
      | cons b c =>
        obtain ⟨rfl, -⟩ := List.cons.inj hs
        rw [hpre a (by simp [hc])] at ha
        cases ha
  · intro h
    obtain ⟨before, mid, post, rfl, hm⟩ := h
    exact ⟨pre ++ before, mid, post, by simp, (matches_first hr hm).2 _⟩

end Conductor.Lib.Regex
