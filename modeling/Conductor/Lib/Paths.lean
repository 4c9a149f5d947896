import Mathlib.Order.BoundedOrder.Basic
import Mathlib.Data.List.Infix

/-! # Absolute paths

A path in canonical form is a list of names, none of which is empty or has the
separator in it. Its ancestors are the prefixes of that list. The text of a path
puts the separator before each name; the text of the root is the separator. -/
namespace Conductor.Lib.Paths

variable {α : Type*} {sep : α}

@[ext] structure AbsPath (sep : α) where
  names : List (List α)
  valid : ∀ n ∈ names, n ≠ [] ∧ sep ∉ n

/-- `p ≤ q`: `p` is `q` or an ancestor of `q`. -/
instance : PartialOrder (AbsPath sep) where
  le p q := p.names <+: q.names
  le_refl _ := List.prefix_rfl
  le_trans _ _ _ := List.IsPrefix.trans
  le_antisymm _ _ h h' := AbsPath.ext (h.eq_of_length (h.length_le.antisymm h'.length_le))

instance : OrderBot (AbsPath sep) where
  bot := ⟨[], fun _ h => by cases h⟩
  bot_le _ := List.nil_prefix

theorem le_def {p q : AbsPath sep} : p ≤ q ↔ p.names <+: q.names := Iff.rfl

theorem names_eq_nil {p : AbsPath sep} : p.names = [] ↔ p = ⊥ :=
  ⟨fun h => AbsPath.ext h, fun h => by rw [h]; rfl⟩

theorem lt_iff {p q : AbsPath sep} : p < q ↔ ∃ n rest, q.names = p.names ++ n :: rest := by
  rw [lt_iff_le_and_ne]
  constructor
  · intro h
    obtain ⟨⟨s, hs⟩, hne⟩ := h
    cases s with
    | nil => exact absurd (AbsPath.ext (by simpa using hs)) hne
    | cons n rest => exact ⟨n, rest, hs.symm⟩
  · intro h
    obtain ⟨n, rest, hq⟩ := h
    refine ⟨⟨n :: rest, hq.symm⟩, fun heq => ?_⟩
    rw [heq] at hq
    simp at hq

/-- Of two ancestors of a path, one is an ancestor of the other. -/
theorem le_total_of_le {p q r : AbsPath sep} (hp : p ≤ r) (hq : q ≤ r) : p ≤ q ∨ q ≤ p :=
  List.prefix_or_prefix_of_prefix hp hq

/-! ## Parents -/

def AbsPath.parent (p : AbsPath sep) : AbsPath sep :=
  ⟨p.names.dropLast, fun n hn => p.valid n (List.mem_of_mem_dropLast hn)⟩

/-- A path under the root is its parent and one more name. -/
theorem names_eq_concat {p : AbsPath sep} (h : p ≠ ⊥) :
    ∃ n, p.names = p.parent.names ++ [n] ∧ n ≠ [] ∧ sep ∉ n := by
  have hne : p.names ≠ [] := fun hnil => h (names_eq_nil.mp hnil)
  exact ⟨p.names.getLast hne, (List.dropLast_concat_getLast hne).symm,
    p.valid _ (List.getLast_mem hne)⟩

theorem parent_lt {p : AbsPath sep} (h : p ≠ ⊥) : p.parent < p := by
  obtain ⟨n, hn, -⟩ := names_eq_concat h
  exact lt_iff.mpr ⟨n, [], hn⟩

/-- The ancestors of a path are the path and the ancestors of its parent. -/
theorem le_iff_parent {p q : AbsPath sep} (h : q ≠ ⊥) : p ≤ q ↔ p = q ∨ p ≤ q.parent := by
  constructor
  · intro hle
    obtain ⟨n, hn, -⟩ := names_eq_concat h
    rw [le_def, hn, List.prefix_concat_iff] at hle
    rcases hle with heq | hle
    · exact .inl (AbsPath.ext (heq.trans hn.symm))
    · exact .inr hle
  · intro hle
    rcases hle with rfl | hle
    · exact le_refl p
    · exact hle.trans (parent_lt h).le

/-- A property of the root, and of every path whose parent has it, holds of all paths. -/
theorem parent_induction {motive : AbsPath sep → Prop} (root : motive ⊥)
    (child : ∀ p, p ≠ ⊥ → motive p.parent → motive p) (p : AbsPath sep) : motive p := by
  induction hn : p.names.length using Nat.strong_induction_on generalizing p with
  | _ n ih =>
    by_cases hp : p = ⊥
    · rw [hp]
      exact root
    · refine child p hp (ih _ ?_ p.parent rfl)
      obtain ⟨m, hm, -⟩ := names_eq_concat hp
      rw [← hn, hm, List.length_append, List.length_singleton]
      exact Nat.lt_succ_self _

/-! ## Texts -/

/-- The separator before each name. -/
def spell (sep : α) (names : List (List α)) : List α := names.flatMap fun n => sep :: n

def AbsPath.text (p : AbsPath sep) : List α :=
  if p.names.isEmpty then [sep] else spell sep p.names

theorem text_bot : (⊥ : AbsPath sep).text = [sep] := rfl

theorem text_of_ne_bot {p : AbsPath sep} (h : p ≠ ⊥) : p.text = spell sep p.names := by
  refine if_neg fun hnil => h (names_eq_nil.mp ?_)
  simpa using hnil

theorem spell_cons (n : List α) (ns : List (List α)) : spell sep (n :: ns) = sep :: (n ++ spell sep ns) := rfl

theorem spell_append (ms ns : List (List α)) : spell sep (ms ++ ns) = spell sep ms ++ spell sep ns := by
  simp [spell]

theorem length_le_spell (ns : List (List α)) : ns.length ≤ (spell sep ns).length := by
  induction ns with
  | nil => exact Nat.zero_le _
  | cons n ns ih =>
    rw [spell_cons]
    simp only [List.length_cons, List.length_append]
    omega

theorem length_names_le (p : AbsPath sep) : p.names.length ≤ p.text.length := by
  by_cases hp : p = ⊥
  · rw [hp]
    exact Nat.zero_le _
  · rw [text_of_ne_bot hp]
    exact length_le_spell p.names

theorem spell_append_cons (ns : List (List α)) (s : List α) :
    ∃ x, spell sep ns ++ sep :: s = sep :: x := by
  cases ns with
  | nil => exact ⟨s, rfl⟩
  | cons n ns => exact ⟨n ++ spell sep ns ++ sep :: s, rfl⟩

/-- Names that are followed by separators are the same if what they begin is. -/
theorem first_name {m n s t : List α} (hm : sep ∉ m) (hn : sep ∉ n)
    (h : m ++ sep :: s = n ++ sep :: t) : m = n ∧ s = t := by
  induction m generalizing n with
  | nil =>
    cases n with
    | nil => exact ⟨rfl, (List.cons.inj h).2⟩
    | cons v n => exact absurd ((List.cons.inj h).1 ▸ List.mem_cons_self) hn
  | cons u m ih =>
    cases n with
    | nil => exact absurd ((List.cons.inj h).1 ▸ List.mem_cons_self) hm
    | cons v n =>
      obtain ⟨rfl, htail⟩ := List.cons.inj h
      obtain ⟨rfl, rfl⟩ := ih (List.not_mem_of_not_mem_cons hm) (List.not_mem_of_not_mem_cons hn) htail
      exact ⟨rfl, rfl⟩

/-- What goes on after a spelled path is spelled by further names. -/
theorem exists_names_of_spell {ms ns : List (List α)} {s : List α} (hm : ∀ m ∈ ms, sep ∉ m)
    (hn : ∀ n ∈ ns, sep ∉ n) (h : spell sep ms ++ sep :: s = spell sep ns) :
    ∃ n rest, ns = ms ++ n :: rest := by
  induction ms generalizing ns with
  | nil =>
    cases ns with
    | nil => cases h
    | cons n rest => exact ⟨n, rest, rfl⟩
  | cons m ms ih =>
    cases ns with
    | nil => cases h
    | cons n ns =>
      rw [spell_cons, spell_cons, List.cons_append, List.append_assoc] at h
      have htail := (List.cons.inj h).2
      obtain ⟨x, hx⟩ : ∃ x, spell sep ms ++ sep :: s = sep :: x := spell_append_cons ms s
      rw [hx] at htail
      have hm' := hm m List.mem_cons_self
      have hn' := hn n List.mem_cons_self
      cases ns with
      | nil =>
        rw [spell, List.flatMap_nil, List.append_nil] at htail
        exact absurd (htail ▸ List.mem_append_right m List.mem_cons_self) hn'
      | cons n' ns =>
        obtain ⟨rfl, rfl⟩ := first_name hm' hn' htail
        obtain ⟨k, rest, hk⟩ := ih (fun m h => hm m (List.mem_cons_of_mem _ h))
          (fun n h => hn n (List.mem_cons_of_mem _ h)) hx
        exact ⟨k, rest, by rw [hk]; rfl⟩

theorem AbsPath.sep_not_mem (p : AbsPath sep) : ∀ n ∈ p.names, sep ∉ n := fun n hn => (p.valid n hn).2

/-- Below the root a text has a unit that is no separator behind the first one. -/
theorem text_two {p : AbsPath sep} (h : p ≠ ⊥) : ∃ u s, p.text = sep :: u :: s ∧ u ≠ sep := by
  rw [text_of_ne_bot h]
  cases hp : p.names with
  | nil => exact absurd (names_eq_nil.mp hp) h
  | cons n ns =>
    obtain ⟨hne, hsep⟩ := p.valid n (by rw [hp]; exact List.mem_cons_self)
    cases n with
    | nil => exact absurd rfl hne
    | cons u n => exact ⟨u, n ++ spell sep ns, rfl, fun hu => hsep (hu ▸ List.mem_cons_self)⟩

/-- A textual prefix up to a separator is an ancestor. Only the root, whose text ends
with a separator already, is no such prefix of its descendants. -/
theorem text_prefix_iff {p q : AbsPath sep} : p.text ++ [sep] <+: q.text ↔ p ≠ ⊥ ∧ p < q := by
  by_cases hp : p = ⊥
  · subst hp
    refine ⟨fun h => ?_, fun h => absurd rfl h.1⟩
    by_cases hq : q = ⊥
    · rw [hq] at h
      exact absurd h.length_le (by simp [text_bot])
    · obtain ⟨u, s, hu, hne⟩ := text_two hq
      rw [hu, text_bot, List.singleton_append, List.cons_prefix_cons, List.cons_prefix_cons] at h
      exact absurd h.2.1.symm hne
  · by_cases hq : q = ⊥
    · subst hq
      refine ⟨fun h => ?_, fun h => absurd h.2 not_lt_bot⟩
      obtain ⟨u, s, hu, -⟩ := text_two hp
      exact absurd h.length_le (by simp [hu, text_bot])
    · rw [text_of_ne_bot hp, text_of_ne_bot hq, and_iff_right hp, lt_iff]
      constructor
      · intro h
        obtain ⟨s, hs⟩ := h
        rw [List.append_assoc, List.singleton_append] at hs
        exact exists_names_of_spell p.sep_not_mem q.sep_not_mem hs
      · intro h
        obtain ⟨n, rest, hq⟩ := h
        rw [hq, spell_append, List.prefix_append_right_inj, spell_cons]
        exact ⟨n ++ spell sep rest, rfl⟩

theorem le_of_text_eq {p q : AbsPath sep} (hp : p ≠ ⊥) (hq : q ≠ ⊥) (h : p.text = q.text) : p ≤ q := by
  rw [text_of_ne_bot hp, text_of_ne_bot hq] at h
  -- one more, empty, name makes the equal texts go on
  have hmore : spell sep p.names ++ sep :: [] = spell sep (q.names ++ [[]]) := by
    rw [h, spell_append]
    rfl
  obtain ⟨n, rest, hn⟩ := exists_names_of_spell p.sep_not_mem (fun m hm => by
    rcases List.mem_append.mp hm with hm | hm
    · exact q.sep_not_mem m hm
    · rw [List.mem_singleton.mp hm]
      exact List.not_mem_nil) hmore
  have hlen := congrArg List.length hn
  simp only [List.length_append, List.length_cons, List.length_nil] at hlen
  refine List.prefix_of_prefix_length_le (List.prefix_append p.names (n :: rest)) ?_ (by omega)
  rw [← hn]
  exact List.prefix_append _ _

theorem text_injective {p q : AbsPath sep} (h : p.text = q.text) : p = q := by
  by_cases hp : p = ⊥
  · by_cases hq : q = ⊥
    · rw [hp, hq]
    · obtain ⟨u, s, hu, -⟩ := text_two hq
      rw [hp, hu] at h
      cases h
  · by_cases hq : q = ⊥
    · obtain ⟨u, s, hu, -⟩ := text_two hp
      rw [hq, hu] at h
      cases h
    · exact le_antisymm (le_of_text_eq hp hq h) (le_of_text_eq hq hp h.symm)

/-! ## The nearest marked ancestor -/

variable {mark : AbsPath sep → Prop}

/-- The last marked path on the way from the root down to `p`. -/
structure Nearest (mark : AbsPath sep → Prop) (p g : AbsPath sep) : Prop where
  marked : mark g
  above : g ≤ p
  last : ∀ g', mark g' → g' ≤ p → g' ≤ g

theorem Nearest.self {p : AbsPath sep} (h : mark p) : Nearest mark p p := ⟨h, le_refl p, fun _ _ h => h⟩

/-- An unmarked path has the nearest marked ancestor of its parent. -/
theorem nearest_parent_iff {p g : AbsPath sep} (hp : p ≠ ⊥) (h : ¬ mark p) :
    Nearest mark p g ↔ Nearest mark p.parent g := by
  have habove : ∀ g', mark g' → (g' ≤ p ↔ g' ≤ p.parent) := by
    intro g' hg'
    rw [le_iff_parent hp, or_iff_right]
    intro heq
    exact h (heq ▸ hg')
  constructor
  · intro hg
    exact ⟨hg.marked, (habove g hg.marked).mp hg.above,
      fun g' hm hle => hg.last g' hm ((habove g' hm).mpr hle)⟩
  · intro hg
    exact ⟨hg.marked, (habove g hg.marked).mpr hg.above,
      fun g' hm hle => hg.last g' hm ((habove g' hm).mp hle)⟩

/-- A path and its ancestor have one nearest marked path, unless there is a marked
one below the ancestor. -/
theorem nearest_eq_iff {p q g h : AbsPath sep} (hpq : p ≤ q) (hg : Nearest mark p g)
    (hh : Nearest mark q h) : g = h ↔ ¬ ∃ m, mark m ∧ p < m ∧ m ≤ q := by
  constructor
  · intro heq hm
    obtain ⟨m, hmark, hlt, hle⟩ := hm
    have hmp : m ≤ p := (hh.last m hmark hle).trans (heq ▸ hg.above)
    exact absurd hlt (not_lt_of_ge hmp)
  · intro hnone
    have hgh : g ≤ h := hh.last g hg.marked (hg.above.trans hpq)
    refine le_antisymm hgh ?_
    rcases le_total_of_le hh.above hpq with hle | hle
    · exact hg.last h hh.marked hle
    · by_cases heq : p = h
      · exact hg.last h hh.marked (heq ▸ le_refl p)
      · exact absurd ⟨h, hh.marked, lt_of_le_of_ne hle heq, hh.above⟩ hnone

end Conductor.Lib.Paths
