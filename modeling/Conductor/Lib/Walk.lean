import Mathlib.Data.Option.Basic

/-! # Bounded walks along a partial function

From a position to the next one and the next one, up to the first that has
something, at most a given number of positions. Cycles and ends of the function
are of no concern: whatever is found is found at the first position that has
anything. -/
namespace Conductor.Lib.Walk

variable {α β : Type*} {hit hit' : α → Option β} {next : α → Option α} {fuel n : Nat} {a c : α} {b : β}

/-- What the first of `fuel` positions from `a` on has that has anything. -/
def walk (hit : α → Option β) (next : α → Option α) : Nat → α → Option β
  | 0, _ => none
  | fuel + 1, a =>
    match hit a with
    | some b => some b
    | none => (next a).bind (walk hit next fuel)

/-- The position after `n` steps. -/
def position (next : α → Option α) : Nat → α → Option α
  | 0, a => some a
  | n + 1, a => (next a).bind (position next n)

@[simp] theorem position_zero : position next 0 a = some a := rfl

theorem position_succ : position next (n + 1) a = (next a).bind (position next n) := rfl

/-- `c` is the first of `fuel` positions that has anything. -/
def Stops (hit : α → Option β) (next : α → Option α) (fuel : Nat) (a c : α) : Prop :=
  ∃ n < fuel, position next n a = some c ∧ (hit c).isSome = true ∧
    ∀ m < n, ∀ d, position next m a = some d → hit d = none

theorem stops_here (h : (hit a).isSome = true) : Stops hit next (fuel + 1) a c ↔ c = a := by
  constructor
  · intro hs
    obtain ⟨n, -, hn, -, hbefore⟩ := hs
    cases n with
    | zero => exact (Option.some.inj hn).symm
    | succ n =>
      rw [hbefore 0 (Nat.succ_pos n) a rfl] at h
      cases h
  · rintro rfl
    exact ⟨0, Nat.succ_pos fuel, rfl, h, fun m hm => absurd hm (Nat.not_lt_zero m)⟩

theorem stops_later (h : hit a = none) :
    Stops hit next (fuel + 1) a c ↔ ∃ d, next a = some d ∧ Stops hit next fuel d c := by
  constructor
  · intro hs
    obtain ⟨n, hn, hpos, hc, hbefore⟩ := hs
    cases n with
    | zero =>
      cases hpos
      rw [h] at hc
      cases hc
    | succ n =>
      obtain ⟨d, hd, hpos⟩ := Option.bind_eq_some_iff.mp hpos
      refine ⟨d, hd, n, Nat.lt_of_succ_lt_succ hn, hpos, hc, fun m hm e he => ?_⟩
      exact hbefore (m + 1) (Nat.succ_lt_succ hm) e (by rw [position_succ, hd]; exact he)
  · intro hs
    obtain ⟨d, hd, n, hn, hpos, hc, hbefore⟩ := hs
    refine ⟨n + 1, Nat.succ_lt_succ hn, by rw [position_succ, hd]; exact hpos, hc, fun m hm e he => ?_⟩
    cases m with
    | zero =>
      cases he
      exact h
    | succ m =>
      rw [position_succ, hd] at he
      exact hbefore m (Nat.lt_of_succ_lt_succ hm) e he

theorem walk_eq_some_iff : walk hit next fuel a = some b ↔ ∃ c, Stops hit next fuel a c ∧ hit c = some b := by
  induction fuel generalizing a with
  | zero =>
    constructor
    · intro h
      cases h
    · intro h
      obtain ⟨c, ⟨n, hn, -⟩, -⟩ := h
      exact absurd hn (Nat.not_lt_zero n)
  | succ fuel ih =>
    rw [walk]
    cases ha : hit a with
    | some d =>
      have hsome : (hit a).isSome = true := by rw [ha]; rfl
      simp only [stops_here hsome, exists_eq_left, ha]
    | none =>
      simp only [stops_later ha, Option.bind_eq_some_iff, ih]
      constructor
      · intro h
        obtain ⟨d, hd, c, hc, hb⟩ := h
        exact ⟨c, ⟨d, hd, hc⟩, hb⟩
      · intro h
        obtain ⟨c, ⟨d, hd, hc⟩, hb⟩ := h
        exact ⟨d, hd, c, hc, hb⟩

/-- A walk stops at most once. -/
theorem Stops.unique {c' : α} (h : Stops hit next fuel a c) (h' : Stops hit next fuel a c') : c = c' := by
  induction fuel generalizing a with
  | zero =>
    obtain ⟨n, hn, -⟩ := h
    exact absurd hn (Nat.not_lt_zero n)
  | succ fuel ih =>
    cases ha : hit a with
    | some d =>
      have hsome : (hit a).isSome = true := by rw [ha]; rfl
      rw [(stops_here hsome).mp h, (stops_here hsome).mp h']
    | none =>
      obtain ⟨d, hd, h⟩ := (stops_later ha).mp h
      obtain ⟨d', hd', h'⟩ := (stops_later ha).mp h'
      cases hd.symm.trans hd'
      exact ih h h'

/-- Where two searches have something at the same positions, they stop at the same one. -/
theorem stops_congr (h : ∀ c, (hit c).isSome = (hit' c).isSome) :
    Stops hit next fuel a c ↔ Stops hit' next fuel a c := by
  have hnone : ∀ d, hit d = none ↔ hit' d = none := by
    intro d
    rw [← Option.isNone_iff_eq_none, ← Option.isNone_iff_eq_none, ← Option.not_isSome, ← Option.not_isSome, h d]
  simp only [Stops, h, hnone]

/-- They find the same when they have the same at that position. -/
theorem walk_eq_walk_iff (h : ∀ c, (hit c).isSome = (hit' c).isSome) :
    walk hit next fuel a = walk hit' next fuel a ↔ ∀ c, Stops hit next fuel a c → hit c = hit' c := by
  constructor
  · intro heq c hc
    obtain ⟨b, hb⟩ := Option.isSome_iff_exists.mp hc.choose_spec.2.2.1
    have hwalk' : walk hit' next fuel a = some b := heq.symm.trans (walk_eq_some_iff.mpr ⟨c, hc, hb⟩)
    obtain ⟨c', hc', hb'⟩ := walk_eq_some_iff.mp hwalk'
    cases hc.unique ((stops_congr h).mpr hc')
    exact hb.trans hb'.symm
  · intro hall
    ext b
    simp only [walk_eq_some_iff, ← stops_congr h]
    refine exists_congr fun c => and_congr_right fun hc => ?_
    rw [hall c hc]

/-! ## Steps under a condition -/

/-- A walk that refuses some steps gets as far as the other one when it refuses none before. -/
theorem position_filter {ok : α → α → Bool} :
    position (fun a => (next a).filter (ok a)) n a = some c ↔
      position next n a = some c ∧ ∀ m < n, ∃ d e, position next m a = some d ∧ next d = some e ∧ ok d e = true := by
  induction n generalizing a with
  | zero => simp
  | succ n ih =>
    simp only [position_succ, Option.bind_eq_some_iff, Option.filter_eq_some_iff, ih]
    constructor
    · intro h
      obtain ⟨d, ⟨hd, hok⟩, hpos, hall⟩ := h
      refine ⟨⟨d, hd, hpos⟩, fun m hm => ?_⟩
      cases m with
      | zero => exact ⟨a, d, rfl, hd, hok⟩
      | succ m =>
        obtain ⟨e, e', he, hee', hok'⟩ := hall m (Nat.lt_of_succ_lt_succ hm)
        exact ⟨e, e', Option.bind_eq_some_iff.mpr ⟨d, hd, he⟩, hee', hok'⟩
    · intro h
      obtain ⟨⟨d, hd, hpos⟩, hall⟩ := h
      obtain ⟨a', d', ha', hd', hok⟩ := hall 0 (Nat.succ_pos n)
      cases ha'
      cases hd.symm.trans hd'
      refine ⟨d, ⟨hd, hok⟩, hpos, fun m hm => ?_⟩
      obtain ⟨e, e', he, hee', hok'⟩ := hall (m + 1) (Nat.succ_lt_succ hm)
      rw [position_succ, hd] at he
      exact ⟨e, e', he, hee', hok'⟩

end Conductor.Lib.Walk
