import Mathlib.Data.List.Basic

/-! # A hub

What is published goes to everyone who is a member at that moment. The hub keeps
the log of all that was published, and of a member only the part of the log from
its joining to its leaving: two members never disagree about an order, and
neither misses what lies between two things that it received. -/
namespace Conductor.Lib.Broadcast

variable {α : Type*}

/-- How long the log was when the member joined, and when it left. -/
structure Member where
  joined : Nat
  left : Option Nat

structure Hub (α : Type*) where
  log : List α
  /-- In the order of their joining. -/
  members : List Member
  /-- Nobody left before it joined, or after the end of the log. -/
  bounded : ∀ m ∈ members, m.joined ≤ m.left.getD log.length ∧ m.left.getD log.length ≤ log.length
  ordered : (members.map Member.joined).Pairwise (· ≤ ·)

def Hub.empty : Hub α := ⟨[], [], fun _ h => (by cases h), .nil⟩

/-- Where the member's part of the log ends. -/
def Hub.stop (h : Hub α) (m : Member) : Nat := m.left.getD h.log.length

/-- What the member received. -/
def Hub.inbox (h : Hub α) (m : Member) : List α := (h.log.take (h.stop m)).drop m.joined

def Hub.publish (h : Hub α) (as : List α) : Hub α where
  log := h.log ++ as
  members := h.members
  bounded m hm := by
    obtain ⟨hjoined, hleft⟩ := h.bounded m hm
    rw [List.length_append]
    cases hl : m.left with
    | none =>
      rw [hl] at hjoined
      exact ⟨Nat.le_trans hjoined (Nat.le_add_right _ _), Nat.le_refl _⟩
    | some n =>
      rw [hl] at hjoined hleft
      exact ⟨hjoined, Nat.le_trans hleft (Nat.le_add_right _ _)⟩
  ordered := h.ordered

def Hub.join (h : Hub α) : Hub α where
  log := h.log
  members := h.members ++ [⟨h.log.length, none⟩]
  bounded m hm := by
    rcases List.mem_append.mp hm with hm | hm
    · exact h.bounded m hm
    · rw [List.mem_singleton.mp hm]
      exact ⟨Nat.le_refl _, Nat.le_refl _⟩
  ordered := by
    rw [List.map_append, List.pairwise_append]
    refine ⟨h.ordered, List.pairwise_singleton _ _, fun n hn n' hn' => ?_⟩
    obtain ⟨m, hm, rfl⟩ := List.mem_map.mp hn
    rw [List.map_singleton, List.mem_singleton] at hn'
    rw [hn']
    exact Nat.le_trans (h.bounded m hm).1 (h.bounded m hm).2

/-- A member that leaves; one that has left before stays as it is. -/
def Hub.leaving (h : Hub α) (m : Member) : Member := { m with left := some (h.stop m) }

/-- The members at the given positions leave. -/
def Hub.leave (h : Hub α) (gone : Nat → Bool) : Hub α where
  log := h.log
  members := h.members.mapIdx fun i m => if gone i then h.leaving m else m
  bounded m hm := by
    obtain ⟨i, hi, rfl⟩ := List.mem_mapIdx.mp hm
    have hbounded := h.bounded _ (List.getElem_mem hi)
    split
    · exact hbounded
    · exact hbounded
  ordered := by
    have hjoined : (h.members.mapIdx fun i m => if gone i then h.leaving m else m).map Member.joined =
        h.members.map Member.joined := by
      refine List.ext_getElem (by simp) fun i _ _ => ?_
      simp only [List.getElem_map, List.getElem_mapIdx]
      split
      · rfl
      · rfl
    rw [hjoined]
    exact h.ordered

/-! ## What the members receive -/

variable {h : Hub α} {m n : Member}

theorem stop_of_present (hm : m.left = none) : h.stop m = h.log.length := by rw [Hub.stop, hm]; rfl

theorem inbox_of_present (hm : m.left = none) : h.inbox m = h.log.drop m.joined := by
  rw [Hub.inbox, stop_of_present hm, List.take_length]

theorem inbox_publish_present (hmem : m ∈ h.members) (hm : m.left = none) (as : List α) :
    (h.publish as).inbox m = h.inbox m ++ as := by
  rw [inbox_of_present hm, inbox_of_present hm]
  have hjoined := Nat.le_trans (h.bounded m hmem).1 (h.bounded m hmem).2
  exact List.drop_append_of_le_length hjoined

theorem inbox_publish_left (hmem : m ∈ h.members) {k : Nat} (hm : m.left = some k) (as : List α) :
    (h.publish as).inbox m = h.inbox m := by
  have hleft := (h.bounded m hmem).2
  rw [hm] at hleft
  have htake : (h.log ++ as).take k = h.log.take k := List.take_append_of_le_length hleft
  simp only [Hub.inbox, Hub.stop, hm, Hub.publish, Option.getD_some, htake]

theorem inbox_newcomer : h.join.inbox ⟨h.log.length, none⟩ = [] := by
  rw [inbox_of_present rfl]
  exact List.drop_length

theorem members_leave (gone : Nat → Bool) (i : Nat) :
    (h.leave gone).members[i]? =
      (h.members[i]?).map fun m => if gone i then h.leaving m else m := List.getElem?_mapIdx

/-- The log before the member, what it received, and the log after it. -/
theorem log_eq (hmem : m ∈ h.members) :
    h.log = h.log.take m.joined ++ h.inbox m ++ h.log.drop (h.stop m) := by
  have hjoined : m.joined ≤ h.stop m := (h.bounded m hmem).1
  have hpart : h.log.take m.joined ++ h.inbox m = h.log.take (h.stop m) := by
    have hcut := List.take_append_drop m.joined (h.log.take (h.stop m))
    rwa [List.take_take, Nat.min_eq_left hjoined] at hcut
  rw [hpart, List.take_append_drop]

/-- Of two members that are both present, the later received the end of what the
earlier received. -/
theorem inbox_suffix {i j : Nat} (hij : i ≤ j) (hm : h.members[i]? = some m)
    (hn : h.members[j]? = some n) (hpm : m.left = none) (hpn : n.left = none) :
    h.inbox n <:+ h.inbox m := by
  have hjoined : m.joined ≤ n.joined := by
    obtain ⟨hi, rfl⟩ := List.getElem?_eq_some_iff.mp hm
    obtain ⟨hj, rfl⟩ := List.getElem?_eq_some_iff.mp hn
    rcases Nat.lt_or_eq_of_le hij with hlt | rfl
    · have hpair := List.pairwise_iff_getElem.mp h.ordered i j (by simpa using hi) (by simpa using hj) hlt
      simpa using hpair
    · exact Nat.le_refl _
  rw [inbox_of_present hpm, inbox_of_present hpn, ← Nat.add_sub_cancel' hjoined, ← List.drop_drop]
  exact List.drop_suffix _ _

end Conductor.Lib.Broadcast
