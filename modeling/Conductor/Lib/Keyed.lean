import Mathlib.Data.List.Induction
import Mathlib.Data.List.Nodup

/-! # One value for each key

A value that is put takes the place of the one with its key, or comes last. So the
keys stand in the order in which they were first put, each with its last value. -/
namespace Conductor.Lib.Keyed

variable {κ α : Type*} [DecidableEq κ]

def put (key : α → κ) (a : α) : List α → List α
  | [] => [a]
  | b :: l => if key b = key a then a :: l else b :: put key a l

/-- The last value of the list that has the key. -/
def lastOf (key : α → κ) (l : List α) (k : κ) : Option α := l.reverse.find? fun a => key a = k

/-- The keys of the list, each where it first stands. -/
def firsts (key : α → κ) (l : List α) : List κ := (l.map key).eraseDups

section Lists

variable (key : α → κ) (a : α) (l : List α)

theorem keys_put :
    (put key a l).map key = if key a ∈ l.map key then l.map key else l.map key ++ [key a] := by
  induction l with
  | nil => rfl
  | cons b l ih =>
    rw [put]
    by_cases h : key b = key a
    · rw [if_pos h, List.map_cons, List.map_cons, h, if_pos List.mem_cons_self]
    · rw [if_neg h, List.map_cons, List.map_cons, ih]
      by_cases hmem : key a ∈ l.map key
      · rw [if_pos hmem, if_pos (List.mem_cons_of_mem _ hmem)]
      · have hnot : key a ∉ key b :: l.map key := by
          rw [List.mem_cons, not_or]
          exact ⟨Ne.symm h, hmem⟩
        rw [if_neg hmem, if_neg hnot, List.cons_append]

theorem find?_put (k : κ) :
    (put key a l).find? (fun b => key b = k) = if key a = k then some a else l.find? fun b => key b = k := by
  induction l with
  | nil =>
    rw [put, List.find?_cons, List.find?_nil]
    by_cases h : key a = k
    · simp only [h, decide_true, if_true]
    · simp only [h, decide_false, if_false]
  | cons b l ih =>
    rw [put]
    by_cases h : key b = key a
    · rw [if_pos h, List.find?_cons, List.find?_cons, h]
      by_cases hk : key a = k
      · simp only [hk, decide_true, if_true]
      · simp only [hk, decide_false, if_false]
    · rw [if_neg h, List.find?_cons, List.find?_cons, ih]
      by_cases hk : key b = k
      · have hne : ¬ key a = k := fun ha => h (hk.trans ha.symm)
        simp only [hk, decide_true, if_neg hne]
      · simp only [hk, decide_false]

end Lists

theorem eraseDups_concat (ks : List κ) (k : κ) :
    (ks ++ [k]).eraseDups = if k ∈ ks then ks.eraseDups else ks.eraseDups ++ [k] := by
  rw [List.eraseDups_append]
  by_cases h : k ∈ ks
  · simp [List.removeAll, h]
  · simp [List.removeAll, h, List.eraseDups_cons]

/-! ## Tables -/

structure Table (key : α → κ) where
  values : List α
  distinct : (values.map key).Nodup

variable {key : α → κ}

def Table.empty : Table key := ⟨[], List.nodup_nil⟩

def Table.put (t : Table key) (a : α) : Table key where
  values := Keyed.put key a t.values
  distinct := by
    rw [keys_put]
    split
    · exact t.distinct
    · rename_i h
      refine List.nodup_append.mpr ⟨t.distinct, List.nodup_singleton _, fun k hk k' hk' heq => h ?_⟩
      rwa [← List.mem_singleton.mp hk', ← heq]

def Table.putAll (t : Table key) (l : List α) : Table key := l.foldl Table.put t

def Table.keys (t : Table key) : List κ := t.values.map key

def Table.find? (t : Table key) (k : κ) : Option α := t.values.find? fun a => key a = k

theorem Table.putAll_concat (t : Table key) (l : List α) (a : α) :
    t.putAll (l ++ [a]) = (t.putAll l).put a := by
  unfold Table.putAll
  rw [List.foldl_append]
  rfl

theorem lastOf_concat (l : List α) (a : α) (k : κ) :
    lastOf key (l ++ [a]) k = if key a = k then some a else lastOf key l k := by
  unfold lastOf
  rw [List.reverse_append, List.reverse_singleton, List.singleton_append, List.find?_cons]
  by_cases h : key a = k
  · simp only [h, decide_true, if_true]
  · simp only [h, decide_false, if_false]

/-- A key has the value that was put last. -/
theorem Table.find?_putAll (l : List α) (k : κ) : ((empty : Table key).putAll l).find? k = lastOf key l k := by
  induction l using List.reverseRecOn with
  | nil => rfl
  | append_singleton l a ih =>
    rw [putAll_concat, lastOf_concat, ← ih]
    exact find?_put key a _ k

/-- The keys are in the order in which they were first put. -/
theorem Table.keys_putAll (l : List α) : ((empty : Table key).putAll l).keys = firsts key l := by
  induction l using List.reverseRecOn with
  | nil => rfl
  | append_singleton l a ih =>
    have hmem : key a ∈ ((empty : Table key).putAll l).keys ↔ key a ∈ l.map key := by
      rw [ih, firsts, List.mem_eraseDups]
    unfold firsts at ih ⊢
    rw [putAll_concat, List.map_append, List.map_singleton, eraseDups_concat, ← ih]
    refine (keys_put key a _).trans ?_
    exact if_congr hmem rfl rfl

theorem Table.find?_key (t : Table key) {a : α} (ha : a ∈ t.values) : t.find? (key a) = some a := by
  have hsome : (t.find? (key a)).isSome = true := List.find?_isSome.mpr ⟨a, ha, decide_eq_true rfl⟩
  obtain ⟨b, hb⟩ := Option.isSome_iff_exists.mp hsome
  have hfound : t.values.find? (fun c => key c = key a) = some b := hb
  have hkey : key b = key a := of_decide_eq_true (List.find?_some (p := fun c => key c = key a) hfound)
  rw [hb, List.inj_on_of_nodup_map t.distinct (List.mem_of_find?_eq_some hfound) ha hkey]

/-- Going through the values is going through the keys and what is found under them. -/
theorem Table.flatMap_values {β : Type*} (t : Table key) (f : α → List β) :
    t.values.flatMap f = t.keys.flatMap fun k => (t.find? k).elim [] f := by
  unfold Table.keys
  rw [List.flatMap_map]
  refine List.flatMap_congr fun a ha => ?_
  rw [t.find?_key ha]
  rfl

end Conductor.Lib.Keyed
