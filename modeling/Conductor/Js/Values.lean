import Conductor.Js.Number

/-! # JSON values as the program reads them

What `JSON.parse` can return, the reads of a property with and without
optional chaining, and the exceptions that a read can throw. `undefined` is
the `none` of a read. -/
namespace Conductor.Js.Values
open Conductor.Js.Text Conductor.Js.Number

/-- Objects keep their members in insertion order, each key once. -/
inductive Json where
  | null
  | bool (b : Bool)
  | num (n : JsNumber)
  | str (s : JsString)
  | arr (xs : List Json)
  | obj (members : List (JsString × Json))

inductive JsError where
  /-- A read of the given property of `null`, or a call of it where it is not a function. -/
  | typeError (property : JsString)
  /-- `new Error(message)`. -/
  | error (message : JsString)
  deriving DecidableEq

/-- `v.key`. No key that the program reads is a member of a built-in prototype. -/
def prop : Json → JsString → Except JsError (Option Json)
  | .null, key => throw (.typeError key)
  | .obj members, key => pure (members.lookup key)
  | _, _ => pure none

/-- `v?.key`, on a value that may be undefined. -/
def optProp : Option Json → JsString → Option Json
  | some (.obj members), key => members.lookup key
  | _, _ => none

/-- `v ?? d`. -/
def orElse : Option Json → Json → Json
  | none, d | some .null, d => d
  | some v, _ => v

/-- `v === text`. -/
def isText : Option Json → JsString → Bool
  | some (.str s), text => s == text
  | _, _ => false

def isNull : Json → Bool
  | .null => true
  | _ => false

def isString : Json → Bool
  | .str _ => true
  | _ => false

def isNumber : Json → Bool
  | .num _ => true
  | _ => false

def isBoolean : Json → Bool
  | .bool _ => true
  | _ => false

def isObject : Json → Bool
  | .obj _ => true
  | _ => false

theorem isText_iff {v : Option Json} {text : JsString} :
    isText v text = true ↔ v = some (.str text) := by
  cases v with
  | none => simp [isText]
  | some v => cases v <;> simp [isText]

theorem isObject_iff {v : Json} : isObject v = true ↔ ∃ members, v = .obj members := by
  cases v with
  | obj members => simp [isObject]
  | _ => simp [isObject]

theorem prop_of_ne_null {v : Json} (h : isNull v = false) (key : JsString) :
    prop v key = pure (optProp (some v) key) := by
  cases v <;> first | rfl | cases h

/-! ## Loops over computations that can throw -/

theorem exists_of_toBool {ε α : Type} {r : Except ε α} (h : r.toBool = true) : ∃ a, r = .ok a := by
  cases r with
  | error e => cases h
  | ok a => exact ⟨a, rfl⟩

theorem mapM_eq_ok {ε α β : Type} {f : α → Except ε β} {g : α → β} {l : List α}
    (h : ∀ a ∈ l, f a = .ok (g a)) : l.mapM f = .ok (l.map g) := by
  induction l with
  | nil => rfl
  | cons a l ih =>
    rw [List.mapM_cons, h a (by simp), ih fun b hb => h b (by simp [hb])]
    rfl

theorem exists_mapM {ε α β : Type} {f : α → Except ε β} {l : List α}
    (h : ∀ a ∈ l, ∃ b, f a = .ok b) : ∃ r, l.mapM f = .ok r := by
  induction l with
  | nil => exact ⟨[], rfl⟩
  | cons a l ih =>
    obtain ⟨b, hb⟩ := h a (by simp)
    obtain ⟨bs, hbs⟩ := ih fun c hc => h c (by simp [hc])
    refine ⟨b :: bs, ?_⟩
    rw [List.mapM_cons, hb, hbs]
    rfl

/-- A loop that does not throw has run its body for every element. -/
theorem forall₂_of_mapM {ε α β : Type} {f : α → Except ε β} {l : List α} {r : List β}
    (h : l.mapM f = .ok r) : List.Forall₂ (fun a b => f a = .ok b) l r := by
  induction l generalizing r with
  | nil => cases h; exact .nil
  | cons a l ih =>
    rw [List.mapM_cons] at h
    cases ha : f a with
    | error e => rw [ha] at h; cases h
    | ok b =>
      rw [ha] at h
      cases hl : l.mapM f with
      | error e => rw [hl] at h; cases h
      | ok bs =>
        rw [hl] at h
        cases h
        exact .cons ha (ih hl)

theorem ok_of_mapM {ε α β : Type} {f : α → Except ε β} {l : List α} {r : List β}
    (h : l.mapM f = .ok r) {a : α} (ha : a ∈ l) : ∃ b, f a = .ok b := by
  have hall := forall₂_of_mapM h
  clear h
  induction hall with
  | nil => cases ha
  | cons hb _ ih =>
    rcases List.mem_cons.mp ha with rfl | ha
    · exact ⟨_, hb⟩
    · exact ih ha

theorem mem_of_mapM {ε α β : Type} {f : α → Except ε β} {l : List α} {r : List β}
    (h : l.mapM f = .ok r) {b : β} (hb : b ∈ r) : ∃ a ∈ l, f a = .ok b := by
  have hall := forall₂_of_mapM h
  clear h
  induction hall with
  | nil => cases hb
  | cons ha _ ih =>
    rcases List.mem_cons.mp hb with rfl | hb
    · exact ⟨_, List.mem_cons_self, ha⟩
    · obtain ⟨a, hmem, hab⟩ := ih hb
      exact ⟨a, List.mem_cons_of_mem _ hmem, hab⟩

end Conductor.Js.Values
