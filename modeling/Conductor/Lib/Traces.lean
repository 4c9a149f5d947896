import Mathlib.Data.List.Basic

/-! # Computations that leave a trace and can throw

A computation performs effects of type `ω` one after the other and ends with a
value or an exception; what was performed before a throw stays performed.
`Ensures` is its specification, a relation between the trace and the ending, and
`Only` the invariant of traces that are built step by step. -/
namespace Conductor.Lib.Traces

structure Traced (ω ε α : Type) where
  effects : List ω
  result : Except ε α

variable {ω ε α β : Type}

def emit (w : ω) : Traced ω ε Unit := ⟨[w], .ok ()⟩

/-- An expression that can throw. -/
def eval (r : Except ε α) : Traced ω ε α := ⟨[], r⟩

def bind (c : Traced ω ε α) (f : α → Traced ω ε β) : Traced ω ε β :=
  match c.result with
  | .ok a => ⟨c.effects ++ (f a).effects, (f a).result⟩
  | .error e => ⟨c.effects, .error e⟩

instance : Monad (Traced ω ε) where
  pure a := ⟨[], .ok a⟩
  bind := bind

/-- `try { c } catch (e) { handle(e) }`. -/
def caught (c : Traced ω ε α) (handle : ε → Traced ω ε α) : Traced ω ε α :=
  match c.result with
  | .ok _ => c
  | .error e => ⟨c.effects ++ (handle e).effects, (handle e).result⟩

/-! ## Specifications -/

def Ensures (Q : List ω → Except ε α → Prop) (c : Traced ω ε α) : Prop := Q c.effects c.result

variable {Q R : List ω → Except ε α → Prop} {c : Traced ω ε α}

theorem Ensures.imp (h : Ensures Q c) (himp : ∀ ws r, Q ws r → R ws r) : Ensures R c :=
  himp _ _ h

/-- A caught computation either ended well or goes on with the handler. -/
theorem ensures_caught {handle : ε → Traced ω ε α} (h : Ensures Q c)
    (hok : ∀ ws a, Q ws (.ok a) → R ws (.ok a))
    (herror : ∀ ws e, Q ws (.error e) → R (ws ++ (handle e).effects) (handle e).result) :
    Ensures R (caught c handle) := by
  unfold Ensures at h ⊢
  unfold caught
  cases hr : c.result with
  | ok a =>
    rw [hr] at h
    show R c.effects c.result
    rw [hr]
    exact hok _ a h
  | error e =>
    rw [hr] at h
    exact herror _ e h

/-- A computation whose first part leaves no trace that counts for `Q`. -/
theorem ensures_bind {Q : List ω → Except ε β → Prop} {f : α → Traced ω ε β}
    (hok : ∀ a, c.result = .ok a → Ensures (fun ws r => Q (c.effects ++ ws) r) (f a))
    (herror : ∀ e, c.result = .error e → Q c.effects (.error e)) : Ensures Q (c >>= f) := by
  show Q (bind c f).effects (bind c f).result
  unfold bind
  cases hr : c.result with
  | ok a => exact hok a hr
  | error e => exact herror e hr

/-! ## Traces of one kind -/

/-- Every effect is of the kind. -/
def Only (P : ω → Prop) (c : Traced ω ε α) : Prop := ∀ w ∈ c.effects, P w

variable {P : ω → Prop}

@[simp] theorem only_pure (a : α) : Only P (pure a : Traced ω ε α) := fun _ h => (by cases h)

@[simp] theorem only_eval (r : Except ε α) : Only P (eval r : Traced ω ε α) := fun _ h => (by cases h)

@[simp] theorem only_emit {w : ω} : Only P (emit w : Traced ω ε Unit) ↔ P w := by
  simp [Only, emit]

theorem only_bind {f : α → Traced ω ε β} (hc : Only P c) (hf : ∀ a, c.result = .ok a → Only P (f a)) :
    Only P (c >>= f) := by
  show ∀ w ∈ (bind c f).effects, P w
  unfold bind
  cases hr : c.result with
  | ok a => exact List.forall_mem_append.mpr ⟨hc, hf a hr⟩
  | error e => exact hc

end Conductor.Lib.Traces
