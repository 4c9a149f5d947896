import Mathlib.Data.List.Basic

/-! # Statements that assign and throw

Statements over variables of type `σ` that can throw an `ε`. What was assigned
before a throw stays assigned, so a loop that catches what its body throws goes
on with the variables as the body left them. `exec` runs a statement; `wp` is its
weakest precondition, of runs that end without a throw. -/
namespace Conductor.Lib.Statements

variable {σ ε α β : Type} {s s' : σ} {a : α}

abbrev Stmt (σ ε α : Type) := ExceptT ε (StateM σ) α

/-- What a statement settles with, and the variables after it. -/
def exec (st : Stmt σ ε α) (s : σ) : Except ε α × σ := Id.run (st.run.run s)

/-- An expression that can throw. -/
def eval (r : Except ε α) : Stmt σ ε α := ExceptT.mk (pure r)

/-- The variables as they are. -/
def vars : Stmt σ ε σ := ExceptT.mk (modifyGet fun s => (.ok s, s))

def assign (f : σ → σ) : Stmt σ ε Unit := ExceptT.mk (modifyGet fun s => (.ok (), f s))

/-- `try { st } catch {}`. -/
def tried (st : Stmt σ ε Unit) : Stmt σ ε Unit := tryCatch st fun _ => pure ()

/-- `for (const a of l) { body }`. -/
def forOf (body : α → Stmt σ ε Unit) : List α → Stmt σ ε Unit
  | [] => pure ()
  | a :: l => body a >>= fun _ => forOf body l

/-- A function that runs a statement and then returns. -/
def returning (st : Stmt σ ε Unit) (s : σ) (result : σ → Except ε β) : Except ε β :=
  match exec st s with
  | (.ok _, s') => result s'
  | (.error e, _) => .error e

/-! ## Runs -/

@[simp] theorem exec_pure (a : α) (s : σ) : exec (pure a : Stmt σ ε α) s = (.ok a, s) := rfl
@[simp] theorem exec_eval (r : Except ε α) (s : σ) : exec (eval r) s = (r, s) := rfl
@[simp] theorem exec_vars (s : σ) : exec (vars : Stmt σ ε σ) s = (.ok s, s) := rfl
@[simp] theorem exec_assign (f : σ → σ) (s : σ) :
    exec (assign f : Stmt σ ε Unit) s = (.ok (), f s) := rfl

theorem exec_bind (st : Stmt σ ε α) (f : α → Stmt σ ε β) (s : σ) :
    exec (st >>= f) s = match exec st s with
      | (.ok a, s') => exec (f a) s'
      | (.error e, s') => (.error e, s') := by
  have hrun : exec (st >>= f) s = Id.run ((ExceptT.bindCont f (exec st s).1).run (exec st s).2) := rfl
  rw [hrun]
  obtain ⟨r, s'⟩ := exec st s
  cases r <;> rfl

theorem exec_bind_ok {st : Stmt σ ε α} (h : exec st s = (.ok a, s')) (f : α → Stmt σ ε β) :
    exec (st >>= f) s = exec (f a) s' := by
  rw [exec_bind, h]

/-- Nothing is thrown past a `try`, and what was assigned in it stays. -/
@[simp] theorem exec_tried (st : Stmt σ ε Unit) (s : σ) :
    exec (tried st) s = (.ok (), (exec st s).2) := by
  rcases hexec : exec st s with ⟨r, s'⟩
  have hst : (@StateT.run σ Id (Except ε Unit) st s).run = (r, s') := hexec
  simp only [exec, tried, tryCatch, tryCatchThe, MonadExceptOf.tryCatch, ExceptT.tryCatch,
    ExceptT.run_mk, StateT.run_bind, Id.run_bind, hst]
  cases r <;> rfl

theorem exec_forOf_cons (body : α → Stmt σ ε Unit) (a : α) (l : List α) (s : σ) :
    exec (forOf body (a :: l)) s = match exec (body a) s with
      | (.ok _, s') => exec (forOf body l) s'
      | (.error e, s') => (.error e, s') := by
  rw [forOf, exec_bind]
  obtain ⟨r, s'⟩ := exec (body a) s
  cases r <;> rfl

/-- A loop whose body never throws folds what its body does. -/
theorem exec_forOf {body : α → Stmt σ ε Unit} {step : σ → α → σ} {l : List α}
    (h : ∀ a ∈ l, ∀ s, exec (body a) s = (.ok (), step s a)) (s : σ) :
    exec (forOf body l) s = (.ok (), l.foldl step s) := by
  induction l generalizing s with
  | nil => rfl
  | cons a l ih =>
    rw [exec_forOf_cons, h a List.mem_cons_self]
    exact ih (fun b hb => h b (List.mem_cons_of_mem a hb)) (step s a)

/-- Elements whose iterations do nothing can be left out. -/
theorem exec_forOf_filter {body : α → Stmt σ ε Unit} {p : α → Bool} {l : List α}
    (h : ∀ a ∈ l, p a = false → ∀ s, exec (body a) s = (.ok (), s)) (s : σ) :
    exec (forOf body (l.filter p)) s = exec (forOf body l) s := by
  induction l generalizing s with
  | nil => rfl
  | cons a l ih =>
    have hl := ih fun b hb => h b (List.mem_cons_of_mem a hb)
    rw [exec_forOf_cons]
    cases hp : p a with
    | false =>
      rw [List.filter_cons_of_neg (by simp [hp]), h a List.mem_cons_self hp]
      exact hl s
    | true =>
      rw [List.filter_cons_of_pos hp, exec_forOf_cons]
      obtain ⟨r, s'⟩ := exec (body a) s
      cases r with
      | error e => rfl
      | ok u => exact hl s'

/-! ## Preconditions -/

/-- The statement ends without a throw, in a state where `Q` holds. -/
def wp (st : Stmt σ ε α) (Q : α → σ → Prop) (s : σ) : Prop :=
  ∃ a s', exec st s = (.ok a, s') ∧ Q a s'

@[simp] theorem wp_pure (a : α) (Q : α → σ → Prop) :
    wp (pure a : Stmt σ ε α) Q s ↔ Q a s := by
  simp [wp]

@[simp] theorem wp_eval (r : Except ε α) (Q : α → σ → Prop) :
    wp (eval r) Q s ↔ ∃ a, r = .ok a ∧ Q a s := by
  simp [wp]

@[simp] theorem wp_assign (f : σ → σ) (Q : Unit → σ → Prop) :
    wp (assign f : Stmt σ ε Unit) Q s ↔ Q () (f s) := by
  constructor
  · rintro ⟨u, s', h, hq⟩
    cases h
    exact hq
  · exact fun h => ⟨(), f s, rfl, h⟩

@[simp] theorem wp_bind (st : Stmt σ ε α) (f : α → Stmt σ ε β) (Q : β → σ → Prop) :
    wp (st >>= f) Q s ↔ wp st (fun a s' => wp (f a) Q s') s := by
  unfold wp
  rw [exec_bind]
  obtain ⟨r, s'⟩ := exec st s
  cases r <;> simp

@[simp] theorem wp_vars (Q : σ → σ → Prop) : wp (vars : Stmt σ ε σ) Q s ↔ Q s s := by
  simp [wp]

/-- What does not depend on the run goes out of it. -/
theorem wp_and_right (st : Stmt σ ε α) (P : α → σ → Prop) (q : Prop) :
    wp st (fun a s => P a s ∧ q) s ↔ wp st P s ∧ q := by
  unfold wp
  simp only [← and_assoc, exists_and_right]

/-- `P` holds after a loop exactly when it holds before and every element is
good, where each iteration keeps it exactly for the good ones. -/
theorem wp_forOf {body : α → Stmt σ ε Unit} {P : σ → Prop} {good : α → Prop} {l : List α}
    (h : ∀ a ∈ l, ∀ s, wp (body a) (fun _ => P) s ↔ P s ∧ good a) (s : σ) :
    wp (forOf body l) (fun _ => P) s ↔ P s ∧ ∀ a ∈ l, good a := by
  induction l generalizing s with
  | nil => simp [forOf]
  | cons a l ih =>
    have hl := ih fun b hb => h b (List.mem_cons_of_mem a hb)
    rw [forOf, wp_bind]
    simp only [hl]
    rw [wp_and_right, h a List.mem_cons_self, List.forall_mem_cons, and_assoc]

theorem returning_iff {st : Stmt σ ε Unit} {result : σ → Except ε β} {R : β → Prop} :
    (∃ b, returning st s result = .ok b ∧ R b) ↔
      wp st (fun _ s' => ∃ b, result s' = .ok b ∧ R b) s := by
  unfold returning wp
  obtain ⟨r, s'⟩ := exec st s
  cases r <;> simp

/-- Only what a statement settles with and leaves behind goes into the result. -/
theorem returning_congr {st st' : Stmt σ ε Unit} (h : exec st s = exec st' s)
    (result : σ → Except ε β) : returning st s result = returning st' s result := by
  unfold returning
  rw [h]

end Conductor.Lib.Statements
