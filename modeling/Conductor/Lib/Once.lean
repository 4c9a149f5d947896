import Mathlib.Data.List.Basic

/-! # Calls of an operation that is carried out once

Any number of callers ask for one operation; the first call performs it, and a
later one is told its outcome. `answer` is what a call has returned so far. A
call that is still pending is then the only one, every answer was given after
the operation was done, and all answers are one. -/
namespace Conductor.Lib.Once

variable {γ ρ : Type*} {answer : γ → Option ρ} {done done' : Prop} {calls : List γ}

structure OneAnswer (answer : γ → Option ρ) (done : Prop) (calls : List γ) : Prop where
  alone : ∀ c ∈ calls, answer c = none → calls = [c]
  finished : ∀ c ∈ calls, ∀ r, answer c = some r → done
  same : ∀ c ∈ calls, ∀ c' ∈ calls, ∀ r r', answer c = some r → answer c' = some r' → r = r'

theorem oneAnswer_nil : OneAnswer answer done [] :=
  ⟨fun _ hc => (by cases hc), fun _ hc => (by cases hc), fun _ hc => (by cases hc)⟩

theorem oneAnswer_singleton {c : γ} (h : ∀ r, answer c = some r → done) : OneAnswer answer done [c] := by
  refine ⟨fun d hd _ => ?_, fun d hd => ?_, fun d hd d' hd' r r' hr hr' => ?_⟩
  · rw [List.mem_singleton.mp hd]
  · rw [List.mem_singleton.mp hd]
    exact h
  · rw [List.mem_singleton.mp hd] at hr
    rw [List.mem_singleton.mp hd', hr] at hr'
    exact Option.some.inj hr'

/-- Everything that was done stays done. -/
theorem OneAnswer.imp (h : OneAnswer answer done calls) (himp : done → done') : OneAnswer answer done' calls :=
  ⟨h.alone, fun c hc r hr => himp (h.finished c hc r hr), h.same⟩

/-- A pending call moves on, or returns when the operation is done. -/
theorem OneAnswer.set (h : OneAnswer answer done calls) {k : Nat} {c c' : γ} (hk : calls[k]? = some c)
    (hc : answer c = none) (hdone : ∀ r, answer c' = some r → done) :
    OneAnswer answer done (calls.set k c') := by
  have hone : calls = [c] := h.alone c (List.mem_of_getElem? hk) hc
  subst hone
  have hk0 : k = 0 := by
    obtain ⟨hlt, -⟩ := List.getElem?_eq_some_iff.mp hk
    simpa using hlt
  subst hk0
  exact oneAnswer_singleton hdone

/-- What leaves the answers alone keeps it. -/
theorem OneAnswer.map (h : OneAnswer answer done calls) {f : γ → γ} (hf : ∀ c, answer (f c) = answer c) :
    OneAnswer answer done (calls.map f) := by
  refine ⟨fun d hd hnone => ?_, fun d hd r hr => ?_, fun d hd d' hd' r r' hr hr' => ?_⟩
  · obtain ⟨c, hc, rfl⟩ := List.mem_map.mp hd
    rw [h.alone c hc (hf c ▸ hnone)]
    rfl
  · obtain ⟨c, hc, rfl⟩ := List.mem_map.mp hd
    exact h.finished c hc r (hf c ▸ hr)
  · obtain ⟨c, hc, rfl⟩ := List.mem_map.mp hd
    obtain ⟨c', hc', rfl⟩ := List.mem_map.mp hd'
    exact h.same c hc c' hc' r r' (hf c ▸ hr) (hf c' ▸ hr')

/-- A call that comes after the first has returned, and is told the same. -/
theorem OneAnswer.late (h : OneAnswer answer done calls) {c d : γ} {r : ρ} (hc : c ∈ calls)
    (hr : answer c = some r) (hd : answer d = some r) : OneAnswer answer done (calls ++ [d]) := by
  have hall : ∀ e ∈ calls ++ [d], answer e = some r := by
    intro e he
    rcases List.mem_append.mp he with he | he
    · cases hans : answer e with
      | none =>
        have hone : calls = [e] := h.alone e he hans
        rw [hone, List.mem_singleton] at hc
        rw [hc, hans] at hr
        cases hr
      | some r' => rw [h.same e he c hc r' r hans hr]
    · rw [List.mem_singleton.mp he, hd]
  refine ⟨fun e he hnone => ?_, fun e he _ _ => h.finished c hc r hr, fun e he e' he' q q' hq hq' => ?_⟩
  · rw [hall e he] at hnone
    cases hnone
  · rw [hall e he] at hq
    rw [hall e' he', hq] at hq'
    exact Option.some.inj hq'

end Conductor.Lib.Once
