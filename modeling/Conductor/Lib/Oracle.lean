import Conductor.Lib.Runs
import Mathlib.Logic.Function.Basic

/-! # Answers that are given once

Some events answer a question, and no question is answered twice. Then all the
answers of a run are the values of one function, as if it had been fixed before
the run began. -/
namespace Conductor.Lib.Oracle
open Conductor.Lib.Runs

variable {σ ε κ α : Type*} {step : σ → ε → Option σ} {answer : σ → ε → Option (κ × α)}

/-- The event answers nothing, or what `F` says. -/
def Follows (answer : σ → ε → Option (κ × α)) (F : κ → α) (s : σ) (e : ε) : Prop :=
  ∀ k a, answer s e = some (k, a) → a = F k

/-- `Done s k`: the question `k` is answered, and will not come up again. -/
structure Answered (step : σ → ε → Option σ) (init : σ) (answer : σ → ε → Option (κ × α))
    (Done : σ → κ → Prop) : Prop where
  done : ∀ {past s e t k a}, exec step init past = some s → step s e = some t →
    answer s e = some (k, a) → Done t k
  stays : ∀ {s e t k}, step s e = some t → Done s k → Done t k
  unanswered : ∀ {s e k a}, answer s e = some (k, a) → ¬ Done s k

variable {init t : σ} {es : List ε} {Done : σ → κ → Prop} {F G : κ → α}

/-- Only the answers that were given matter. -/
theorem follows_congr (ha : Answered step init answer Done) (h : exec step init es = some t)
    (hF : Along step (Follows answer F) init es) (hG : ∀ k, Done t k → G k = F k) :
    Along step (Follows answer G) init es := by
  induction es using List.reverseRecOn generalizing t with
  | nil => trivial
  | append_singleton es e ih =>
    obtain ⟨s, hs, he⟩ := exec_snoc h
    obtain ⟨hes, hce⟩ := along_snoc hF hs
    refine along_snoc_of (ih hs hes fun k hk => hG k (ha.stays he hk)) hs ?_
    intro k a hka
    rw [hG k (ha.done hs he hka)]
    exact hce k a hka

/-- One function gives the answers of a whole run. -/
theorem exists_oracle [Nonempty α] (ha : Answered step init answer Done)
    (h : exec step init es = some t) : ∃ F : κ → α, Along step (Follows answer F) init es := by
  classical
  induction es using List.reverseRecOn generalizing t with
  | nil => exact ⟨fun _ => Classical.arbitrary α, trivial⟩
  | append_singleton es e ih =>
    obtain ⟨s, hs, he⟩ := exec_snoc h
    obtain ⟨F, hF⟩ := ih hs
    cases hans : answer s e with
    | none =>
      refine ⟨F, along_snoc_of hF hs fun k a hka => ?_⟩
      rw [hans] at hka
      cases hka
    | some ka =>
      obtain ⟨k, a⟩ := ka
      refine ⟨Function.update F k a, along_snoc_of (follows_congr ha hs hF ?_) hs ?_⟩
      · intro k' hk'
        have hne : k' ≠ k := fun heq => ha.unanswered hans (heq ▸ hk')
        exact Function.update_of_ne hne a F
      · intro k' a' hka
        rw [hans] at hka
        cases hka
        exact (Function.update_self k a F).symm

end Conductor.Lib.Oracle
