import Mathlib.Data.List.Induction
import Mathlib.Data.Option.Basic

/-! # Finite runs of a partial step function

A system is a partial function `step : σ → ε → Option σ`: the events carry
every choice, and `none` means that the event is not enabled. `exec` performs
a list of events. The rules below are the only inductions over runs that a
development needs: an invariant of the states, an invariant that also speaks
about the events so far, and the same under a condition on the steps taken. -/
namespace Conductor.Lib.Runs

variable {σ ε : Type*} {step : σ → ε → Option σ}

/-- Perform the events in order. -/
def exec (step : σ → ε → Option σ) (s : σ) (es : List ε) : Option σ := es.foldlM step s

@[simp] theorem exec_nil (s : σ) : exec step s [] = some s := rfl

theorem exec_cons (s : σ) (e : ε) (es : List ε) :
    exec step s (e :: es) = (step s e).bind fun t => exec step t es := rfl

theorem exec_append (s : σ) (es fs : List ε) :
    exec step s (es ++ fs) = (exec step s es).bind fun t => exec step t fs := by
  unfold exec
  rw [List.foldlM_append]
  rfl

theorem exec_snoc {s u : σ} {es : List ε} {e : ε} (h : exec step s (es ++ [e]) = some u) :
    ∃ t, exec step s es = some t ∧ step t e = some u := by
  rw [exec_append] at h
  obtain ⟨t, ht, he⟩ := Option.bind_eq_some_iff.mp h
  refine ⟨t, ht, ?_⟩
  rw [exec_cons] at he
  simpa using he

theorem exec_snoc_of {s t u : σ} {es : List ε} {e : ε} (h : exec step s es = some t)
    (he : step t e = some u) : exec step s (es ++ [e]) = some u := by
  rw [exec_append, h]
  simp [exec_cons, he]

/-- Every condition that one step keeps is kept by a whole run. -/
theorem exec_invariant {I : σ → Prop}
    (keep : ∀ s e t, step s e = some t → I s → I t) {s t : σ} {es : List ε}
    (h : exec step s es = some t) (hs : I s) : I t := by
  induction es generalizing s with
  | nil => cases h; exact hs
  | cons e es ih =>
    rw [exec_cons] at h
    obtain ⟨u, hu, ht⟩ := Option.bind_eq_some_iff.mp h
    exact ih ht (keep s e u hu hs)

/-- `Along C s es`: every step that the run of `es` from `s` takes is taken in
a state and with an event that `C` admits. -/
def Along (step : σ → ε → Option σ) (C : σ → ε → Prop) : σ → List ε → Prop
  | _, [] => True
  | s, e :: es => C s e ∧ ∀ t, step s e = some t → Along step C t es

theorem along_append {C : σ → ε → Prop} {s : σ} {es fs : List ε} :
    Along step C s (es ++ fs) ↔
      Along step C s es ∧ ∀ t, exec step s es = some t → Along step C t fs := by
  induction es generalizing s with
  | nil => simp [Along]
  | cons e es ih =>
    simp only [List.cons_append, Along, ih, exec_cons]
    constructor
    · intro h
      obtain ⟨hc, h⟩ := h
      refine ⟨⟨hc, fun t ht => (h t ht).1⟩, ?_⟩
      intro u hu
      obtain ⟨t, ht, htu⟩ := Option.bind_eq_some_iff.mp hu
      exact (h t ht).2 u htu
    · intro h
      obtain ⟨⟨hc, h⟩, hall⟩ := h
      refine ⟨hc, fun t ht => ⟨h t ht, fun u hu => hall u ?_⟩⟩
      rw [ht]
      exact hu

theorem along_snoc {C : σ → ε → Prop} {s t : σ} {es : List ε} {e : ε}
    (h : Along step C s (es ++ [e])) (ht : exec step s es = some t) :
    Along step C s es ∧ C t e := by
  obtain ⟨hes, he⟩ := along_append.mp h
  exact ⟨hes, (he t ht).1⟩

theorem along_snoc_of {C : σ → ε → Prop} {s t : σ} {es : List ε} {e : ε}
    (hes : Along step C s es) (ht : exec step s es = some t) (he : C t e) :
    Along step C s (es ++ [e]) := by
  refine along_append.mpr ⟨hes, ?_⟩
  intro u hu
  rw [ht] at hu
  cases hu
  exact ⟨he, fun _ _ => trivial⟩

theorem along_cons_of {C : σ → ε → Prop} {s t : σ} {e : ε} {es : List ε} (hc : C s e)
    (h : step s e = some t) (hes : Along step C t es) : Along step C s (e :: es) := by
  refine ⟨hc, fun u hu => ?_⟩
  rw [h] at hu
  cases hu
  exact hes

theorem Along.imp {C D : σ → ε → Prop} {s : σ} {es : List ε} (h : Along step C s es)
    (himp : ∀ s e, C s e → D s e) : Along step D s es := by
  induction es generalizing s with
  | nil => trivial
  | cons e es ih => exact ⟨himp s e h.1, fun t ht => ih (h.2 t ht)⟩

/-- What holds of the events of a run in every state holds along it. -/
theorem along_of_forall {C : σ → ε → Prop} {es : List ε} (h : ∀ e ∈ es, ∀ s, C s e) (s : σ) :
    Along step C s es := by
  induction es generalizing s with
  | nil => trivial
  | cons e es ih =>
    exact ⟨h e List.mem_cons_self s, fun t _ => ih (fun e he => h e (List.mem_cons_of_mem _ he)) t⟩

/-- An invariant of the events so far and the state they led to, kept by every
step that `C` admits, holds after every run along which `C` holds. -/
theorem exec_history {C : σ → ε → Prop} {I : List ε → σ → Prop} {init : σ}
    (start : I [] init)
    (keep : ∀ past s e t, exec step init past = some s → step s e = some t → C s e →
      I past s → I (past ++ [e]) t) :
    ∀ {es : List ε} {t : σ}, exec step init es = some t → Along step C init es → I es t := by
  intro es
  induction es using List.reverseRecOn with
  | nil => intro t h _; cases h; exact start
  | append_singleton es e ih =>
    intro t h hc
    obtain ⟨s, hs, he⟩ := exec_snoc h
    obtain ⟨hes, hce⟩ := along_snoc hc hs
    exact keep es s e t hs he hce (ih hs hes)

/-- The case of an invariant that does not speak about the events. -/
theorem exec_invariant_along {C : σ → ε → Prop} {I : σ → Prop} {init t : σ} {es : List ε}
    (h : exec step init es = some t) (hc : Along step C init es) (start : I init)
    (keep : ∀ s e t, step s e = some t → C s e → I s → I t) : I t := by
  have hist : (fun (_ : List ε) t => I t) es t := exec_history start
    (fun _ s e t _ hst hce hi => keep s e t hst hce hi) h hc
  exact hist

/-- A system that keeps a record of its own beside another one runs like the other. -/
theorem exec_beside {ρ : Type*} {step' : ρ → ε → Option ρ} {system : ρ → σ}
    (hstep : ∀ r e, (step' r e).map system = step (system r) e) {r : ρ} {t : σ} {es : List ε}
    (h : exec step (system r) es = some t) : ∃ r', exec step' r es = some r' ∧ system r' = t := by
  induction es generalizing r with
  | nil => cases h; exact ⟨r, rfl, rfl⟩
  | cons e es ih =>
    rw [exec_cons] at h
    obtain ⟨u, hu, ht⟩ := Option.bind_eq_some_iff.mp h
    obtain ⟨q, hq, rfl⟩ := Option.map_eq_some_iff.mp ((hstep r e).trans hu)
    obtain ⟨r', hr', hsystem⟩ := ih ht
    refine ⟨r', ?_, hsystem⟩
    rw [exec_cons, hq]
    exact hr'

/-- `t` is the state of the run of `es` from `init` after some of its events. -/
def Visited (step : σ → ε → Option σ) (init : σ) (es : List ε) (t : σ) : Prop :=
  ∃ past, past <+: es ∧ exec step init past = some t

theorem visited_now {init t : σ} {es : List ε} (h : exec step init es = some t) :
    Visited step init es t := ⟨es, List.prefix_refl es, h⟩

theorem Visited.mono {init t : σ} {es : List ε} (h : Visited step init es t) (fs : List ε) :
    Visited step init (es ++ fs) t := by
  obtain ⟨past, hp, ht⟩ := h
  exact ⟨past, hp.trans (List.prefix_append es fs), ht⟩

/-- A run in two parts visits what the parts visit. -/
theorem visited_append {init t u : σ} {es fs : List ε} (h : exec step init es = some t)
    (hu : Visited step init (es ++ fs) u) : Visited step init es u ∨ Visited step t fs u := by
  obtain ⟨past, hp, hpast⟩ := hu
  rcases List.prefix_or_prefix_of_prefix hp (List.prefix_append es fs) with hle | ⟨rest, rfl⟩
  · exact .inl ⟨past, hle, hpast⟩
  · rw [exec_append, h] at hpast
    exact .inr ⟨rest, (List.prefix_append_right_inj es).mp hp, hpast⟩

theorem visited_cons {init t u : σ} {e : ε} {es : List ε} (h : step init e = some t)
    (hu : Visited step init (e :: es) u) : u = init ∨ Visited step t es u := by
  obtain ⟨past, hp, hpast⟩ := hu
  cases past with
  | nil => cases hpast; exact .inl rfl
  | cons e' past =>
    obtain ⟨rfl, htail⟩ := List.cons_prefix_cons.mp hp
    rw [exec_cons, h] at hpast
    exact .inr ⟨past, htail, hpast⟩

/-- The exact condition for a property of every state of a run and the events
before it: admitted steps keep an invariant that implies it, and the first step
that is not admitted destroys it. All of it is asked only of runs along which `D`
holds. -/
theorem history_iff_along_of {C D : σ → ε → Prop} {I P : List ε → σ → Prop} {init : σ} (start : I [] init)
    (keep : ∀ past s e t, exec step init past = some s → step s e = some t → D s e → C s e →
      I past s → I (past ++ [e]) t)
    (holds : ∀ past s, I past s → P past s)
    (breaks : ∀ past s e t, exec step init past = some s → step s e = some t → D s e → I past s →
      ¬ C s e → ¬ P (past ++ [e]) t)
    {es : List ε} {s : σ} (h : exec step init es = some s) (hd : Along step D init es) :
    (∀ past t, past <+: es → exec step init past = some t → P past t) ↔ Along step C init es := by
  have inv : ∀ {es t}, exec step init es = some t → Along step D init es →
      Along step C init es → I es t := by
    intro es t ht hd hc
    refine exec_history (I := fun past t => Along step C init past → I past t) (fun _ => start) ?_ ht hd hc
    intro past s e t hs hst hde hi hpast
    obtain ⟨hbefore, hce⟩ := along_snoc hpast hs
    exact keep past s e t hs hst hde hce (hi hbefore)
  refine ⟨fun hall => ?_, fun hc past t hp hpast => ?_⟩
  · induction es using List.reverseRecOn generalizing s with
    | nil => trivial
    | append_singleton es e ih =>
      obtain ⟨t, ht, he⟩ := exec_snoc h
      obtain ⟨hds, hde⟩ := along_snoc hd ht
      have hes : Along step C init es := ih ht hds fun past u hp hu =>
        hall past u (hp.trans (List.prefix_append es [e])) hu
      by_cases hce : C t e
      · exact along_snoc_of hes ht hce
      · exact absurd (hall _ s (List.prefix_refl _) h) (breaks es t e s ht he hde (inv ht hds hes) hce)
  · obtain ⟨rest, rfl⟩ := hp
    exact holds past t (inv hpast (along_append.mp hd).1 (along_append.mp hc).1)

/-- The case of all runs. -/
theorem history_iff_along {C : σ → ε → Prop} {I P : List ε → σ → Prop} {init : σ} (start : I [] init)
    (keep : ∀ past s e t, exec step init past = some s → step s e = some t → C s e →
      I past s → I (past ++ [e]) t)
    (holds : ∀ past s, I past s → P past s)
    (breaks : ∀ past s e t, exec step init past = some s → step s e = some t → I past s →
      ¬ C s e → ¬ P (past ++ [e]) t)
    {es : List ε} {s : σ} (h : exec step init es = some s) :
    (∀ past t, past <+: es → exec step init past = some t → P past t) ↔ Along step C init es :=
  history_iff_along_of start (fun past s e t hs hst _ => keep past s e t hs hst) holds
    (fun past s e t hs hst _ => breaks past s e t hs hst) h (along_of_forall (fun _ _ _ => trivial) init)

/-- The case of a property of the states alone. -/
theorem visited_iff_along_of {C D : σ → ε → Prop} {I P : σ → Prop} {init : σ} (start : I init)
    (keep : ∀ s e t, step s e = some t → D s e → C s e → I s → I t)
    (holds : ∀ s, I s → P s)
    (breaks : ∀ s e t, step s e = some t → D s e → I s → ¬ C s e → ¬ P t)
    {es : List ε} {s : σ} (h : exec step init es = some s) (hd : Along step D init es) :
    (∀ t, Visited step init es t → P t) ↔ Along step C init es := by
  have hiff := history_iff_along_of (I := fun _ t => I t) (P := fun _ t => P t) start
    (fun _ s e t _ => keep s e t) (fun _ => holds) (fun _ s e t _ => breaks s e t) h hd
  refine Iff.trans ⟨fun hall past t hp ht => ?_, fun hall t ht => ?_⟩ hiff
  · exact hall t ⟨past, hp, ht⟩
  · obtain ⟨past, hp, hpast⟩ := ht
    exact hall past t hp hpast

/-- The case of all runs. -/
theorem visited_iff_along {C : σ → ε → Prop} {I P : σ → Prop} {init : σ} (start : I init)
    (keep : ∀ s e t, step s e = some t → C s e → I s → I t)
    (holds : ∀ s, I s → P s)
    (breaks : ∀ s e t, step s e = some t → I s → ¬ C s e → ¬ P t)
    {es : List ε} {s : σ} (h : exec step init es = some s) :
    (∀ t, Visited step init es t → P t) ↔ Along step C init es :=
  visited_iff_along_of start (fun s e t hst _ => keep s e t hst) holds
    (fun s e t hst _ => breaks s e t hst) h (along_of_forall (fun _ _ _ => trivial) init)

end Conductor.Lib.Runs
