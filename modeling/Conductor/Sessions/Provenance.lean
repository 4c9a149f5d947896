import Conductor.Sessions.StatusCache

/-! # Which derivation an answer comes from

Every map that a call returns was settled by some call of the run, at most the
lifetime of the cache before the question. The settled call is still in the
state with all its derivations, so what each of them gave can be looked up. -/
namespace Conductor.Sessions.Provenance
open Conductor.Lib.Runs Conductor.Js.Values Conductor.Sessions.Types
open Conductor.Sessions.RefinedStatus Conductor.Sessions.Schedule Conductor.Sessions.StatusCache

variable {s t : State}

/-- Call `k` over the list `l` settled its derivations to the map. -/
structure DerivedBy (s : State) (k : Nat) (l : List LocalSession) (r : Returned) : Prop where
  call : ∃ c, s.calls[k]? = some c ∧ c.sessions = l ∧ c.returned = some r ∧
    settled l c.progress = some r.statuses

/-- The map of an answer, whose derivation ended later than `since`, over a list with `P`. -/
def Source (s : State) (P : List LocalSession → Prop) (since : Int) (m : PidMap RefinedStatus) : Prop :=
  ∃ k l ended, DerivedBy s k l ⟨m, ended⟩ ∧ P l ∧ since < ended

/-- How one step changes a call: its question stays, and what it returned and
settled stays. -/
structure Evolves (now : Int) (c c' : Call) : Prop where
  sessions : c'.sessions = c.sessions
  startedAt : c'.startedAt = c.startedAt
  kept : ∀ r, c.returned = some r → c'.returned = some r
  progress : ∀ m, settled c.sessions c.progress = some m → c'.progress = c.progress
  news : ∀ r, c'.returned = some r → c.returned = some r ∨
    r.time = now ∧ settled c.sessions c'.progress = some r.statuses

theorem Evolves.refl (now : Int) (c : Call) : Evolves now c c :=
  ⟨rfl, rfl, fun _ h => h, fun _ _ => rfl, fun _ h => .inl h⟩

/-! ## Settled derivations -/

/-- A settled list starts with a derivation that is done, and the rest of it is settled. -/
theorem settled_cons {o : LocalSession} {l : List LocalSession} {ps : List Progress}
    {m : PidMap RefinedStatus} (h : settled (o :: l) ps = some m) :
    ∃ status ps' m', ps = .done status :: ps' ∧ settled l ps' = some m' ∧
      m = (o.pid, status) :: m' := by
  cases ps with
  | nil => cases h
  | cons q ps =>
    cases q with
    | done status =>
      simp only [settled, Option.map_eq_some_iff] at h
      obtain ⟨m', hm', rfl⟩ := h
      exact ⟨status, ps, m', rfl, hm', rfl⟩
    | start => cases h
    | gotLast last => cases h
    | noPending last => cases h
    | gotStat last mtimeMs => cases h

/-- A settled list has no derivation past its sessions. -/
theorem settled_nil {ps : List Progress} {m : PidMap RefinedStatus} (h : settled [] ps = some m) :
    ps = [] ∧ m = [] := by
  cases ps with
  | nil =>
    cases h
    exact ⟨rfl, rfl⟩
  | cons q ps => cases h

/-- In a settled list every derivation is done. -/
theorem settled_get {l : List LocalSession} {ps : List Progress} {m : PidMap RefinedStatus}
    (h : settled l ps = some m) {i : Nat} {p : Progress} (hp : ps[i]? = some p) :
    ∃ status, p = .done status := by
  induction l generalizing ps m i with
  | nil =>
    obtain ⟨rfl, -⟩ := settled_nil h
    simp at hp
  | cons o l ih =>
    obtain ⟨status, ps', m', rfl, hm', -⟩ := settled_cons h
    cases i with
    | zero =>
      cases hp
      exact ⟨status, rfl⟩
    | succ i => exact ih hm' hp

/-- The pairs of the map are the sessions with what their derivations gave. -/
theorem settled_forall₂ {l : List LocalSession} {ps : List Progress} {m : PidMap RefinedStatus}
    (h : settled l ps = some m) :
    List.Forall₂ (fun o p => p.1 = o.pid ∧ ∃ i : Nat, l[i]? = some o ∧ ps[i]? = some (Progress.done p.2)) l m := by
  induction l generalizing ps m with
  | nil =>
    obtain ⟨-, rfl⟩ := settled_nil h
    exact .nil
  | cons o l ih =>
    obtain ⟨status, ps', m', rfl, hm', rfl⟩ := settled_cons h
    refine .cons ⟨rfl, 0, rfl, rfl⟩ ((ih hm').imp fun o' p hp => ⟨hp.1, ?_⟩)
    obtain ⟨i, hi, hpi⟩ := hp.2
    exact ⟨i + 1, hi, hpi⟩

/-- What the settled map has for a pid: the status that the derivation for the
last session of the pid gave. -/
theorem settled_get? {l : List LocalSession} {ps : List Progress} {m : PidMap RefinedStatus}
    (h : settled l ps = some m) (pid : Int) :
    Option.Rel (fun o status => ∃ i : Nat, l[i]? = some o ∧ ps[i]? = some (Progress.done status))
      (owner l pid) (m.get? pid) := get?_rel (settled_forall₂ h) pid

/-! ## One step -/

theorem readStep_evolves {c c' : Call} {i : Nat} (h : readStep s c i = some c') :
    Evolves s.now c c' := by
  obtain ⟨o, ho, h⟩ := Option.bind_eq_some_iff.mp h
  obtain ⟨p, hp, h⟩ := Option.bind_eq_some_iff.mp h
  obtain ⟨p', hp', h⟩ := Option.bind_eq_some_iff.mp h
  cases h
  refine ⟨rfl, rfl, fun _ h => h, fun m hm => ?_, fun _ h => .inl h⟩
  -- a derivation that is done has no next read
  obtain ⟨status, rfl⟩ := settled_get hm hp
  cases hp'

theorem settleStep_evolves {c c' : Call} (h : settleStep s c = some c') : Evolves s.now c c' := by
  unfold settleStep at h
  split at h
  · rename_i hnone
    obtain ⟨m, hm, rfl⟩ := Option.map_eq_some_iff.mp h
    refine ⟨rfl, rfl, fun r hr => ?_, fun _ _ => rfl, fun r hr => ?_⟩
    · rw [hr] at hnone
      cases hnone
    · cases hr
      exact .inr ⟨rfl, hm⟩
  · cases h

theorem summarizeStep_evolves {c c' : Call} (h : summarizeStep s c = some c') :
    Evolves s.now c c' := by
  unfold summarizeStep at h
  split at h
  · obtain ⟨o, -, h⟩ := Option.map_eq_some_iff.mp h
    split at h
    · cases h
      exact ⟨rfl, rfl, fun _ h => h, fun _ _ => rfl, fun _ h => .inl h⟩
    · cases h
      exact ⟨rfl, rfl, fun _ h => h, fun _ _ => rfl, fun _ h => .inl h⟩
  · cases h

theorem composeStep_evolves {now : Int} {c c' : Call} {fs : Lock.Fs} {tmux : Tmux.TmuxMap.TmuxHost}
    (h : composeStep c fs tmux = some c') : Evolves now c c' := by
  unfold composeStep at h
  split at h
  · split at h
    · cases h
      exact ⟨rfl, rfl, fun _ h => h, fun _ _ => rfl, fun _ h => .inl h⟩
    · cases h
  · cases h

theorem update_evolves {k : Nat} {f : Call → Option Call} (hu : update s k f = some t)
    (hf : ∀ c c', f c = some c' → Evolves s.now c c') {k' : Nat} {c : Call}
    (hk : s.calls[k']? = some c) : ∃ c', t.calls[k']? = some c' ∧ Evolves s.now c c' := by
  obtain ⟨d, hd, hu⟩ := Option.bind_eq_some_iff.mp hu
  obtain ⟨d', hd', hu⟩ := Option.bind_eq_some_iff.mp hu
  cases hu
  by_cases hkk : k = k'
  · subst hkk
    rw [hd] at hk
    cases hk
    exact ⟨d', List.getElem?_set_self (List.getElem?_eq_some_iff.mp hd).1, hf _ d' hd'⟩
  · exact ⟨c, (List.getElem?_set_ne hkk).trans hk, .refl _ c⟩

theorem step_evolves {e : Event} (hst : step s e = some t) {k : Nat} {c : Call}
    (hk : s.calls[k]? = some c) : ∃ c', t.calls[k]? = some c' ∧ Evolves s.now c c' := by
  cases e with
  | tick d => cases hst; exact ⟨c, hk, .refl _ c⟩
  | write path file => cases hst; exact ⟨c, hk, .refl _ c⟩
  | call sessions =>
    cases hst
    refine ⟨c, ?_, .refl _ c⟩
    show (s.calls ++ [newCall s sessions])[k]? = some c
    rw [List.getElem?_append_left (List.getElem?_eq_some_iff.mp hk).1, hk]
  | read k' i => exact update_evolves hst (fun _ _ h => readStep_evolves h) hk
  | settle k' =>
    obtain ⟨d, hd, hst⟩ := Option.bind_eq_some_iff.mp hst
    obtain ⟨d', hd', hst⟩ := Option.bind_eq_some_iff.mp hst
    obtain ⟨r, -, hst⟩ := Option.bind_eq_some_iff.mp hst
    cases hst
    have hu : update s k' (settleStep s) = some { s with calls := s.calls.set k' d' } := by
      unfold update
      simp [hd, hd']
    exact update_evolves hu (fun _ _ h => settleStep_evolves h) hk
  | summarize k' => exact update_evolves hst (fun _ _ h => summarizeStep_evolves h) hk
  | compose k' fs tmux => exact update_evolves hst (fun _ _ h => composeStep_evolves h) hk

theorem DerivedBy.step {e : Event} {k : Nat} {l : List LocalSession} {r : Returned}
    (h : DerivedBy s k l r) (hst : step s e = some t) : DerivedBy t k l r := by
  obtain ⟨c, hk, rfl, hr, hm⟩ := h.call
  obtain ⟨c', hk', hev⟩ := step_evolves hst hk
  exact ⟨c', hk', hev.sessions, hev.kept r hr, by rw [hev.progress _ hm]; exact hm⟩

theorem Source.step {e : Event} {P : List LocalSession → Prop} {since : Int}
    {m : PidMap RefinedStatus} (h : Source s P since m) (hst : step s e = some t) :
    Source t P since m := by
  obtain ⟨k, l, ended, hd, hrest⟩ := h
  exact ⟨k, l, ended, hd.step hst, hrest⟩

/-! ## The invariant of the cache -/

/-- The cache holds what some call settled, over the list it was filled from. -/
def CacheInv (s : State) : Prop :=
  ∀ c, s.cache = some c → c.setAt ≤ s.now ∧ ∃ k, DerivedBy s k s.filledFrom ⟨c.statuses, c.setAt⟩

theorem cacheInv_init (now : Int) (disk : Disk) : CacheInv (init now disk) := fun c hc => by cases hc

theorem step_now {e : Event} (hst : step s e = some t) : s.now ≤ t.now := by
  have hupdate : ∀ {k f}, update s k f = some t → s.now ≤ t.now := by
    intro k f hu
    obtain ⟨c, -, hu⟩ := Option.bind_eq_some_iff.mp hu
    obtain ⟨c', -, hu⟩ := Option.bind_eq_some_iff.mp hu
    cases hu
    exact le_refl _
  cases e with
  | tick d =>
    cases hst
    show s.now ≤ s.now + d
    omega
  | write path file => cases hst; exact le_refl _
  | call sessions => cases hst; exact le_refl _
  | read k i => exact hupdate hst
  | settle k =>
    obtain ⟨c, -, hst⟩ := Option.bind_eq_some_iff.mp hst
    obtain ⟨c', -, hst⟩ := Option.bind_eq_some_iff.mp hst
    obtain ⟨r, -, hst⟩ := Option.bind_eq_some_iff.mp hst
    cases hst
    exact le_refl _
  | summarize k => exact hupdate hst
  | compose k fs tmux => exact hupdate hst

/-- Only a call that settles touches the cache. -/
theorem step_cache {e : Event} (hst : step s e = some t) :
    t.cache = s.cache ∧ t.filledFrom = s.filledFrom ∨
      ∃ k r, t.cache = some ⟨r.time, r.statuses⟩ ∧ r.time = t.now ∧ DerivedBy t k t.filledFrom r := by
  have hupdate : ∀ {k f}, update s k f = some t → t.cache = s.cache ∧ t.filledFrom = s.filledFrom := by
    intro k f hu
    obtain ⟨c, -, hu⟩ := Option.bind_eq_some_iff.mp hu
    obtain ⟨c', -, hu⟩ := Option.bind_eq_some_iff.mp hu
    cases hu
    exact ⟨rfl, rfl⟩
  cases e with
  | tick d => cases hst; exact .inl ⟨rfl, rfl⟩
  | write path file => cases hst; exact .inl ⟨rfl, rfl⟩
  | call sessions => cases hst; exact .inl ⟨rfl, rfl⟩
  | read k i => exact .inl (hupdate hst)
  | settle k =>
    obtain ⟨c, hk, hst⟩ := Option.bind_eq_some_iff.mp hst
    obtain ⟨c', hc', hst⟩ := Option.bind_eq_some_iff.mp hst
    obtain ⟨r, hr, hst⟩ := Option.bind_eq_some_iff.mp hst
    cases hst
    unfold settleStep at hc'
    split at hc'
    · obtain ⟨m, hm, rfl⟩ := Option.map_eq_some_iff.mp hc'
      cases hr
      exact .inr ⟨k, _, rfl, rfl, _,
        List.getElem?_set_self (List.getElem?_eq_some_iff.mp hk).1, rfl, rfl, hm⟩
    · cases hc'
  | summarize k => exact .inl (hupdate hst)
  | compose k fs tmux => exact .inl (hupdate hst)

theorem cacheInv_step {e : Event} (hst : step s e = some t) (h : CacheInv s) : CacheInv t := by
  intro c hc
  rcases step_cache hst with ⟨hcache, hfilled⟩ | ⟨k, r, hcache, htime, hd⟩
  · rw [hcache] at hc
    obtain ⟨hset, k, hd⟩ := h c hc
    have hnow := step_now hst
    rw [hfilled]
    exact ⟨by omega, k, hd.step hst⟩
  · rw [hcache] at hc
    cases hc
    exact ⟨by show r.time ≤ t.now; omega, k, hd⟩

/-! ## The invariant of a call -/

/-- Call `k` asks for the list, and what it has returned comes from a derivation
over a list with `P` that ended within the lifetime of the cache before the question. -/
def Asked (s : State) (k : Nat) (l : List LocalSession) (P : List LocalSession → Prop) (askedAt : Int) :
    Prop :=
  ∃ c, s.calls[k]? = some c ∧ c.sessions = l ∧ c.startedAt = askedAt ∧ askedAt ≤ s.now ∧
    ∀ r, c.returned = some r → Source s P (askedAt - CACHE_TTL_MS) r.statuses

theorem Asked.step {e : Event} {k : Nat} {l : List LocalSession} {P : List LocalSession → Prop}
    {askedAt : Int} (h : Asked s k l P askedAt) (hP : P l) (hst : step s e = some t) : Asked t k l P askedAt := by
  obtain ⟨c, hk, rfl, rfl, hle, hr⟩ := h
  obtain ⟨c', hk', hev⟩ := step_evolves hst hk
  have hnow := step_now hst
  refine ⟨c', hk', hev.sessions, hev.startedAt, by omega, fun r hret => ?_⟩
  rcases hev.news r hret with hold | ⟨htime, hm⟩
  · exact (hr r hold).step hst
  · refine ⟨k, c.sessions, r.time, ⟨c', hk', hev.sessions, hret, hm⟩, hP, ?_⟩
    have hpos : (0 : Int) < CACHE_TTL_MS := by decide
    omega

/-- A new call, asked about the cache it finds. -/
theorem asked_newCall (h : CacheInv s) {l : List LocalSession} {P : List LocalSession → Prop}
    (hfresh : (fresh s.cache s.now).isSome = true → P s.filledFrom)
    (hst : step s (.call l) = some t) : Asked t s.calls.length l P s.now := by
  cases hst
  refine ⟨newCall s l, by simp, ?_, ?_, le_refl _, ?_⟩
  · unfold newCall
    split <;> rfl
  · unfold newCall
    split <;> rfl
  · intro r hr
    unfold newCall at hr
    cases hf : fresh s.cache s.now with
    | none =>
      rw [hf] at hr
      cases hr
    | some c =>
      rw [hf] at hr
      cases hr
      obtain ⟨hcache, hlt⟩ := fresh_some hf
      obtain ⟨-, k, hd⟩ := h c hcache
      have hst' : step s (.call l) = some { s with calls := s.calls ++ [newCall s l] } := rfl
      exact ⟨k, s.filledFrom, c.setAt, hd.step hst', hfresh (by rw [hf]; rfl), by omega⟩

end Conductor.Sessions.Provenance
