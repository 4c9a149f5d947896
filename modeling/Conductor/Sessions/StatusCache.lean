import Conductor.Sessions.Schedule

/-! # One cache for every list of sessions

The cache of `refinedStatusFor` does not know which list it was filled for.
Where every call that finds it fresh has the targets of that list, a returned
map answers for exactly the list of its call. -/
namespace Conductor.Sessions.StatusCache
open Conductor.Lib.Runs Conductor.Js.Text Conductor.Js.Values Conductor.Sessions.Types
open Conductor.Sessions.RefinedStatus Conductor.Sessions.Schedule

variable {start : State}

/-- The returned map has an entry for every pid of the list of the call and for
no other, and every status in it comes from reads of that pid's transcript that
are younger than the cache's lifetime and the duration of the derivation. -/
structure Answers (start : State) (es : List Event) (c : Call) (r : Returned) : Prop where
  pids : ∀ pid, (r.statuses.get? pid).isSome = true ↔ pid ∈ c.sessions.map (·.pid)
  statuses : ∀ pid status, r.statuses.get? pid = some status →
    ∃ o began ended, owner c.sessions pid = some o ∧
      Derived start es began ended o status ∧
      (∃ (u : State) (k : Nat) (d : Call), Visited step start es u ∧ u.calls[k]? = some d ∧
        d.startedAt = began ∧ d.returned = some ⟨r.statuses, ended⟩) ∧
      ended ≤ r.time ∧ r.time - began < CACHE_TTL_MS + (ended - began)

/-! ## Maps against lists -/

theorem owner_cons (s : LocalSession) (l : List LocalSession) (pid : Int) :
    owner (s :: l) pid = (owner l pid).or (if s.pid = pid then some s else none) := by
  unfold owner
  rw [List.reverse_cons, List.find?_append]
  by_cases h : s.pid = pid
  · simp [h]
  · simp [h]

theorem owner_isSome_iff {l : List LocalSession} {pid : Int} :
    (owner l pid).isSome = true ↔ pid ∈ l.map (·.pid) := by
  unfold owner
  rw [List.find?_isSome]
  simp

/-- A map of pairs over a list finds what belongs to the owner of the pid. -/
theorem get?_rel {α : Type} {R : LocalSession → α → Prop} {l : List LocalSession} {m : PidMap α}
    (h : List.Forall₂ (fun o p => p.1 = o.pid ∧ R o p.2) l m) (pid : Int) :
    Option.Rel R (owner l pid) (m.get? pid) := by
  induction h with
  | nil => exact .none
  | @cons o p l m hp _ ih =>
    obtain ⟨key, w⟩ := p
    obtain ⟨rfl, hR⟩ := hp
    have hm : PidMap.get? ((o.pid, w) :: m) pid =
        (PidMap.get? m pid).or (if o.pid = pid then some w else none) := by
      rw [← List.singleton_append, PidMap.get?_append, ← List.nil_append [(o.pid, w)], PidMap.get?_snoc]
      simp [PidMap.get?_nil, eq_comm]
    rw [owner_cons, hm]
    generalize owner l pid = x, PidMap.get? m pid = y at ih
    cases ih with
    | some hR' => exact .some hR'
    | none =>
      by_cases hk : o.pid = pid
      · simp only [hk, if_true, Option.none_or]
        exact .some hR
      · simp only [hk, if_false, Option.none_or]
        exact .none

theorem derived_congr {es : List Event} {lo hi : Int} {o o' : LocalSession} {status : RefinedStatus}
    (h : Derived start es lo hi o status) (ht : transcriptOf o' = transcriptOf o) :
    Derived start es lo hi o' status := by
  unfold Derived at h ⊢
  rw [ht]
  exact h

theorem owner_of_sameTargets {l l' : List LocalSession} (h : SameTargets l l') {pid : Int}
    {o' : LocalSession} (ho : owner l' pid = some o') :
    ∃ o, owner l pid = some o ∧ transcriptOf o = transcriptOf o' := by
  have hp := h pid
  rw [ho, Option.map_some] at hp
  exact Option.map_eq_some_iff.mp hp

theorem isSome_of_sameTargets {l l' : List LocalSession} (h : SameTargets l l') (pid : Int) :
    (owner l pid).isSome = (owner l' pid).isSome := by
  have hp := congrArg Option.isSome (h pid)
  rwa [Option.isSome_map, Option.isSome_map] at hp

/-- Every status that a derivation returned, with the session it was derived for. -/
theorem derivation_get? {es : List Event} {l : List LocalSession} {began ended : Int}
    {m : PidMap RefinedStatus} (h : Derivation start es l began ended m) {pid : Int}
    {status : RefinedStatus} (hget : m.get? pid = some status) :
    ∃ o, owner l pid = some o ∧ Derived start es began ended o status := by
  have hrel := get?_rel h.pairs pid
  rw [hget] at hrel
  generalize owner l pid = x at hrel
  cases hrel with
  | some hder => exact ⟨_, rfl, hder⟩

theorem derivation_isSome {es : List Event} {l : List LocalSession} {began ended : Int}
    {m : PidMap RefinedStatus} (h : Derivation start es l began ended m) (pid : Int) :
    (m.get? pid).isSome = (owner l pid).isSome := by
  have hrel := get?_rel h.pairs pid
  generalize owner l pid = x, PidMap.get? m pid = y at hrel
  cases hrel with
  | some _ => rfl
  | none => rfl

theorem answers_of_derivation {es : List Event} {c : Call} {r : Returned}
    (h : FromDerivation True start es c.sessions r) : Answers start es c r := by
  obtain ⟨l', began, ended, hd, hle, hlt, hsame⟩ := h
  have hsame := hsame trivial
  refine ⟨fun pid => ?_, fun pid status hget => ?_⟩
  · rw [derivation_isSome hd, ← isSome_of_sameTargets hsame, owner_isSome_iff]
  · obtain ⟨o', ho', hder⟩ := derivation_get? hd hget
    obtain ⟨o, ho, ht⟩ := owner_of_sameTargets hsame ho'
    obtain ⟨u, k, d, hu, hk, -, hb, hr⟩ := hd.call
    exact ⟨o, began, ended, ho, derived_congr hder ht, ⟨u, k, d, hu, hk, hb, hr⟩, hle, by omega⟩

/-- In every state of a run whose calls are consistent with the cache, every
call that has returned is answered. -/
theorem consistent_calls_answered {now : Int} {disk : Disk} {es : List Event} {s : State}
    (h : exec step (init now disk) es = some s)
    (hc : Along step Consistent (init now disk) es) :
    ∀ past t, past <+: es → exec step (init now disk) past = some t →
      ∀ (k : Nat) (c : Call) (r : Returned), t.calls[k]? = some c → c.returned = some r →
        Answers (init now disk) past c r := by
  intro past t hp ht k c r hk hr
  obtain ⟨rest, rfl⟩ := hp
  have hinv : Inv True (init now disk) past t := inv_run ht fun _ => (along_append.mp hc).1
  exact answers_of_derivation ((hinv.calls k c hk).returned r hr)

/-! ## Two lists within the lifetime of the cache -/

/-- A call over one list derives its statuses. -/
def firstCall : List Event :=
  [.call [sessionA], .read 0 0, .read 0 0, .read 0 0, .read 0 0, .settle 0]

/-- Half a second later another call starts. -/
def twoCalls (second : List LocalSession) : List Event := firstCall ++ [.tick 500, .call second]

theorem repeated_call_answered :
    ∃ s, exec step (init 0 fun _ => none) (twoCalls [sessionA]) = some s ∧
      ∀ past t, past <+: twoCalls [sessionA] →
        exec step (init 0 fun _ => none) past = some t →
        ∀ (k : Nat) (c : Call) (r : Returned), t.calls[k]? = some c → c.returned = some r →
          Answers (init 0 fun _ => none) past c r := by
  have hfirst : Along step Consistent (init 0 fun _ => none) firstCall :=
    ⟨fun hf => (by cases hf), fun _ _ => ⟨trivial, fun _ _ => ⟨trivial, fun _ _ => ⟨trivial,
      fun _ _ => ⟨trivial, fun _ _ => ⟨trivial, fun _ _ => trivial⟩⟩⟩⟩⟩⟩
  have hboth : Along step Consistent (init 0 fun _ => none) (twoCalls [sessionA]) := by
    refine along_append.mpr ⟨hfirst, fun t ht => ⟨trivial, fun u hu => ⟨?_, fun _ _ => trivial⟩⟩⟩
    cases ht
    cases hu
    exact fun _ => sameTargets_refl _
  exact ⟨_, rfl, consistent_calls_answered rfl hboth⟩

/-- The second call asks for the aider session and gets the map of the first. -/
theorem stale_list_answered :
    ∃ s c r, exec step (init 0 fun _ => none) (twoCalls [aiderSession]) = some s ∧
      s.calls[1]? = some c ∧ c.sessions = [aiderSession] ∧ c.returned = some r ∧
      r.statuses.get? 100 = some .idle ∧ r.statuses.get? 200 = none ∧
      ¬ Answers (init 0 fun _ => none) (twoCalls [aiderSession]) c r := by
  refine ⟨_, _, _, rfl, rfl, rfl, rfl, by decide, by decide, fun h => ?_⟩
  have hmem := (h.pids 200).mpr (by decide)
  revert hmem
  decide

end Conductor.Sessions.StatusCache
