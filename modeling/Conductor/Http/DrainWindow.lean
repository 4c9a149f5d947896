import Conductor.Http.Shutdown

/-! # What the drain is told

The first call of `gracefulClose` listens to the responses that are in flight
when it is made. A response that comes later, over a connection that is open
already, is in the set like the others, but nobody waits for it. -/
namespace Conductor.Http.DrainWindow
open Conductor.Lib.Runs Conductor.Http.Shutdown

variable {s t u : State} {es : List Event}

/-! ## The report and the moment -/

/-- What a call will report as `drained`, once that is settled. -/
def verdict : Call → Option Bool
  | .draining _ _ => none
  | .drainedTo _ drained => some drained
  | .closing _ drained => some drained
  | .resolved report => some report.drained

/-- Nothing is in flight at some moment of the run from `u`, before the drain timer fires. -/
def EmptyInTime (u : State) (es : List Event) : Prop :=
  ∃ past t, past <+: es ∧ .drainTimer 0 ∉ past ∧ exec step u past = some t ∧ t.inflight = []

/-- After the run `es` from `u` to `t`, the first call reports the set as it was,
and connections were closed by force only where it was never empty. -/
structure Honest (u : State) (es : List Event) (t : State) : Prop where
  drained : (∃ c, t.calls[0]? = some c ∧ verdict c = some true) ↔ EmptyInTime u es
  forced : t.forced = true → ¬ EmptyInTime u es

/-- While the first call waits, no response that came after it is the last to close. -/
def NoneLast (s : State) : Event → Prop
  | .responseClosed r => ∀ n pending, s.calls[0]? = some (.draining n pending) → r ∉ pending →
      s.inflight.erase r ≠ []
  | _ => True

/-! ## The first call -/

theorem EmptyInTime.mono (h : EmptyInTime u es) (fs : List Event) : EmptyInTime u (es ++ fs) := by
  obtain ⟨past, t, hp, htimer, ht, hempty⟩ := h
  exact ⟨past, t, hp.trans (List.prefix_append es fs), htimer, ht, hempty⟩

/-- One event more makes the set empty in time only if it is so after the event. -/
theorem EmptyInTime.snoc {e : Event} (h : EmptyInTime u (es ++ [e])) (ht : exec step u (es ++ [e]) = some t) :
    EmptyInTime u es ∨ (t.inflight = [] ∧ .drainTimer 0 ∉ es ++ [e]) := by
  obtain ⟨past, v, hp, htimer, hv, hempty⟩ := h
  rcases List.prefix_concat_iff.mp hp with rfl | hp
  · cases hv.symm.trans ht
    exact .inr ⟨hempty, htimer⟩
  · exact .inl ⟨past, v, hp, htimer, hv, hempty⟩

/-- The phases of the first call, and what they say of the run so far. -/
inductive First (u : State) (es : List Event) (t : State) : Call → Prop
  | draining {n : Nat} {pending : List Nat} (busy : t.inflight ≠ []) (never : ¬ EmptyInTime u es)
      (timer : .drainTimer 0 ∉ es) (gentle : t.forced = false) : First u es t (.draining n pending)
  | drained {c : Call} (settled : verdict c = some true) (empty : EmptyInTime u es)
      (gentle : t.forced = false) : First u es t c
  | expired {c : Call} (settled : verdict c = some false) (never : ¬ EmptyInTime u es)
      (timer : .drainTimer 0 ∈ es) : First u es t c

/-- The first call is made, and those after it have returned at once. -/
structure Made (u : State) (es : List Event) (t : State) : Prop where
  closed : t.closed = true
  first : ∃ c cs, t.calls = c :: cs ∧ First u es t c ∧ ∀ d ∈ cs, ∃ r, d = .resolved r

theorem Made.honest (h : Made u es t) : Honest u es t := by
  obtain ⟨c, cs, hcalls, hfirst, -⟩ := h.first
  have hc : t.calls[0]? = some c := by rw [hcalls]; rfl
  constructor
  · rw [hc]
    cases hfirst with
    | draining busy never timer gentle =>
      refine ⟨fun hv => ?_, fun he => absurd he never⟩
      obtain ⟨d, hd, hv⟩ := hv
      cases hd
      cases hv
    | drained settled empty gentle => exact ⟨fun _ => empty, fun _ => ⟨c, rfl, settled⟩⟩
    | expired settled never timer =>
      refine ⟨fun hv => ?_, fun he => absurd he never⟩
      obtain ⟨d, hd, hv⟩ := hv
      cases hd
      cases settled.symm.trans hv
  · intro hforced
    cases hfirst with
    | draining busy never timer gentle => exact never
    | drained settled empty gentle => cases gentle.symm.trans hforced
    | expired settled never timer => exact never

/-- What a phase says stays true of a longer run. -/
theorem First.later {c : Call} {e : Event} (h : First u es s c) (ht : exec step u (es ++ [e]) = some t)
    (he : e ≠ .drainTimer 0) (hbusy : s.inflight ≠ [] → t.inflight ≠ []) (hforced : t.forced = s.forced) :
    First u (es ++ [e]) t c := by
  cases h with
  | draining busy never timer gentle =>
    have hlater : t.inflight ≠ [] := hbusy busy
    refine .draining hlater (fun hempty => ?_) (by simp [timer, he.symm]) (hforced.trans gentle)
    rcases hempty.snoc ht with hempty | ⟨hnone, -⟩
    · exact never hempty
    · exact hlater hnone
  | drained settled empty gentle => exact .drained settled (empty.mono [e]) (hforced.trans gentle)
  | expired settled never timer =>
    refine .expired settled (fun hempty => ?_) (by simp [timer])
    rcases hempty.snoc ht with hempty | ⟨-, htimer⟩
    · exact never hempty
    · exact htimer (by simp [timer])

/-! ## One event -/

/-- The calls are left alone, and a set in use stays in use. -/
structure Apart (s t : State) : Prop where
  closed : t.closed = s.closed
  calls : t.calls = s.calls
  forced : t.forced = s.forced
  busy : s.inflight ≠ [] → t.inflight ≠ []

/-- What an event can do to the calls. -/
theorem step_cases {e : Event} (hst : step s e = some t) :
    ((∀ k, e ≠ .drainTimer k) ∧ (Apart s t ∨ ∃ v, Apart s v ∧ t = gracefulClose v)) ∨
      (∃ r, e = .responseClosed r) ∨ (∃ k, e = .drainTimer k) ∨ ∃ k, e = .resume k := by
  cases e with
  | clock ms =>
    cases hst
    exact .inl ⟨by simp, .inl ⟨rfl, rfl, rfl, id⟩⟩
  | sample =>
    simp only [Shutdown.step] at hst
    split at hst
    · cases hst
      exact .inl ⟨by simp, .inl ⟨rfl, rfl, rfl, id⟩⟩
    · cases hst
  | connect =>
    simp only [Shutdown.step] at hst
    split at hst
    · cases hst
      exact .inl ⟨by simp, .inl ⟨rfl, rfl, rfl, id⟩⟩
    · cases hst
  | request =>
    simp only [Shutdown.step] at hst
    split at hst
    · cases hst
    · cases hst
      exact .inl ⟨by simp, .inl ⟨rfl, rfl, rfl, fun _ => by simp⟩⟩
  | upgrade =>
    simp only [Shutdown.step] at hst
    split at hst
    · cases hst
      exact .inl ⟨by simp, .inl ⟨rfl, rfl, rfl, id⟩⟩
    · cases hst
  | responseClosed r => exact .inr (.inl ⟨r, rfl⟩)
  | disconnect =>
    simp only [Shutdown.step] at hst
    split at hst
    · cases hst
    · cases hst
      exact .inl ⟨by simp, .inl ⟨rfl, rfl, rfl, id⟩⟩
  | clientGone =>
    simp only [Shutdown.step] at hst
    split at hst
    · cases hst
    · cases hst
      exact .inl ⟨by simp, .inl ⟨rfl, rfl, rfl, id⟩⟩
  | drainTimer k => exact .inr (.inr (.inl ⟨k, rfl⟩))
  | resume k => exact .inr (.inr (.inr ⟨k, rfl⟩))
  | gracefulClose =>
    cases hst
    exact .inl ⟨by simp, .inr ⟨s, ⟨rfl, rfl, rfl, id⟩, rfl⟩⟩
  | close =>
    cases hst
    refine .inl ⟨by simp, .inl ?_⟩
    unfold close
    split
    · exact ⟨rfl, rfl, rfl, id⟩
    · exact ⟨rfl, rfl, rfl, id⟩
  | resumeWs k =>
    simp only [Shutdown.step, resumeWsStep] at hst
    split at hst
    · split at hst
      · cases hst
        refine .inl ⟨by simp, .inr ⟨_, ?_, rfl⟩⟩
        exact ⟨rfl, rfl, rfl, id⟩
      · cases hst
    · cases hst
  | resumeHttp k =>
    simp only [Shutdown.step, resumeHttpStep] at hst
    split at hst
    · split at hst
      · cases hst
        exact .inl ⟨by simp, .inl ⟨rfl, rfl, rfl, id⟩⟩
      · cases hst
    · cases hst

theorem Made.apart {e : Event} (h : Made u es s) (ha : Apart s t)
    (ht : exec step u (es ++ [e]) = some t) (he : ∀ k, e ≠ .drainTimer k) : Made u (es ++ [e]) t := by
  obtain ⟨c, cs, hcalls, hfirst, hcs⟩ := h.first
  exact ⟨ha.closed.trans h.closed, c, cs, ha.calls.trans hcalls, hfirst.later ht (he 0) ha.busy ha.forced, hcs⟩

/-- A later call returns at once. -/
theorem Made.again {e : Event} {v : State} (h : Made u es s) (ha : Apart s v)
    (ht : exec step u (es ++ [e]) = some (gracefulClose v)) (he : ∀ k, e ≠ .drainTimer k) :
    Made u (es ++ [e]) (gracefulClose v) := by
  have hv : v.closed = true := ha.closed.trans h.closed
  obtain ⟨c, cs, hcalls, hfirst, hcs⟩ := h.first
  rw [gracefulClose_late hv] at ht ⊢
  refine ⟨hv, c, cs ++ [.resolved (lateReport v)], ?_, hfirst.later ht (he 0) ha.busy ha.forced, fun d hd => ?_⟩
  · rw [ha.calls, hcalls]
    rfl
  · rcases List.mem_append.mp hd with hd | hd
    · exact hcs d hd
    · exact ⟨_, List.mem_singleton.mp hd⟩

/-- The call that has not returned is the first one. -/
theorem Made.pending {k : Nat} {d : Call} (h : Made u es s) (hk : s.calls[k]? = some d)
    (hd : ∀ r, d ≠ .resolved r) : k = 0 ∧ ∃ cs, s.calls = d :: cs ∧ First u es s d ∧
      ∀ d' ∈ cs, ∃ r, d' = .resolved r := by
  obtain ⟨c, cs, hcalls, hfirst, hcs⟩ := h.first
  rw [hcalls] at hk
  cases k with
  | zero =>
    cases hk
    exact ⟨rfl, cs, hcalls, hfirst, hcs⟩
  | succ k =>
    obtain ⟨r, hr⟩ := hcs d (List.mem_of_getElem? hk)
    exact absurd hr (hd r)

/-- A settled call moves on, and keeps its verdict. -/
theorem First.moves {c d : Call} {b : Bool} {e : Event} (h : First u es s d) (hd : verdict d = some b)
    (hc : verdict c = some b) (ht : exec step u (es ++ [e]) = some t)
    (hforced : b = true → t.forced = s.forced) : First u (es ++ [e]) t c := by
  cases h with
  | draining busy never timer gentle => cases hd
  | drained settled empty gentle =>
    cases hd.symm.trans settled
    exact .drained hc (empty.mono [e]) ((hforced rfl).trans gentle)
  | expired settled never timer =>
    cases hd.symm.trans settled
    refine .expired hc (fun hempty => ?_) (by simp [timer])
    rcases hempty.snoc ht with hempty | ⟨-, htimer⟩
    · exact never hempty
    · exact htimer (by simp [timer])

theorem Made.resume {k : Nat} (h : Made u es s) (hst : resumeStep s k = some t)
    (ht : exec step u (es ++ [.resume k]) = some t) : Made u (es ++ [.resume k]) t := by
  unfold resumeStep at hst
  split at hst
  · rename_i n drained hk
    cases hst
    obtain ⟨rfl, cs, hcalls, hfirst, hcs⟩ := h.pending hk (by simp)
    refine ⟨h.closed, .closing n drained, cs, by rw [hcalls]; rfl, hfirst.moves rfl rfl ht ?_, hcs⟩
    rintro rfl
    exact Bool.or_false s.forced
  · rename_i n drained hk
    split at hst
    · cases hst
      obtain ⟨rfl, cs, hcalls, hfirst, hcs⟩ := h.pending hk (by simp)
      exact ⟨h.closed, _, cs, by rw [hcalls]; rfl, hfirst.moves rfl rfl ht fun _ => rfl, hcs⟩
    · cases hst
  · cases hst

theorem Made.drainTimer {k : Nat} (h : Made u es s) (hst : step s (.drainTimer k) = some t)
    (ht : exec step u (es ++ [.drainTimer k]) = some t) : Made u (es ++ [.drainTimer k]) t := by
  simp only [Shutdown.step] at hst
  split at hst
  · rename_i n pending hk
    cases hst
    obtain ⟨rfl, cs, hcalls, hfirst, hcs⟩ := h.pending hk (by simp)
    refine ⟨h.closed, .drainedTo n false, cs, by rw [hcalls]; rfl, .expired rfl (fun hempty => ?_) (by simp),
      hcs⟩
    rcases hempty.snoc ht with hempty | ⟨-, htimer⟩
    · cases hfirst with
      | draining busy never timer gentle => exact never hempty
      | drained settled empty gentle => cases settled
      | expired settled never timer => cases settled
    · exact htimer (by simp)
  · cases hst

/-- While the first call waits, the set becomes empty in time with the last response
it waits for, or not at all. -/
theorem Made.responseClosed {r : Nat} (h : Made u es s) (hst : step s (.responseClosed r) = some t)
    (ht : exec step u (es ++ [.responseClosed r]) = some t) (hlast : NoneLast s (.responseClosed r)) :
    Made u (es ++ [.responseClosed r]) t := by
  simp only [Shutdown.step] at hst
  split at hst
  · cases hst
    obtain ⟨c, cs, hcalls, hfirst, hcs⟩ := h.first
    have hlate : ∀ d ∈ cs.map (check r (s.inflight.erase r)), ∃ r, d = .resolved r := by
      intro d hd
      obtain ⟨d', hd', rfl⟩ := List.mem_map.mp hd
      obtain ⟨report, rfl⟩ := hcs d' hd'
      exact ⟨report, rfl⟩
    refine ⟨h.closed, check r (s.inflight.erase r) c, _, by rw [hcalls]; rfl, ?_, hlate⟩
    cases c with
    | draining n pending =>
      by_cases hempty : s.inflight.erase r = []
      · have hmem : r ∈ pending := by
          by_contra hr
          exact hlast n pending (by rw [hcalls]; rfl) hr hempty
        cases hfirst with
        | draining busy never timer gentle =>
          rw [check, if_pos ⟨hmem, hempty⟩]
          exact .drained rfl ⟨_, _, List.prefix_refl _, by simp [timer], ht, hempty⟩ gentle
        | drained settled empty gentle => cases settled
        | expired settled never timer => cases settled
      · rw [check, if_neg fun hr => hempty hr.2]
        exact hfirst.later ht (by simp) (fun _ => hempty) rfl
    | drainedTo n drained => exact hfirst.moves rfl rfl ht fun _ => rfl
    | closing n drained => exact hfirst.moves rfl rfl ht fun _ => rfl
    | resolved report => exact hfirst.moves rfl rfl ht fun _ => rfl
  · cases hst

theorem Made.keep {e : Event} (h : Made u es s) (hst : step s e = some t)
    (ht : exec step u (es ++ [e]) = some t) (hlast : NoneLast s e) : Made u (es ++ [e]) t := by
  rcases step_cases hst with ⟨he, ha | ⟨v, hv, rfl⟩⟩ | ⟨r, rfl⟩ | ⟨k, rfl⟩ | ⟨k, rfl⟩
  · exact h.apart ha ht he
  · exact h.again hv ht he
  · exact h.responseClosed hst ht hlast
  · exact h.drainTimer hst ht
  · exact h.resume hst ht

/-- Once a late response has closed last, the set has been empty and the call still waits. -/
theorem Made.breaks {e : Event} (h : Made u es s) (hst : step s e = some t)
    (ht : exec step u (es ++ [e]) = some t) (hlast : ¬ NoneLast s e) : ¬ Honest u (es ++ [e]) t := by
  intro hhonest
  cases e with
  | responseClosed r =>
    simp only [NoneLast, not_forall, not_not] at hlast
    obtain ⟨n, pending, hcall, hr, hempty⟩ := hlast
    obtain ⟨-, cs, hcalls, hfirst, -⟩ := h.pending hcall (by simp)
    simp only [Shutdown.step] at hst
    split at hst
    · cases hst
      cases hfirst with
      | draining busy never timer gentle =>
        obtain ⟨c, hc, hverdict⟩ := hhonest.drained.mpr
          ⟨_, _, List.prefix_refl _, by simp [timer], ht, hempty⟩
        rw [hcalls, List.map_cons, check, if_neg fun hboth => hr hboth.1] at hc
        cases hc
        cases hverdict
      | drained settled empty gentle => cases settled
      | expired settled never timer => cases settled
    · cases hst
  | _ => exact hlast trivial

/-! ## The whole run -/

/-- Before the first call there is none, and nothing was closed by force. -/
def Unasked (s : State) : Prop := s.closed = false → s.calls = [] ∧ s.forced = false

theorem Unasked.keep {e : Event} (h : Unasked s) (hst : step s e = some t) : Unasked t := by
  rcases step_cases hst with ⟨-, ha | ⟨v, hv, rfl⟩⟩ | ⟨r, rfl⟩ | ⟨k, rfl⟩ | ⟨k, rfl⟩
  · intro ht
    rw [ha.calls, ha.forced]
    exact h (ha.closed.symm.trans ht)
  · intro ht
    unfold gracefulClose at ht
    split at ht
    · rename_i hclosed
      cases hclosed.symm.trans ht
    · cases ht
  · simp only [Shutdown.step] at hst
    split at hst
    · cases hst
      intro ht
      obtain ⟨hcalls, hforced⟩ := h ht
      exact ⟨by simp [hcalls], hforced⟩
    · cases hst
  · simp only [Shutdown.step] at hst
    split at hst
    · rename_i hk
      cases hst
      intro ht
      rw [(h ht).1] at hk
      cases hk
    · cases hst
  · simp only [Shutdown.step, resumeStep] at hst
    split at hst
    · rename_i hk
      cases hst
      intro ht
      rw [(h ht).1] at hk
      cases hk
    · rename_i hk
      split at hst
      · cases hst
        intro ht
        rw [(h ht).1] at hk
        cases hk
      · cases hst
    · cases hst

/-- The event that makes the first call. -/
theorem made_of_first {e : Event} (h : Unasked s) (hst : step s e = some u) (hopen : s.closed = false)
    (hclosed : u.closed = true) : Made u [] u := by
  obtain ⟨hcalls, hforced⟩ := h hopen
  rcases step_cases hst with ⟨-, ha | ⟨v, hv, rfl⟩⟩ | ⟨r, rfl⟩ | ⟨k, rfl⟩ | ⟨k, rfl⟩
  · cases (ha.closed.trans hopen).symm.trans hclosed
  · have hfirst := gracefulClose_first (hv.closed.trans hopen)
    rw [hv.calls, hcalls, List.nil_append] at hfirst
    refine ⟨hclosed, _, [], by rw [hfirst], ?_, by simp⟩
    have hgentle : (gracefulClose v).forced = false := by
      rw [hfirst]
      exact hv.forced.trans hforced
    have hinflight : (gracefulClose v).inflight = v.inflight := by rw [hfirst]
    split
    · rename_i hempty
      exact .drained rfl ⟨[], _, List.prefix_refl _, by simp, rfl, hinflight.trans hempty⟩ hgentle
    · rename_i hbusy
      refine .draining (by rwa [hinflight]) (fun hempty => ?_) (by simp) hgentle
      obtain ⟨past, w, hp, -, hw, hnone⟩ := hempty
      cases List.prefix_nil.mp hp
      cases hw
      exact hbusy (hinflight.symm.trans hnone)
  · simp only [Shutdown.step] at hst
    split at hst
    · cases hst
      cases hopen.symm.trans hclosed
    · cases hst
  · simp only [Shutdown.step, hcalls] at hst
    cases hst
  · simp only [Shutdown.step, resumeStep, hcalls] at hst
    cases hst

/-- From the first call on, in every run, the call reports a drained server exactly
when the set was empty in time and force is used only when it was not, as long as
no response that came after the call closes as the last one while the call waits;
the first that does breaks it. -/
theorem drained_iff {now : Int} {store : Bool} {before : List Event} {call : Event}
    (hs : exec step (init now store) before = some s) (hopen : s.closed = false)
    (hcall : step s call = some u) (hclosed : u.closed = true) (ht : exec step u es = some t) :
    (∀ past v, past <+: es → exec step u past = some v → Honest u past v) ↔ Along step NoneLast u es := by
  have hunasked : Unasked s := exec_invariant (fun s e t hst h => Unasked.keep h hst) hs
    fun _ => ⟨rfl, rfl⟩
  exact history_iff_along (I := Made u) (made_of_first hunasked hcall hopen hclosed)
    (fun past s e t hs hst hlast h => h.keep hst (exec_snoc_of hs hst) hlast) (fun past s h => h.honest)
    (fun past s e t hs hst h hlast => h.breaks hst (exec_snoc_of hs hst) hlast) ht

/-- Two connections, and a request on one of them. -/
def oneInFlight : List Event := [.connect, .connect, .request]

/-- The response closes in time. -/
def drainedRun : List Event := [.responseClosed 0, .resume 0, .disconnect, .disconnect, .resume 0]

theorem drained_run : ∃ s u t, exec step (init 0 false) oneInFlight = some s ∧
    step s .gracefulClose = some u ∧ exec step u drainedRun = some t ∧
    ∀ past v, past <+: drainedRun → exec step u past = some v → Honest u past v := by
  refine ⟨_, _, _, rfl, rfl, rfl, ?_⟩
  refine (@drained_iff _ _ _ _ 0 false oneInFlight .gracefulClose rfl rfl rfl rfl rfl).mpr ?_
  refine along_cons_of (fun n pending hcall hr => ?_) rfl ?_
  · cases hcall
    exact absurd List.mem_cons_self hr
  · exact along_of_forall (by simp [NoneLast]) _

/-- A second request comes on the other connection, and its response closes last. -/
def lateRun : List Event := [.request, .responseClosed 0, .responseClosed 1, .drainTimer 0, .resume 0]

/-- The set was empty before the timer fired, and the call reports the opposite and
closes the connections by force. -/
theorem late_response_hides : ∃ s u t, exec step (init 0 false) oneInFlight = some s ∧
    step s .gracefulClose = some u ∧ exec step u lateRun = some t ∧ EmptyInTime u lateRun ∧
    t.calls = [.closing 1 false] ∧ t.forced = true ∧ ¬ Honest u lateRun t := by
  have hempty : ∀ u, exec step (init 0 false) (oneInFlight ++ [.gracefulClose]) = some u →
      EmptyInTime u lateRun := by
    intro u hu
    cases hu
    exact ⟨[.request, .responseClosed 0, .responseClosed 1], _, ⟨[.drainTimer 0, .resume 0], rfl⟩,
      by simp, rfl, rfl⟩
  refine ⟨_, _, _, rfl, rfl, rfl, hempty _ rfl, rfl, rfl, fun h => ?_⟩
  exact h.forced rfl (hempty _ rfl)

end Conductor.Http.DrainWindow
