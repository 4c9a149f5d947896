import Mathlib.Algebra.BigOperators.Group.Finset.Basic
import Mathlib.Algebra.Order.BigOperators.Group.Finset
import Mathlib.Data.Fintype.Card
import Mathlib.Order.Interval.Finset.Nat
import Conductor.Lib.Runs

/-! # Daemons that look for a port at the same time

`pickPort` binds a port to see that it is free and gives it back; the server binds
it again later. The daemons are processes of their own, and each bind and each
release is one step of the system. A bind fails only where the port is in use; the
other errors, which `tryPort` rejects with, are left out. -/
namespace Conductor.Http.PickPort
open Conductor.Lib.Runs

/-- `scanFrom` and `scanTo`. -/
structure PortRange where
  start : Nat
  max : Nat
  start_pos : 0 < start
  max_le : max ≤ 65535

def DEFAULT_PORT : Nat := 32140
def PORT_SCAN_MAX : Nat := 32199

def defaultRange : PortRange := ⟨DEFAULT_PORT, PORT_SCAN_MAX, by decide, by decide⟩

inductive StartError where
  /-- `no free port in range ${start}..${max}`. -/
  | noFreePort (start max : Nat)
  /-- `EADDRINUSE`. -/
  | addressInUse (port : Nat)
  deriving DecidableEq

/-- How far one `startHttpServer` is. -/
inductive Phase where
  /-- `tryPort(p)`: the probe is going to listen. -/
  | trying (p : Nat)
  /-- The probe listens on `p` and is going to close. -/
  | probing (p : Nat)
  /-- `pickPort` has resolved, or the port was given: the server is going to listen on `p`. -/
  | picked (p : Nat)
  /-- Resolved, with the server on `p`. -/
  | bound (p : Nat)
  | rejected (error : StartError)
  deriving DecidableEq

def tryPort (r : PortRange) (p : Nat) : Phase :=
  if r.max < p then .rejected (.noFreePort r.start r.max) else .trying p

/-- The phase that a start with `opts.port` begins in. -/
def startHttpServer (r : PortRange) : Option Nat → Phase
  | some port => .picked port
  | none => tryPort r r.start

inductive Event (ι : Type) where
  | probe (i : ι)
  | close (i : ι)
  | listen (i : ι)
  deriving DecidableEq

def Event.daemon {ι : Type} : Event ι → ι
  | .probe i | .close i | .listen i => i

section
variable {ι : Type}

/-- No other program, no probe and no server is on the port. -/
def Free (busy : Nat → Bool) (s : ι → Phase) (p : Nat) : Prop :=
  busy p = false ∧ ∀ j, s j ≠ .probing p ∧ s j ≠ .bound p

instance [Fintype ι] (busy : Nat → Bool) (s : ι → Phase) (p : Nat) : Decidable (Free busy s p) :=
  inferInstanceAs (Decidable (_ ∧ _))

/-- One step of one daemon. The ports that other programs are on stay the same. -/
def step [Fintype ι] [DecidableEq ι] (r : PortRange) (busy : Nat → Bool) (s : ι → Phase) :
    Event ι → Option (ι → Phase)
  | .probe i => match s i with
    | .trying p => some (Function.update s i (if Free busy s p then .probing p else tryPort r (p + 1)))
    | _ => none
  | .close i => match s i with
    | .probing p => some (Function.update s i (.picked p))
    | _ => none
  | .listen i => match s i with
    | .picked p =>
      some (Function.update s i (if Free busy s p then .bound p else .rejected (.addressInUse p)))
    | _ => none

/-- All daemons are started without a port. -/
def initial (ι : Type) (r : PortRange) : ι → Phase := fun _ => startHttpServer r none

end

variable {ι : Type} {r : PortRange} {busy : Nat → Bool} {s t : ι → Phase} {es : List (Event ι)}

section
variable [Fintype ι] [DecidableEq ι]

/-! ## What a step can do -/

inductive Move (r : PortRange) (busy : Nat → Bool) (s : ι → Phase) : Event ι → (ι → Phase) → Prop
  | take {i : ι} {p : Nat} (trying : s i = .trying p) (free : Free busy s p) :
      Move r busy s (.probe i) (Function.update s i (.probing p))
  | skip {i : ι} {p : Nat} (trying : s i = .trying p) (used : ¬ Free busy s p) :
      Move r busy s (.probe i) (Function.update s i (tryPort r (p + 1)))
  | release {i : ι} {p : Nat} (probing : s i = .probing p) :
      Move r busy s (.close i) (Function.update s i (.picked p))
  | serve {i : ι} {p : Nat} (picked : s i = .picked p) (free : Free busy s p) :
      Move r busy s (.listen i) (Function.update s i (.bound p))
  | refuse {i : ι} {p : Nat} (picked : s i = .picked p) (used : ¬ Free busy s p) :
      Move r busy s (.listen i) (Function.update s i (.rejected (.addressInUse p)))

theorem step_move {e : Event ι} (h : step r busy s e = some t) : Move r busy s e t := by
  cases e with
  | probe i =>
    simp only [step] at h
    split at h
    · rename_i p hp
      split_ifs at h with hfree
      · cases h
        exact .take hp hfree
      · cases h
        exact .skip hp hfree
    · cases h
  | close i =>
    simp only [step] at h
    split at h
    · rename_i p hp
      cases h
      exact .release hp
    · cases h
  | listen i =>
    simp only [step] at h
    split at h
    · rename_i p hp
      split_ifs at h with hfree
      · cases h
        exact .serve hp hfree
      · cases h
        exact .refuse hp hfree
    · cases h

/-- A daemon that is not settled has a step. -/
theorem exists_step (r : PortRange) (busy : Nat → Bool) (s : ι → Phase) (i : ι) :
    (∃ p, s i = .bound p) ∨ (∃ error, s i = .rejected error) ∨
      ∃ e : Event ι, e.daemon = i ∧ (step r busy s e).isSome = true := by
  cases hi : s i with
  | trying p => exact .inr (.inr ⟨.probe i, rfl, by simp [step, hi]⟩)
  | probing p => exact .inr (.inr ⟨.close i, rfl, by simp [step, hi]⟩)
  | picked p => exact .inr (.inr ⟨.listen i, rfl, by simp [step, hi]⟩)
  | bound p => exact .inl ⟨p, rfl⟩
  | rejected error => exact .inr (.inl ⟨error, rfl⟩)

/-! ## Every run comes to an end -/

/-- How many steps a daemon can still take. -/
def remaining (r : PortRange) : Phase → Nat
  | .trying p => (r.max - p) + 3
  | .probing _ => 2
  | .picked _ => 1
  | .bound _ | .rejected _ => 0

theorem remaining_update {i : ι} {phase : Phase} (h : remaining r phase < remaining r (s i)) :
    ∑ j, remaining r (Function.update s i phase j) < ∑ j, remaining r (s j) := by
  refine Finset.sum_lt_sum (fun j _ => ?_) ⟨i, Finset.mem_univ i, by rwa [Function.update_self]⟩
  rcases eq_or_ne j i with rfl | hne
  · rw [Function.update_self]
    exact h.le
  · rw [Function.update_of_ne hne]

theorem remaining_step {e : Event ι} (h : step r busy s e = some t) :
    ∑ j, remaining r (t j) < ∑ j, remaining r (s j) := by
  cases step_move h with
  | take trying free =>
    refine remaining_update ?_
    rw [trying]
    simp only [remaining]
    omega
  | skip trying used =>
    refine remaining_update ?_
    rw [trying, tryPort]
    split_ifs
    · exact Nat.succ_pos _
    · simp only [remaining]
      omega
  | release probing =>
    refine remaining_update ?_
    rw [probing]
    exact Nat.lt_succ_self 1
  | serve picked free =>
    refine remaining_update ?_
    rw [picked]
    exact Nat.one_pos
  | refuse picked used =>
    refine remaining_update ?_
    rw [picked]
    exact Nat.one_pos

theorem length_add_remaining (h : exec (step r busy) s es = some t) :
    es.length + ∑ j, remaining r (t j) ≤ ∑ j, remaining r (s j) := by
  induction es generalizing s with
  | nil =>
    cases h
    rw [List.length_nil, Nat.zero_add]
  | cons e es ih =>
    rw [exec_cons] at h
    obtain ⟨u, hu, ht⟩ := Option.bind_eq_some_iff.mp h
    have hstep := remaining_step hu
    have hrest := ih ht
    rw [List.length_cons]
    omega

/-- Each daemon probes every port at most once, closes and listens. -/
theorem length_le (h : exec (step r busy) (initial ι r) es = some t) :
    es.length ≤ Fintype.card ι * ((r.max - r.start) + 3) := by
  have hstart : remaining r (startHttpServer r none) ≤ (r.max - r.start) + 3 := by
    unfold startHttpServer tryPort
    split_ifs
    · exact Nat.zero_le _
    · exact le_refl _
  have hsum : ∑ j, remaining r (initial ι r j) ≤ Fintype.card ι * ((r.max - r.start) + 3) := by
    refine (Finset.sum_le_sum fun j _ => hstart).trans ?_
    simp
  have hrun := length_add_remaining h
  omega

end

/-! ## Ports that are held -/

/-- The port that a start has chosen. -/
def Phase.port? : Phase → Option Nat
  | .probing p | .picked p | .bound p => some p
  | .trying _ | .rejected _ => none

/-- The ports of the range that no other program is on. -/
def freePorts (r : PortRange) (busy : Nat → Bool) : Finset Nat :=
  (Finset.Icc r.start r.max).filter fun p => busy p = false

theorem mem_freePorts {p : Nat} : p ∈ freePorts r busy ↔ (r.start ≤ p ∧ p ≤ r.max) ∧ busy p = false := by
  rw [freePorts, Finset.mem_filter, Finset.mem_Icc]

/-- A start that has chosen a port comes to no other. -/
def Chosen (p : Nat) (phase : Phase) : Prop := phase.port? = some p ∨ ∃ error, phase = .rejected error

section
variable [Fintype ι] [DecidableEq ι]

theorem chosen_step {e : Event ι} (h : step r busy s e = some t) {i : ι} {p : Nat} (hi : Chosen p (s i)) :
    Chosen p (t i) := by
  have hother : ∀ {j : ι} {phase : Phase}, (j = i → Chosen p phase) →
      Chosen p (Function.update s j phase i) := by
    intro j phase hphase
    rcases eq_or_ne i j with rfl | hne
    · rw [Function.update_self]
      exact hphase rfl
    · rw [Function.update_of_ne hne]
      exact hi
  have hnot : ∀ q, s i ≠ .trying q := by
    intro q hq
    rcases hi with hport | ⟨error, herror⟩
    · rw [hq] at hport
      cases hport
    · rw [hq] at herror
      cases herror
  have hport : ∀ {q : Nat}, (s i).port? = some q → q = p := by
    intro q hq
    rcases hi with hp | ⟨error, herror⟩
    · exact Option.some.inj (hq.symm.trans hp)
    · rw [herror] at hq
      cases hq
  cases step_move h with
  | take trying free => exact hother fun he => absurd (he ▸ trying) (hnot _)
  | skip trying used => exact hother fun he => absurd (he ▸ trying) (hnot _)
  | release probing => exact hother fun he => .inl (congrArg some (hport (by rw [← he, probing]; rfl)))
  | serve picked free => exact hother fun he => .inl (congrArg some (hport (by rw [← he, picked]; rfl)))
  | refuse picked used => exact hother fun _ => .inr ⟨_, rfl⟩

theorem chosen_run (h : exec (step r busy) s es = some t) {i : ι} {p : Nat} (hi : Chosen p (s i)) :
    Chosen p (t i) :=
  exec_invariant (I := fun s => Chosen p (s i)) (fun _ _ _ hstep hs => chosen_step hstep hs) h hi

/-- With enough ports for all, a start without one leaves some port to be found. -/
theorem exists_unheld (hroom : Fintype.card ι ≤ (freePorts r busy).card) {i : ι} (hi : (s i).port? = none) :
    ∃ q ∈ freePorts r busy, ∀ j, (s j).port? ≠ some q := by
  by_contra hall
  simp only [not_exists, not_and, not_forall, not_not, ne_eq] at hall
  have hsubset : (freePorts r busy).image some ⊆ (Finset.univ.erase i).image fun j => (s j).port? := by
    intro x hx
    obtain ⟨q, hq, rfl⟩ := Finset.mem_image.mp hx
    obtain ⟨j, hj⟩ := hall q hq
    refine Finset.mem_image.mpr ⟨j, Finset.mem_erase.mpr ⟨?_, Finset.mem_univ j⟩, hj⟩
    rintro rfl
    rw [hi] at hj
    cases hj
  have hports := Finset.card_le_card hsubset
  rw [Finset.card_image_of_injective _ (Option.some_injective Nat)] at hports
  have himage := (Finset.card_image_le (s := Finset.univ.erase i) (f := fun j => (s j).port?))
  rw [Finset.card_erase_of_mem (Finset.mem_univ i), Finset.card_univ] at himage
  have hpos : 0 < Fintype.card ι := Fintype.card_pos_iff.mpr ⟨i⟩
  omega

end

/-- What holds while every start goes well: chosen ports are free ones and differ, and
whoever is still looking has passed none that is not chosen. -/
structure Sound (r : PortRange) (busy : Nat → Bool) (s : ι → Phase) : Prop where
  trying_range : ∀ i p, s i = .trying p → r.start ≤ p ∧ p ≤ r.max
  passed : ∀ i p, s i = .trying p → ∀ q ∈ freePorts r busy, q < p → ∃ j, (s j).port? = some q
  port_free : ∀ i p, (s i).port? = some p → p ∈ freePorts r busy
  port_once : ∀ i j p, (s i).port? = some p → (s j).port? = some p → i = j
  none_rejected : ∀ i error, s i ≠ .rejected error

theorem sound_initial [Fintype ι] (hroom : Fintype.card ι ≤ (freePorts r busy).card) : Sound r busy (initial ι r) := by
  have hstart : ∀ i, initial ι r i = .trying r.start ∧ r.start ≤ r.max := by
    intro i
    have hpos : 0 < Fintype.card ι := Fintype.card_pos_iff.mpr ⟨i⟩
    obtain ⟨q, hq⟩ := Finset.card_pos.mp (hpos.trans_le hroom)
    have hrange := (mem_freePorts.mp hq).1
    exact ⟨if_neg (by omega), by omega⟩
  have hport : ∀ i p, (initial ι r i).port? ≠ some p := by
    intro i p hi
    rw [(hstart i).1] at hi
    cases hi
  refine ⟨fun i p hi => ?_, fun i p hi q hq hlt => ?_, fun i p hi => absurd hi (hport i p),
    fun i j p hi _ => absurd hi (hport i p), fun i error hi => ?_⟩
  · cases (hstart i).1.symm.trans hi
    exact ⟨le_refl _, (hstart i).2⟩
  · cases (hstart i).1.symm.trans hi
    exact absurd (mem_freePorts.mp hq).1.1 (not_le.mpr hlt)
  · cases (hstart i).1.symm.trans hi

section
variable {i : ι} {p : Nat}

theorem used_of_not_free (hbusy : busy p = false) (h : ¬ Free busy s p) :
    ∃ j, s j = .probing p ∨ s j = .bound p := by
  simp only [Free, hbusy, true_and, not_forall] at h
  obtain ⟨j, hj⟩ := h
  exact ⟨j, by rwa [not_and_or, not_ne_iff, not_ne_iff] at hj⟩

theorem port?_of_used {j : ι} (h : s j = .probing p ∨ s j = .bound p) : (s j).port? = some p := by
  rcases h with h | h
  · rw [h]
    rfl
  · rw [h]
    rfl

variable [DecidableEq ι]

/-- What the next phase of one daemon has to be like. -/
theorem Sound.update (h : Sound r busy s) {phase : Phase}
    (hkept : ∀ q, (s i).port? = some q → phase.port? = some q)
    (htrying : ∀ p, phase = .trying p → (r.start ≤ p ∧ p ≤ r.max) ∧
      ∀ q ∈ freePorts r busy, q < p → ∃ j, (s j).port? = some q)
    (hport : ∀ q, phase.port? = some q → q ∈ freePorts r busy ∧ ∀ j, (s j).port? = some q → j = i)
    (hgood : ∀ error, phase ≠ .rejected error) : Sound r busy (Function.update s i phase) := by
  have hself : Function.update s i phase i = phase := Function.update_self ..
  have hother : ∀ {j}, j ≠ i → Function.update s i phase j = s j := fun hj => Function.update_of_ne hj ..
  have hstill : ∀ {j q}, (s j).port? = some q → (Function.update s i phase j).port? = some q := by
    intro j q hj
    rcases eq_or_ne j i with rfl | hne
    · rw [hself]
      exact hkept q hj
    · rw [hother hne]
      exact hj
  refine ⟨fun j p hj => ?_, fun j p hj q hq hlt => ?_, fun j q hj => ?_, fun j k q hj hk => ?_,
    fun j error hj => ?_⟩
  · rcases eq_or_ne j i with rfl | hne
    · exact (htrying p (hself.symm.trans hj)).1
    · exact h.trying_range j p ((hother hne).symm.trans hj)
  · obtain ⟨k, hk⟩ : ∃ k, (s k).port? = some q := by
      rcases eq_or_ne j i with rfl | hne
      · exact (htrying p (hself.symm.trans hj)).2 q hq hlt
      · exact h.passed j p ((hother hne).symm.trans hj) q hq hlt
    exact ⟨k, hstill hk⟩
  · rcases eq_or_ne j i with rfl | hne
    · rw [hself] at hj
      exact (hport q hj).1
    · rw [hother hne] at hj
      exact h.port_free j q hj
  · rcases eq_or_ne j i with rfl | hji
    · rcases eq_or_ne k j with rfl | hkj
      · rfl
      · rw [hself] at hj
        rw [hother hkj] at hk
        exact ((hport q hj).2 k hk).symm
    · rw [hother hji] at hj
      rcases eq_or_ne k i with rfl | hki
      · rw [hself] at hk
        exact (hport q hk).2 j hj
      · rw [hother hki] at hk
        exact h.port_once j k q hj hk
  · rcases eq_or_ne j i with rfl | hne
    · exact hgood error (hself.symm.trans hj)
    · exact h.none_rejected j error ((hother hne).symm.trans hj)

/-- A start that has chosen its port goes on. -/
theorem Sound.keep (h : Sound r busy s) {phase : Phase} (hi : (s i).port? = some p) (hphase : phase.port? = some p) :
    Sound r busy (Function.update s i phase) := by
  refine h.update (fun q hq => ?_) (fun q hq => ?_) (fun q hq => ?_) (fun error he => ?_)
  · exact hphase.trans (hi.symm.trans hq)
  · rw [hq] at hphase
    cases hphase
  · cases hphase.symm.trans hq
    exact ⟨h.port_free i p hi, fun j hj => h.port_once j i p hj hi⟩
  · rw [he] at hphase
    cases hphase

/-- A probe takes a port that nobody has chosen. -/
theorem Sound.take (h : Sound r busy s) (hi : s i = .trying p) (hp : p ∈ freePorts r busy)
    (hfresh : ∀ j, (s j).port? ≠ some p) : Sound r busy (Function.update s i (.probing p)) := by
  refine h.update (fun q hq => ?_) (fun q hq => ?_) (fun q hq => ?_) (fun error he => ?_)
  · rw [hi] at hq
    cases hq
  · cases hq
  · cases hq
    exact ⟨hp, fun j hj => absurd hj (hfresh j)⟩
  · cases he

/-- A probe passes a port that somebody has chosen. -/
theorem Sound.pass (h : Sound r busy s) (hi : s i = .trying p) (hmax : p + 1 ≤ r.max)
    (hheld : p ∈ freePorts r busy → ∃ j, (s j).port? = some p) :
    Sound r busy (Function.update s i (.trying (p + 1))) := by
  refine h.update (fun q hq => ?_) (fun q hq => ?_) (fun q hq => ?_) (fun error he => ?_)
  · rw [hi] at hq
    cases hq
  · cases hq
    have hrange := h.trying_range i p hi
    refine ⟨⟨by omega, hmax⟩, fun q hq hlt => ?_⟩
    rcases Nat.lt_succ_iff_lt_or_eq.mp hlt with hlt | rfl
    · exact h.passed i p hi q hq hlt
    · exact hheld hq
  · cases hq
  · cases he

end

variable [Fintype ι] [DecidableEq ι]

/-- No probe gets a port that another daemon has chosen and is not on at the moment. -/
def Unchosen (busy : Nat → Bool) (s : ι → Phase) : Event ι → Prop
  | .probe i => ∀ p, s i = .trying p → Free busy s p → ∀ j, s j ≠ .picked p
  | _ => True

theorem Sound.step (hroom : Fintype.card ι ≤ (freePorts r busy).card) {e : Event ι}
    (hstep : PickPort.step r busy s e = some t) (he : Unchosen busy s e) (h : Sound r busy s) : Sound r busy t := by
  cases step_move hstep with
  | @take i p trying free =>
    have hrange := h.trying_range i p trying
    refine h.take trying (mem_freePorts.mpr ⟨hrange, free.1⟩) fun j hj => ?_
    cases hs : s j with
    | probing q =>
      rw [hs] at hj
      cases hj
      exact (free.2 j).1 hs
    | picked q =>
      rw [hs] at hj
      cases hj
      exact he p trying free j hs
    | bound q =>
      rw [hs] at hj
      cases hj
      exact (free.2 j).2 hs
    | trying q =>
      rw [hs] at hj
      cases hj
    | rejected error =>
      rw [hs] at hj
      cases hj
  | @skip i p trying used =>
    have hheld : p ∈ freePorts r busy → ∃ j, (s j).port? = some p := by
      intro hp
      obtain ⟨j, hj⟩ := used_of_not_free (mem_freePorts.mp hp).2 used
      exact ⟨j, port?_of_used hj⟩
    have hmax : p + 1 ≤ r.max := by
      obtain ⟨q, hq, hunheld⟩ := exists_unheld hroom (show (s i).port? = none by rw [trying]; rfl)
      have hrange := (mem_freePorts.mp hq).1
      -- the port that is left to be found is not among those passed
      rcases Nat.lt_trichotomy q p with hlt | rfl | hgt
      · obtain ⟨j, hj⟩ := h.passed i p trying q hq hlt
        exact absurd hj (hunheld j)
      · obtain ⟨j, hj⟩ := hheld hq
        exact absurd hj (hunheld j)
      · omega
    rw [tryPort, if_neg (not_lt.mpr hmax)]
    exact h.pass trying hmax hheld
  | release probing => exact h.keep (by rw [probing]; rfl) rfl
  | serve picked free => exact h.keep (by rw [picked]; rfl) rfl
  | @refuse i p picked used =>
    have hport : (s i).port? = some p := by rw [picked]; rfl
    obtain ⟨j, hj⟩ := used_of_not_free (mem_freePorts.mp (h.port_free i p hport)).2 used
    -- nobody else has chosen the port
    obtain rfl := h.port_once j i p (port?_of_used hj) hport
    rw [picked] at hj
    rcases hj with hj | hj
    · cases hj
    · cases hj

/-! ## The starts -/

/-- Every start resolves, with ports of the range that are all different. -/
structure AllStarted (r : PortRange) (s : ι → Phase) : Prop where
  resolves : ∀ i, ∃ p, r.start ≤ p ∧ p ≤ r.max ∧ s i = .bound p
  distinct : ∀ i j p, s i = .bound p → s j = .bound p → i = j

/-- The same on the way: no start fails, and those that have not resolved go on. -/
structure GoesWell (r : PortRange) (busy : Nat → Bool) (s : ι → Phase) : Prop where
  none_rejected : ∀ i error, s i ≠ .rejected error
  in_range : ∀ i p, s i = .bound p → r.start ≤ p ∧ p ≤ r.max
  distinct : ∀ i j p, s i = .bound p → s j = .bound p → i = j
  goes_on : ∀ i, (∃ p, s i = .bound p) ∨ ∃ e : Event ι, e.daemon = i ∧ (step r busy s e).isSome = true

theorem Sound.goesWell (h : Sound r busy s) : GoesWell r busy s := by
  have hport : ∀ {i p}, s i = .bound p → (s i).port? = some p := fun hi => by rw [hi]; rfl
  refine ⟨h.none_rejected, fun i p hi => (mem_freePorts.mp (h.port_free i p (hport hi))).1,
    fun i j p hi hj => h.port_once i j p (hport hi) (hport hj), fun i => ?_⟩
  rcases exists_step r busy s i with hbound | ⟨error, herror⟩ | hmore
  · exact .inl hbound
  · exact absurd herror (h.none_rejected i error)
  · exact .inr hmore

theorem GoesWell.allStarted (h : GoesWell r busy s) (hend : ∀ e, step r busy s e = none) : AllStarted r s := by
  refine ⟨fun i => ?_, h.distinct⟩
  rcases h.goes_on i with ⟨p, hp⟩ | ⟨e, -, he⟩
  · exact ⟨p, (h.in_range i p hp).1, (h.in_range i p hp).2, hp⟩
  · rw [hend e] at he
    cases he

theorem sound_run (hroom : Fintype.card ι ≤ (freePorts r busy).card)
    (h : exec (step r busy) (initial ι r) es = some t)
    (hc : Along (step r busy) (Unchosen busy) (initial ι r) es) : Sound r busy t :=
  exec_invariant_along h hc (sound_initial hroom) fun _ _ _ hstep he hs => hs.step hroom hstep he

/-- Two daemons that have chosen one port do not both start. -/
theorem along_of_allStarted (h : exec (step r busy) s es = some t) (ht : AllStarted r t) :
    Along (step r busy) (Unchosen busy) s es := by
  induction es generalizing s with
  | nil => trivial
  | cons e es ih =>
    rw [exec_cons] at h
    obtain ⟨u, hu, hrest⟩ := Option.bind_eq_some_iff.mp h
    refine along_cons_of ?_ hu (ih hrest)
    cases e with
    | probe i =>
      intro p trying free j picked
      have hne : j ≠ i := by
        rintro rfl
        rw [trying] at picked
        cases picked
      have hui : u = Function.update s i (.probing p) := by
        simp only [step, trying, if_pos free, Option.some.injEq] at hu
        exact hu.symm
      have hi : Chosen p (u i) := .inl (by rw [hui, Function.update_self]; rfl)
      have hj : Chosen p (u j) := .inl (by rw [hui, Function.update_of_ne hne, picked]; rfl)
      have hbound : ∀ {k}, Chosen p (u k) → t k = .bound p := by
        intro k hk
        obtain ⟨q, -, -, hq⟩ := ht.resolves k
        have hchosen := chosen_run hrest hk
        rw [hq] at hchosen ⊢
        rcases hchosen with hport | ⟨error, herror⟩
        · cases hport
          rfl
        · cases herror
      exact hne (ht.distinct j i p (hbound hj) (hbound hi))
    | close i => trivial
    | listen i => trivial

/-- Every run comes to an end. As long as no probe gets a port that another daemon
has chosen and is not on, the starts go well, and in a run that has come to its end
they all resolve exactly if no probe did. -/
theorem concurrent_starts (hroom : Fintype.card ι ≤ (freePorts r busy).card)
    (h : exec (step r busy) (initial ι r) es = some t) :
    es.length ≤ Fintype.card ι * ((r.max - r.start) + 3) ∧
    (Along (step r busy) (Unchosen busy) (initial ι r) es → GoesWell r busy t) ∧
    ((∀ e, step r busy t e = none) →
      (AllStarted r t ↔ Along (step r busy) (Unchosen busy) (initial ι r) es)) := by
  refine ⟨length_le h, fun hc => (sound_run hroom h hc).goesWell, fun hend => ⟨along_of_allStarted h, fun hc => ?_⟩⟩
  exact (sound_run hroom h hc).goesWell.allStarted hend

/-! ## Two daemons on the default range -/

def noOther : Nat → Bool := fun _ => false

theorem room_noOther : Fintype.card (Fin 2) ≤ (freePorts defaultRange noOther).card := by
  have hall : freePorts defaultRange noOther = Finset.Icc 32140 32199 :=
    Finset.filter_true_of_mem fun _ _ => rfl
  rw [hall, Nat.card_Icc, Fintype.card_fin]
  decide

/-- The second daemon probes while the first one still listens. -/
def takeTurns : List (Event (Fin 2)) :=
  [.probe 0, .probe 1, .probe 1, .close 0, .close 1, .listen 1, .listen 0]

/-- The second daemon probes between the close and the listen of the first. -/
def samePort : List (Event (Fin 2)) :=
  [.probe 0, .close 0, .probe 1, .close 1, .listen 0, .listen 1]

theorem takeTurns_start : ∃ t : Fin 2 → Phase,
    exec (step defaultRange noOther) (initial (Fin 2) defaultRange) takeTurns = some t ∧
      AllStarted defaultRange t ∧
      Along (step defaultRange noOther) (Unchosen noOther) (initial (Fin 2) defaultRange) takeTurns := by
  have hrun : (exec (step defaultRange noOther) (initial (Fin 2) defaultRange) takeTurns).map
      (fun t => [t 0, t 1]) = some [.bound 32140, .bound 32141] := by decide
  obtain ⟨t, ht, hphases⟩ := Option.map_eq_some_iff.mp hrun
  obtain ⟨hfirst, hsecond⟩ : t 0 = .bound 32140 ∧ t 1 = .bound 32141 := by simpa using hphases
  have hbound : ∀ i : Fin 2, t i = .bound (32140 + i) := by
    rw [Fin.forall_fin_two]
    exact ⟨hfirst, hsecond⟩
  have hend : ∀ e, step defaultRange noOther t e = none := by
    intro e
    cases e with
    | probe i => simp [step, hbound i]
    | close i => simp [step, hbound i]
    | listen i => simp [step, hbound i]
  have hstarted : AllStarted defaultRange t := by
    refine ⟨fun i => ⟨32140 + i, ?_, ?_, hbound i⟩, fun i j p hi hj => ?_⟩
    · exact Nat.le_add_right _ _
    · have hlt := i.isLt
      show 32140 + (i : Nat) ≤ 32199
      omega
    · rw [hbound] at hi hj
      cases hi
      exact Fin.ext (by simpa using (Phase.bound.inj hj).symm)
  exact ⟨t, ht, hstarted, ((concurrent_starts room_noOther ht).2.2 hend).mp hstarted⟩

theorem samePort_rejected : ∃ t : Fin 2 → Phase,
    exec (step defaultRange noOther) (initial (Fin 2) defaultRange) samePort = some t ∧
      t 0 = .bound 32140 ∧ t 1 = .rejected (.addressInUse 32140) ∧
      Fintype.card (Fin 2) ≤ (freePorts defaultRange noOther).card ∧ ¬ AllStarted defaultRange t := by
  have hrun : (exec (step defaultRange noOther) (initial (Fin 2) defaultRange) samePort).map
      (fun t => [t 0, t 1]) = some [.bound 32140, .rejected (.addressInUse 32140)] := by decide
  obtain ⟨t, ht, hphases⟩ := Option.map_eq_some_iff.mp hrun
  obtain ⟨hfirst, hsecond⟩ : t 0 = .bound 32140 ∧ t 1 = .rejected (.addressInUse 32140) := by
    simpa using hphases
  refine ⟨t, ht, hfirst, hsecond, room_noOther, fun h => ?_⟩
  obtain ⟨p, -, -, hp⟩ := h.resolves 1
  rw [hsecond] at hp
  cases hp

end Conductor.Http.PickPort
