import Mathlib.Data.Int.Order.Basic
import Mathlib.Data.Fintype.EquivFin
import Conductor.Tmux.Audit

/-! # The audit log under failures that leave nothing behind

Calls of `appendAudit` pile up on the queue while earlier ones are pending, and
any file-system call fails or not. A failed call is one that had no effect. The
log is then the record of the appends that succeeded, in the order of the calls:
what becomes of one call costs no other call its line. -/
namespace Conductor.Tmux.AuditOrder
open Conductor.Lib.Framing Conductor.Lib.Runs Conductor.Js.Utf8 Conductor.Tmux.Audit

/-! ## Failures without effect -/

inductive Event
  | call (i : Inject)
  | mkdir (ok : Bool)
  | stat (ok : Bool)
  | rename (now : Int) (ok : Bool)
  | append (ok : Bool)

/-- The steps of the queue, except that an append that fails has not touched the file. -/
def step (s : State) : Event → Option State
  | .call i => Audit.step s (.inject i true)
  | .mkdir ok => Audit.step s (.mkdir ok)
  | .stat ok => Audit.step s (.stat ok)
  | .rename now ok => Audit.step s (.rename now ok)
  | .append true => Audit.step s (.append none)
  | .append false => match s.queue, s.phase with
    | i :: rest, .append => some (settle s i rest)
    | _, _ => none

/-- The entries, in the order of the calls. -/
def calls (es : List Event) : List Inject :=
  es.filterMap fun | .call i => some i | _ => none

/-- Whether the append of the first call succeeded, of the second, and so on; a
call whose directory cannot be made never comes to it. -/
def outcomes (es : List Event) : List Bool :=
  es.filterMap fun | .mkdir false => some false | .append ok => some ok | _ => none

/-- The times of the rotations. -/
def rotations (es : List Event) : List Int :=
  es.filterMap fun | .rename now true => some now | _ => none

def succeeded (settled : List (Inject × Bool)) : List Inject :=
  settled.filterMap fun c => if c.2 then some c.1 else none

/-- The entries whose append succeeded, in the order of the calls. -/
def written (es : List Event) : List Inject := succeeded ((calls es).zip (outcomes es))

/-- Neither `stat` nor `rename` fails on a file that exists. -/
def Intact (s : State) : Event → Prop
  | .stat ok => s.log.current.isSome → ok = true
  | .rename _ ok => s.log.current.isSome → ok = true
  | _ => True

/-- The bytes of the last line of the current file, with its newline. -/
def lastLine (l : Log) : Nat :=
  match (records 10 (l.current.getD [])).getLast? with
  | some b => b.length + 1
  | none => 0

/-- The calls are served in order, and the files are the lines of those whose
append succeeded: whole lines, in the order of the rotations. -/
structure InOrder (es : List Event) (s : State) : Prop where
  served : calls es = s.reported ++ s.queue
  settled : (outcomes es).length = s.reported.length
  files : ∃ r, Holds s.log r ∧ r.archives.map Prod.fst = rotations es ∧
    r.all = (written es).map line

/-- A file-system call that succeeds. -/
def Succeeds : Event → Prop
  | .call _ => False
  | .mkdir ok => ok = true
  | .stat ok => ok = true
  | .rename _ ok => ok = true
  | .append ok => ok = true

/-- Whatever failed before, once nothing fails every pending call gets its line. -/
def Unblocked (es : List Event) (s : State) : Prop :=
  ∃ fs t, (∀ e ∈ fs, Succeeds e) ∧ (rotations (es ++ fs)).Nodup ∧ exec step s fs = some t ∧
    t.queue = [] ∧ ∃ r, Holds t.log r ∧ r.all = (written es ++ s.queue).map line

/-! ## One step -/

@[simp] theorem calls_append (es fs : List Event) : calls (es ++ fs) = calls es ++ calls fs :=
  List.filterMap_append

@[simp] theorem outcomes_append (es fs : List Event) :
    outcomes (es ++ fs) = outcomes es ++ outcomes fs := List.filterMap_append

@[simp] theorem rotations_append (es fs : List Event) :
    rotations (es ++ fs) = rotations es ++ rotations fs := List.filterMap_append

theorem succeeded_append (cs ds : List (Inject × Bool)) :
    succeeded (cs ++ ds) = succeeded cs ++ succeeded ds := List.filterMap_append

/-- Only the calls that have had their turn count. -/
theorem written_eq {es : List Event} {reported queue : List Inject}
    (hcalls : calls es = reported ++ queue) (hlen : (outcomes es).length = reported.length) :
    written es = succeeded (reported.zip (outcomes es)) := by
  have hzip : (reported ++ queue).zip (outcomes es ++ []) =
      reported.zip (outcomes es) ++ queue.zip [] := List.zip_append hlen.symm
  rw [List.append_nil, List.zip_nil_right, List.append_nil] at hzip
  rw [written, hcalls, hzip]

/-- What the calls that have had their turn wrote, with one more turn. -/
theorem succeeded_zip_concat {reported : List Inject} {oks : List Bool}
    (hlen : oks.length = reported.length) (i : Inject) (ok : Bool) :
    succeeded ((reported ++ [i]).zip (oks ++ [ok])) =
      succeeded (reported.zip oks) ++ if ok then [i] else [] := by
  rw [List.zip_append hlen.symm, succeeded_append]
  cases ok <;> rfl

/-- What is known of a state whose past is `es`; a rotation moves a file that is too long. -/
structure Inv (es : List Event) (s : State) : Prop where
  inOrder : InOrder es s
  rotating : s.phase = .rename → ROTATE_BYTES < s.log.size

theorem inv_init : Inv [] init := by
  refine ⟨⟨rfl, rfl, ⟨⟨[], []⟩, ⟨rfl, rfl, ?_, ?_⟩, rfl, rfl⟩⟩, fun h => ?_⟩
  · intro a ha; cases ha
  · intro b hb; cases hb
  · cases h

/-- The turn of the head ends: its line is in the log, or the log is as it was. -/
theorem InOrder.settle {es : List Event} {s : State} {i : Inject} {rest : List Inject} {e : Event}
    (ok : Bool) (h : InOrder es s) (hq : s.queue = i :: rest) (hcalls : calls [e] = [])
    (hout : outcomes [e] = [ok]) (hrot : rotations [e] = []) :
    InOrder (es ++ [e])
      (settle { s with log := if ok then s.log.write (line i ++ [10]) else s.log } i rest) := by
  have hserved : calls (es ++ [e]) = (s.reported ++ [i]) ++ rest := by
    rw [calls_append, hcalls, h.served, hq]
    simp
  have hsettled : (outcomes (es ++ [e])).length = (s.reported ++ [i]).length := by
    rw [outcomes_append, hout, List.length_append, List.length_append, h.settled]
    rfl
  refine ⟨hserved, hsettled, ?_⟩
  obtain ⟨r, hr, hnames, hall⟩ := h.files
  have hwritten : written (es ++ [e]) = written es ++ if ok then [i] else [] := by
    rw [written_eq hserved hsettled, outcomes_append, hout, succeeded_zip_concat h.settled,
      written_eq h.served h.settled]
  have hrotations : rotations (es ++ [e]) = rotations es := by
    rw [rotations_append, hrot, List.append_nil]
  rw [hwritten, hrotations]
  cases ok with
  | true =>
    refine ⟨_, hr.write (newline_not_mem_line i), hnames, ?_⟩
    simp [Records.all, ← hall]
  | false => exact ⟨r, hr, hnames, by simpa using hall⟩

/-- A step between the turns, that leaves queue and log alone. -/
theorem InOrder.silent {es : List Event} {s t : State} {e : Event} (h : InOrder es s)
    (hlog : t.log = s.log) (hqueue : t.queue = s.queue) (hreported : t.reported = s.reported)
    (hcalls : calls [e] = []) (hout : outcomes [e] = []) (hrot : rotations [e] = []) :
    InOrder (es ++ [e]) t := by
  have hwritten : written (es ++ [e]) = written es := by
    rw [written, written, calls_append, outcomes_append, hcalls, hout, List.append_nil,
      List.append_nil]
  refine ⟨?_, ?_, ?_⟩
  · rw [calls_append, hcalls, List.append_nil, hreported, hqueue]
    exact h.served
  · rw [outcomes_append, hout, List.append_nil, hreported]
    exact h.settled
  · rw [rotations_append, hrot, List.append_nil, hwritten, hlog]
    exact h.files

theorem InOrder.call {es : List Event} {s : State} (h : InOrder es s) (i : Inject) :
    InOrder (es ++ [.call i]) { s with queue := s.queue ++ [i] } := by
  have hserved : calls (es ++ [.call i]) = s.reported ++ (s.queue ++ [i]) := by
    rw [calls_append, h.served]
    simp [calls]
  have houtcomes : outcomes (es ++ [.call i]) = outcomes es := by simp [outcomes]
  have hsettled : (outcomes (es ++ [.call i])).length = s.reported.length := by
    rw [houtcomes]
    exact h.settled
  refine ⟨hserved, hsettled, ?_⟩
  have hrotations : rotations (es ++ [.call i]) = rotations es := by simp [rotations]
  rw [written_eq hserved hsettled, houtcomes, ← written_eq h.served h.settled, hrotations]
  exact h.files

theorem InOrder.rotate {es : List Event} {s : State} (h : InOrder es s) {now : Int}
    (hsize : 0 < s.log.size) (hfresh : (rotations (es ++ [.rename now true])).Nodup) :
    InOrder (es ++ [.rename now true]) { s with log := s.log.rotate now, phase := .append } := by
  have hrotations : rotations (es ++ [.rename now true]) = rotations es ++ [now] := by simp [rotations]
  have hwritten : written (es ++ [.rename now true]) = written es := by
    simp [written, calls, outcomes]
  refine ⟨?_, ?_, ?_⟩
  · rw [calls_append, ← h.served]
    simp [calls]
  · rw [outcomes_append, List.length_append, h.settled]
    simp [outcomes]
  obtain ⟨r, hr, hnames, hall⟩ := h.files
  have hnew : now ∉ s.log.archives.map Prod.fst := by
    have harchives : s.log.archives.map Prod.fst = rotations es := by
      rw [hr.archives, List.map_map, ← hnames]
      rfl
    rw [harchives]
    rw [hrotations] at hfresh
    intro hmem
    exact (List.nodup_append.mp hfresh).2.2 now hmem now (List.mem_singleton_self now) rfl
  refine ⟨_, hr.rotate hsize hnew, ?_, ?_⟩
  · rw [hrotations, List.map_append, hnames]
    rfl
  · rw [hwritten, ← hall]
    simp [Records.all]

/-- What an append does that touched nothing: the turn of the head ends. -/
theorem failed_append {s t : State} (h : step s (.append false) = some t) :
    ∃ i rest, s.queue = i :: rest ∧ t = settle s i rest := by
  simp only [step] at h
  split at h
  · rename_i i rest hqueue _
    cases h
    exact ⟨i, rest, hqueue, rfl⟩
  · cases h

theorem step_keeps {es : List Event} {s t : State} {e : Event} (h : step s e = some t)
    (hfresh : (rotations (es ++ [e])).Nodup) (hi : Inv es s) : Inv (es ++ [e]) t := by
  cases e with
  | call i =>
    cases h
    exact ⟨hi.inOrder.call i, hi.rotating⟩
  | mkdir ok =>
    cases takes_of_step (e := .mkdir ok) h with
    | made _ => exact ⟨hi.inOrder.silent rfl rfl rfl rfl rfl rfl, fun hp => by cases hp⟩
    | unmade hqueue _ =>
      exact ⟨InOrder.settle false hi.inOrder hqueue rfl rfl rfl, fun hp => by cases hp⟩
  | stat ok =>
    cases takes_of_step (e := .stat ok) h with
    | long _ _ hsize => exact ⟨hi.inOrder.silent rfl rfl rfl rfl rfl rfl, fun _ => hsize⟩
    | short _ _ => exact ⟨hi.inOrder.silent rfl rfl rfl rfl rfl rfl, fun hp => by cases hp⟩
  | rename now ok =>
    cases takes_of_step (e := .rename now ok) h with
    | rotated hphase =>
      have hsize := hi.rotating hphase
      exact ⟨hi.inOrder.rotate (by omega) hfresh, fun hp => by cases hp⟩
    | stayed _ => exact ⟨hi.inOrder.silent rfl rfl rfl rfl rfl rfl, fun hp => by cases hp⟩
  | append ok =>
    cases ok with
    | true =>
      cases takes_of_step (e := .append none) h with
      | appended hqueue _ =>
        exact ⟨InOrder.settle true hi.inOrder hqueue rfl rfl rfl, fun hp => by cases hp⟩
    | false =>
      obtain ⟨i, rest, hqueue, rfl⟩ := failed_append h
      exact ⟨InOrder.settle false hi.inOrder hqueue rfl rfl rfl, fun hp => by cases hp⟩

theorem inv_run {es : List Event} {s : State} (h : exec step init es = some s)
    (hfresh : (rotations es).Nodup) : Inv es s := by
  have hrun : (rotations es).Nodup → Inv es s :=
    exec_history (C := fun _ _ => True) (I := fun past s => (rotations past).Nodup → Inv past s)
      (fun _ => inv_init)
      (fun past s e t _ hst _ hi hfresh => by
        have hpast : (rotations past).Nodup := by
          rw [rotations_append] at hfresh
          exact (List.nodup_append.mp hfresh).1
        exact step_keeps hst hfresh (hi hpast))
      h (along_of_forall (fun _ _ _ => trivial) init)
  exact hrun hfresh

/-! ## The size of the current file -/

/-- When it is about to append, the file is not too long. -/
structure Bounded (s : State) : Prop where
  size : s.log.size ≤ ROTATE_BYTES + lastLine s.log
  appending : s.phase = .append → s.log.size ≤ ROTATE_BYTES
  rotating : s.phase = .rename → s.log.current.isSome

theorem lastLine_write {l : Log} {r : Records} (h : Holds l r) {b : Bytes} (hb : 10 ∉ b) :
    lastLine (l.write (b ++ [10])) = b.length + 1 := by
  have hw := h.write hb
  unfold lastLine
  rw [hw.current, records_frame fun c hc => hw.clean c (List.mem_append_right _ hc)]
  simp

theorem Log.size_write (l : Log) (bytes : Bytes) : (l.write bytes).size = l.size + bytes.length := by
  simp [Log.size, Log.write]

/-- A file that is not there has no bytes. -/
theorem Log.size_none {l : Log} (h : ¬ l.current.isSome = true) : l.size = 0 := by
  have hnone : l.current = none := by simpa using h
  rw [Log.size, hnone]
  rfl

theorem bounded_keeps {es : List Event} {s t : State} {e : Event} (h : step s e = some t)
    (hi : Inv es s) (hc : Intact s e) (hb : Bounded s) : Bounded t := by
  cases e with
  | call i =>
    cases h
    exact ⟨hb.size, hb.appending, hb.rotating⟩
  | mkdir ok =>
    cases takes_of_step (e := .mkdir ok) h with
    | made _ => exact ⟨hb.size, fun hp => (by cases hp), fun hp => (by cases hp)⟩
    | unmade _ _ => exact ⟨hb.size, fun hp => (by cases hp), fun hp => (by cases hp)⟩
  | stat ok =>
    cases takes_of_step (e := .stat ok) h with
    | long _ hsome _ => exact ⟨hb.size, fun hp => (by cases hp), fun _ => hsome⟩
    | short _ hsmall =>
      refine ⟨hb.size, fun _ => ?_, fun hp => (by cases hp)⟩
      by_cases hsome : s.log.current.isSome = true
      · have hok : ok = true := hc hsome
        have hle : ¬ ROTATE_BYTES < s.log.size := fun hlt => hsmall ⟨hok, hsome, hlt⟩
        exact Nat.le_of_not_lt hle
      · have hzero := Log.size_none hsome
        simp only
        omega
  | rename now ok =>
    cases takes_of_step (e := .rename now ok) h with
    | rotated _ => exact ⟨Nat.zero_le _, fun _ => Nat.zero_le _, fun hp => (by cases hp)⟩
    | stayed hphase =>
      have hok : false = true := hc (hb.rotating hphase)
      cases hok
  | append ok =>
    obtain ⟨r, hr, -, -⟩ := hi.inOrder.files
    cases ok with
    | true =>
      cases takes_of_step (e := .append none) h with
      | @appended i rest _ hphase =>
        have hsmall := hb.appending hphase
        refine ⟨?_, fun hp => (by cases hp), fun hp => (by cases hp)⟩
        simp only [settle]
        rw [Log.size_write, lastLine_write hr (newline_not_mem_line i), List.length_append,
          List.length_singleton]
        omega
    | false =>
      obtain ⟨i, rest, -, rfl⟩ := failed_append h
      exact ⟨hb.size, fun hp => (by cases hp), fun hp => (by cases hp)⟩

theorem bounded_run {es : List Event} {s : State} (h : exec step init es = some s)
    (hfresh : (rotations es).Nodup) (hc : Along step Intact init es) : Bounded s := by
  have hrun : (rotations es).Nodup → Bounded s :=
    exec_history (I := fun past s => (rotations past).Nodup → Bounded s)
      (fun _ => ⟨Nat.zero_le _, fun hp => (by cases hp), fun hp => (by cases hp)⟩)
      (fun past s e t hs hst hc hb hfresh => by
        have hpast : (rotations past).Nodup := by
          rw [rotations_append] at hfresh
          exact (List.nodup_append.mp hfresh).1
        exact bounded_keeps hst (inv_run hs hpast) hc (hb hpast))
      h hc
  exact hrun hfresh

/-! ## The pending calls -/

/-- The rest of the head's turn, when nothing fails and a rotation would read `now`. -/
structure Turn (now : Int) (s : State) (rest : List Inject) (fs : List Event) (t : State) : Prop where
  succeeds : ∀ e ∈ fs, Succeeds e
  run : exec step s fs = some t
  queue : t.queue = rest
  outcomes : outcomes fs = [true]
  rotations : rotations fs = [] ∨ rotations fs = [now]

/-- A step before the turn that rotates nothing. -/
theorem Turn.cons {now : Int} {s s' t : State} {rest : List Inject} {fs : List Event} {e : Event}
    (h : Turn now s' rest fs t) (he : Succeeds e) (hst : step s e = some s')
    (hout : AuditOrder.outcomes [e] = []) (hrot : AuditOrder.rotations [e] = []) :
    Turn now s rest (e :: fs) t where
  succeeds d hd := by
    rcases List.mem_cons.mp hd with rfl | hd
    · exact he
    · exact h.succeeds d hd
  run := by
    rw [exec_cons, hst]
    exact h.run
  queue := h.queue
  outcomes := by
    have happ : AuditOrder.outcomes ([e] ++ fs) = _ := outcomes_append [e] fs
    rw [hout, h.outcomes] at happ
    exact happ
  rotations := by
    have happ : AuditOrder.rotations ([e] ++ fs) = _ := rotations_append [e] fs
    rw [hrot, List.nil_append] at happ
    rw [← List.singleton_append, happ]
    exact h.rotations

theorem turn_append (now : Int) {s : State} {i : Inject} {rest : List Inject}
    (hq : s.queue = i :: rest) (hp : s.phase = .append) :
    ∃ t, Turn now s rest [.append true] t := by
  refine ⟨settle { s with log := s.log.write (line i ++ [10]) } i rest, ?_, ?_, rfl, rfl, .inl rfl⟩
  · intro e he
    rw [List.mem_singleton.mp he]
    exact rfl
  · simp [exec_cons, step, Audit.step, hq, hp]

theorem turn_rename (now : Int) {s : State} {i : Inject} {rest : List Inject}
    (hq : s.queue = i :: rest) (hp : s.phase = .rename) :
    ∃ fs t, Turn now s rest fs t := by
  have hst : step s (.rename now true) =
      some { s with log := s.log.rotate now, phase := .append } := by
    simp [step, Audit.step, hq, hp]
  obtain ⟨t, ht⟩ := turn_append now (s := { s with log := s.log.rotate now, phase := .append }) hq rfl
  refine ⟨.rename now true :: [.append true], t, ?_, ?_, ht.queue, rfl, .inr rfl⟩
  · intro e he
    rcases List.mem_cons.mp he with rfl | he
    · exact rfl
    · exact ht.succeeds e he
  · rw [exec_cons, hst]
    exact ht.run

theorem turn_stat (now : Int) {s : State} {i : Inject} {rest : List Inject}
    (hq : s.queue = i :: rest) (hp : s.phase = .stat) :
    ∃ fs t, Turn now s rest fs t := by
  by_cases hsize : s.log.current.isSome ∧ ROTATE_BYTES < s.log.size
  · have hst : step s (.stat true) = some { s with phase := .rename } := by
      simp [step, Audit.step, hq, hp, hsize]
    obtain ⟨fs, t, ht⟩ := turn_rename now (s := { s with phase := .rename }) hq rfl
    exact ⟨_, t, ht.cons (by trivial) hst rfl rfl⟩
  · have hst : step s (.stat true) = some { s with phase := .append } := by
      simp only [step, Audit.step, hq, hp]
      exact if_neg fun h => hsize h.2
    obtain ⟨t, ht⟩ := turn_append now (s := { s with phase := .append }) hq rfl
    exact ⟨_, t, ht.cons (by trivial) hst rfl rfl⟩

/-- Wherever the head stands, it comes to its append. -/
theorem turn (now : Int) {s : State} {i : Inject} {rest : List Inject} (hq : s.queue = i :: rest) :
    ∃ fs t, Turn now s rest fs t := by
  cases hp : s.phase with
  | append =>
    obtain ⟨t, ht⟩ := turn_append now hq hp
    exact ⟨_, t, ht⟩
  | rename => exact turn_rename now hq hp
  | stat => exact turn_stat now hq hp
  | mkdir =>
    have hst : step s (.mkdir true) = some { s with phase := .stat } := by
      simp [step, Audit.step, hq, hp]
    obtain ⟨fs, t, ht⟩ := turn_stat now (s := { s with phase := .stat }) hq rfl
    exact ⟨_, t, ht.cons (by trivial) hst rfl rfl⟩

theorem calls_of_succeeds {fs : List Event} (h : ∀ e ∈ fs, Succeeds e) : calls fs = [] := by
  refine List.filterMap_eq_nil_iff.mpr fun e he => ?_
  cases e with
  | call i => exact (h _ he).elim
  | mkdir ok => rfl
  | stat ok => rfl
  | rename now ok => rfl
  | append ok => rfl

/-- The whole queue is served, with clocks that no rotation has read. -/
theorem drain (n : Nat) : ∀ {s : State} {used : List Int}, s.queue.length = n → used.Nodup →
    ∃ fs t, (∀ e ∈ fs, Succeeds e) ∧ exec step s fs = some t ∧ t.queue = [] ∧
      outcomes fs = List.replicate n true ∧ (used ++ rotations fs).Nodup := by
  induction n with
  | zero =>
    intro s used hlen hused
    refine ⟨[], s, fun e he => (by cases he), rfl, List.length_eq_zero_iff.mp hlen, rfl, ?_⟩
    rw [show rotations [] = [] from rfl, List.append_nil]
    exact hused
  | succ n ih =>
    intro s used hlen hused
    obtain ⟨i, rest, hq⟩ := List.exists_cons_of_length_eq_add_one hlen
    obtain ⟨now, hnow⟩ := Infinite.exists_notMem_finset used.toFinset
    have hfresh : now ∉ used := fun hmem => hnow (List.mem_toFinset.mpr hmem)
    obtain ⟨fs, s', hturn⟩ := turn now hq
    have hused' : (used ++ rotations fs).Nodup := by
      rcases hturn.rotations with hrot | hrot
      · rw [hrot, List.append_nil]
        exact hused
      · rw [hrot]
        refine List.nodup_append.mpr ⟨hused, List.nodup_singleton now, fun a ha b hb heq => ?_⟩
        rw [List.mem_singleton.mp hb] at heq
        exact hfresh (heq ▸ ha)
    have hrest : s'.queue.length = n := by
      rw [hturn.queue]
      rw [hq, List.length_cons] at hlen
      omega
    obtain ⟨gs, t, hsucceeds, hrun, hqueue, hout, hnodup⟩ := ih hrest hused'
    refine ⟨fs ++ gs, t, fun e he => ?_, ?_, hqueue, ?_, ?_⟩
    · exact (List.mem_append.mp he).elim (hturn.succeeds e) (hsucceeds e)
    · rw [exec_append, hturn.run]
      exact hrun
    · rw [outcomes_append, hturn.outcomes, hout]
      rfl
    · rw [rotations_append, ← List.append_assoc]
      exact hnodup

theorem succeeded_zip_true (is : List Inject) :
    succeeded (is.zip (List.replicate is.length true)) = is := by
  induction is with
  | nil => rfl
  | cons i is ih =>
    simp only [succeeded, List.length_cons, List.replicate_succ, List.zip_cons_cons,
      List.filterMap_cons] at ih ⊢
    rw [ih]
    rfl

theorem unblocked {es : List Event} {s : State} (h : exec step init es = some s)
    (hfresh : (rotations es).Nodup) : Unblocked es s := by
  have hin := (inv_run h hfresh).inOrder
  obtain ⟨fs, t, hsucceeds, hrun, hqueue, hout, hnodup⟩ := drain s.queue.length rfl hfresh
  rw [← rotations_append] at hnodup
  have hall : exec step init (es ++ fs) = some t := by
    rw [exec_append, h]
    exact hrun
  refine ⟨fs, t, hsucceeds, hnodup, hrun, hqueue, ?_⟩
  obtain ⟨r, hr, -, hr'⟩ := (inv_run hall hnodup).inOrder.files
  have hwritten : written (es ++ fs) = written es ++ s.queue := by
    have hzip : (s.reported ++ s.queue).zip (outcomes es ++ outcomes fs) =
        s.reported.zip (outcomes es) ++ s.queue.zip (outcomes fs) := List.zip_append hin.settled.symm
    rw [written, calls_append, calls_of_succeeds hsucceeds, List.append_nil, hin.served,
      outcomes_append, hzip, succeeded_append, written_eq hin.served hin.settled, hout,
      succeeded_zip_true]
  exact ⟨r, hr, hwritten ▸ hr'⟩

/-! ## The log -/

/-- With rotations at different times, the archives and the current file are the
lines of the entries whose append succeeded, no failure keeps a pending call from
its line, and an intact file is too long by its last line at most. -/
theorem audit_in_order {es : List Event} {s : State} (h : exec step init es = some s)
    (hfresh : (rotations es).Nodup) :
    InOrder es s ∧ Unblocked es s ∧
      (Along step Intact init es → s.log.size ≤ ROTATE_BYTES + lastLine s.log) :=
  ⟨(inv_run h hfresh).inOrder, unblocked h hfresh, fun hc => (bounded_run h hfresh hc).size⟩

/-- Two calls at once; the directory of the first cannot be made. -/
def firstFails : List Event :=
  [.call approval, .call approval, .mkdir false, .mkdir true, .stat false, .append true]

theorem audit_in_order_firstFails :
    ∃ s, exec step init firstFails = some s ∧ InOrder firstFails s ∧ Unblocked firstFails s ∧
      (Along step Intact init firstFails → s.log.size ≤ ROTATE_BYTES + lastLine s.log) :=
  ⟨_, rfl, audit_in_order rfl (by decide)⟩

end Conductor.Tmux.AuditOrder
