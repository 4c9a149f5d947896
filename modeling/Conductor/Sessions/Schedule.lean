import Conductor.Lib.Runs
import Conductor.Sessions.Snapshot

/-! # Calls that overlap

The same derivation as a system: transcripts change between any two reads, and
calls of `refinedStatusFor` and `buildSnapshot` run interleaved over one cache.
A call that is never continued past its statuses is a plain `refinedStatusFor`.
What a status or a summary was computed from is then a statement about states
the run has visited. -/
namespace Conductor.Sessions.Schedule
open Conductor.Lib.Runs Conductor.Js.Text Conductor.Js.Values Conductor.Jsonl.Parser
open Conductor.Sessions.Types Conductor.Sessions.Lock Conductor.Sessions.RefinedStatus
open Conductor.Sessions.Suggest Conductor.Sessions.Snapshot Conductor.Tmux.TmuxMap

/-! ## The system -/

/-- How far one `deriveRefinedStatus` has come. -/
inductive Progress
  | start
  | gotLast (last : Option AssistantTurn)
  | noPending (last : Option AssistantTurn)
  | gotStat (last : Option AssistantTurn) (mtimeMs : Option Rat)
  | done (status : RefinedStatus)

/-- The next read of a derivation, on the disk and the clock as they are then. -/
def advance (disk : Disk) (now : Int) (s : LocalSession) : Progress → Option Progress
  | .start => match transcriptOf s with
    | none => some (.done .idle)
    | some path => some (.gotLast (extractLastAssistantTurn (disk.bytes path)))
  | .gotLast last => do
    let path ← transcriptOf s
    if !(extractPendingToolUses (disk.bytes path)).isEmpty then some (.done .tool_pending)
    else some (.noPending last)
  | .noPending last => do
    let path ← transcriptOf s
    some (.gotStat last ((disk path).map (·.mtimeMs)))
  | .gotStat last mtimeMs => some (.done (statusFrom last [] mtimeMs now none))
  | .done _ => none

/-- The pairs of `Promise.all`, once every derivation is done. -/
def settled : List LocalSession → List Progress → Option (PidMap RefinedStatus)
  | [], [] => some []
  | s :: ss, .done status :: ps => (settled ss ps).map fun m => (s.pid, status) :: m
  | _, _ => none

/-- What `refinedStatusFor` returned, and when. -/
structure Returned where
  statuses : PidMap RefinedStatus
  time : Int
  deriving DecidableEq

structure Call where
  sessions : List LocalSession
  startedAt : Int
  /-- The derivations, one per session; none when the cache was fresh. -/
  progress : List Progress
  returned : Option Returned
  /-- `lastByPid`, as far as the loop over the sessions has come. -/
  summaries : PidMap Json
  snapshot : Option (Except JsError (List SnapshotEntry))

structure State where
  now : Int
  disk : Disk
  cache : Option Cache
  /-- The list whose derivation filled the cache. The program does not keep it. -/
  filledFrom : List LocalSession
  calls : List Call

inductive Event
  | tick (d : Nat)
  /-- A transcript is appended to, or changed in any other way. -/
  | write (path : JsString) (file : Option TranscriptFile)
  | call (sessions : List LocalSession)
  /-- Call `k` performs the next read for its session `i`. -/
  | read (k i : Nat)
  | settle (k : Nat)
  /-- Call `k` reads the summary of its next session. -/
  | summarize (k : Nat)
  /-- Call `k` composes its snapshot, with the conflicts and panes of that moment. -/
  | compose (k : Nat) (fs : Fs) (tmux : TmuxHost)

def init (now : Int) (disk : Disk) : State := ⟨now, disk, none, [], []⟩

/-- A call starts: a fresh cache answers at once. -/
def newCall (s : State) (sessions : List LocalSession) : Call :=
  match fresh s.cache s.now with
  | some c => ⟨sessions, s.now, [], some ⟨c.statuses, s.now⟩, [], none⟩
  | none => ⟨sessions, s.now, sessions.map fun _ => .start, none, [], none⟩

def readStep (s : State) (c : Call) (i : Nat) : Option Call := do
  let o ← c.sessions[i]?
  let p ← c.progress[i]?
  let p' ← advance s.disk s.now o p
  return { c with progress := c.progress.set i p' }

def settleStep (s : State) (c : Call) : Option Call :=
  if c.returned.isNone then
    (settled c.sessions c.progress).map fun m => { c with returned := some ⟨m, s.now⟩ }
  else none

def summarizeStep (s : State) (c : Call) : Option Call :=
  if c.returned.isSome ∧ c.snapshot.isNone then
    (c.sessions[c.summaries.length]?).map fun o =>
      match summaryFor s.disk o with
      | .ok w => { c with summaries := c.summaries ++ [(o.pid, w)] }
      | .error e => { c with snapshot := some (.error e) }
  else none

def composeStep (c : Call) (fs : Fs) (tmux : TmuxHost) : Option Call :=
  match c.returned with
  | some r =>
    if c.snapshot.isNone ∧ c.summaries.length = c.sessions.length then
      some { c with snapshot := some (composeSnapshot c.sessions r.statuses c.summaries
        (conflictMapOf fs c.sessions) (some (tmuxByPidOf tmux c.sessions))) }
    else none
  | none => none

/-- Call `k` is replaced by what `f` makes of it. -/
def update (s : State) (k : Nat) (f : Call → Option Call) : Option State := do
  let c ← s.calls[k]?
  let c' ← f c
  return { s with calls := s.calls.set k c' }

def step (s : State) : Event → Option State
  | .tick d => some { s with now := s.now + d }
  | .write path file => some { s with disk := Function.update s.disk path file }
  | .call sessions => some { s with calls := s.calls ++ [newCall s sessions] }
  | .read k i => update s k fun c => readStep s c i
  | .settle k => do
    let c ← s.calls[k]?
    let c' ← settleStep s c
    let r ← c'.returned
    return { s with calls := s.calls.set k c', filledFrom := c.sessions
                    cache := some ⟨r.time, r.statuses⟩ }
  | .summarize k => update s k (summarizeStep s)
  | .compose k fs tmux => update s k fun c => composeStep c fs tmux

/-! ## Evidence: the states that values were read in -/

variable {start : State}

/-- A state of the run at a time within the bounds. -/
structure Within (start : State) (es : List Event) (lo hi : Int) (u : State) : Prop where
  visited : Visited step start es u
  after : lo ≤ u.now
  before : u.now ≤ hi

/-- The status is what `deriveRefinedStatus` gives for the session from reads
within the bounds. -/
def Derived (start : State) (es : List Event) (lo hi : Int) (o : LocalSession) (status : RefinedStatus) :
    Prop :=
  match transcriptOf o with
  | none => status = .idle
  | some path => ∃ u₁ u₂ u₃ u₄, Within start es lo hi u₁ ∧ Within start es lo hi u₂ ∧
      Within start es lo hi u₃ ∧ Within start es lo hi u₄ ∧
      status = statusFrom (extractLastAssistantTurn (u₁.disk.bytes path))
        (extractPendingToolUses (u₂.disk.bytes path)) ((u₃.disk path).map (·.mtimeMs)) u₄.now none

/-- What an unfinished derivation has read so far. -/
def Seen (start : State) (es : List Event) (lo hi : Int) (o : LocalSession) : Progress → Prop
  | .start => True
  | .gotLast last => ∃ path u₁, transcriptOf o = some path ∧ Within start es lo hi u₁ ∧
      last = extractLastAssistantTurn (u₁.disk.bytes path)
  | .noPending last => ∃ path u₁ u₂, transcriptOf o = some path ∧ Within start es lo hi u₁ ∧
      Within start es lo hi u₂ ∧ last = extractLastAssistantTurn (u₁.disk.bytes path) ∧
      extractPendingToolUses (u₂.disk.bytes path) = []
  | .gotStat last mtimeMs => ∃ path u₁ u₂ u₃, transcriptOf o = some path ∧
      Within start es lo hi u₁ ∧ Within start es lo hi u₂ ∧ Within start es lo hi u₃ ∧
      last = extractLastAssistantTurn (u₁.disk.bytes path) ∧
      extractPendingToolUses (u₂.disk.bytes path) = [] ∧ mtimeMs = (u₃.disk path).map (·.mtimeMs)
  | .done status => Derived start es lo hi o status

theorem Within.mono {es : List Event} {lo hi hi' : Int} {u : State} (h : Within start es lo hi u)
    (more : List Event) (hle : hi ≤ hi') : Within start (es ++ more) lo hi' u :=
  ⟨h.visited.mono more, h.after, by have := h.before; omega⟩

theorem Derived.mono {es : List Event} {lo hi hi' : Int} {o : LocalSession} {status : RefinedStatus}
    (h : Derived start es lo hi o status) (more : List Event) (hle : hi ≤ hi') :
    Derived start (es ++ more) lo hi' o status := by
  unfold Derived at h ⊢
  cases hp : transcriptOf o with
  | none => rw [hp] at h; exact h
  | some path =>
    rw [hp] at h
    obtain ⟨u₁, u₂, u₃, u₄, h₁, h₂, h₃, h₄, hs⟩ := h
    exact ⟨u₁, u₂, u₃, u₄, h₁.mono more hle, h₂.mono more hle, h₃.mono more hle, h₄.mono more hle, hs⟩

theorem Seen.mono {es : List Event} {lo hi hi' : Int} {o : LocalSession} {p : Progress}
    (h : Seen start es lo hi o p) (more : List Event) (hle : hi ≤ hi') :
    Seen start (es ++ more) lo hi' o p := by
  cases p with
  | start => trivial
  | gotLast last =>
    obtain ⟨path, u₁, hp, h₁, hl⟩ := h
    exact ⟨path, u₁, hp, h₁.mono more hle, hl⟩
  | noPending last =>
    obtain ⟨path, u₁, u₂, hp, h₁, h₂, hl, he⟩ := h
    exact ⟨path, u₁, u₂, hp, h₁.mono more hle, h₂.mono more hle, hl, he⟩
  | gotStat last mtimeMs =>
    obtain ⟨path, u₁, u₂, u₃, hp, h₁, h₂, h₃, hl, he, hm⟩ := h
    exact ⟨path, u₁, u₂, u₃, hp, h₁.mono more hle, h₂.mono more hle, h₃.mono more hle, hl, he, hm⟩
  | done status => exact Derived.mono h more hle

/-- One read adds the present state to the evidence. -/
theorem seen_advance {es : List Event} {s : State} {lo : Int} {o : LocalSession} {p p' : Progress}
    (hs : exec step start es = some s) (hlo : lo ≤ s.now) (h : Seen start es lo s.now o p)
    (hp : advance s.disk s.now o p = some p') : Seen start es lo s.now o p' := by
  have hnow : Within start es lo s.now s := ⟨visited_now hs, hlo, le_refl _⟩
  cases p with
  | start =>
    unfold advance at hp
    cases ht : transcriptOf o with
    | none =>
      rw [ht] at hp
      cases hp
      show Derived start es lo s.now o .idle
      rw [Derived, ht]
    | some path =>
      rw [ht] at hp
      cases hp
      exact ⟨path, s, ht, hnow, rfl⟩
  | gotLast last =>
    obtain ⟨path, u₁, ht, h₁, hl⟩ := h
    simp only [advance, ht, Option.bind_eq_bind, Option.bind_some] at hp
    split at hp
    · rename_i hpend
      cases hp
      show Derived start es lo s.now o .tool_pending
      rw [Derived, ht]
      refine ⟨u₁, s, s, s, h₁, hnow, hnow, hnow, ?_⟩
      simp [statusFrom, hpend]
    · rename_i hpend
      cases hp
      refine ⟨path, u₁, s, ht, h₁, hnow, hl, ?_⟩
      simpa using hpend
  | noPending last =>
    obtain ⟨path, u₁, u₂, ht, h₁, h₂, hl, he⟩ := h
    simp only [advance, ht, Option.bind_eq_bind, Option.bind_some] at hp
    cases hp
    exact ⟨path, u₁, u₂, s, ht, h₁, h₂, hnow, hl, he, rfl⟩
  | gotStat last mtimeMs =>
    obtain ⟨path, u₁, u₂, u₃, ht, h₁, h₂, h₃, hl, he, hm⟩ := h
    cases hp
    show Derived start es lo s.now o _
    rw [Derived, ht]
    exact ⟨u₁, u₂, u₃, s, h₁, h₂, h₃, hnow, by rw [hl, he, hm]⟩
  | done status => cases hp

/-! ## What holds of every call -/

/-- The two lists send every pid to the same transcript. -/
def SameTargets (l l' : List LocalSession) : Prop :=
  ∀ pid, (owner l pid).map transcriptOf = (owner l' pid).map transcriptOf

/-- The map that a call over the list `l` derived, one status per session, from
reads between its start and its end. -/
structure Derivation (start : State) (es : List Event) (l : List LocalSession) (began ended : Int)
    (m : PidMap RefinedStatus) : Prop where
  call : ∃ (u : State) (k : Nat) (c : Call), Visited step start es u ∧ u.calls[k]? = some c ∧
    c.sessions = l ∧ c.startedAt = began ∧ c.returned = some ⟨m, ended⟩
  pairs : List.Forall₂ (fun o p => p.1 = o.pid ∧ Derived start es began ended o p.2) l m

/-- `v` is the state in which call `k` read its summary number `j`. -/
def ReadAt (start : State) (es : List Event) (k j : Nat) (v : State) : Prop :=
  ∃ past, (past ++ [.summarize k]) <+: es ∧ exec step start past = some v ∧
    ∃ c, v.calls[k]? = some c ∧ c.summaries.length = j

/-- Call `k` over the list `l` read the summary of `o` in some state. -/
def Summarised (start : State) (es : List Event) (k : Nat) (l : List LocalSession) (o : LocalSession)
    (w : Json) : Prop :=
  ∃ j v, l[j]? = some o ∧ ReadAt start es k j v ∧ summaryFor v.disk o = .ok w

/-- The statuses that a call returned come from a derivation that ended less
than the cache's lifetime before. Under `strict` its list has the same targets. -/
def FromDerivation (strict : Prop) (start : State) (es : List Event) (l : List LocalSession)
    (r : Returned) : Prop :=
  ∃ l' began ended, Derivation start es l' began ended r.statuses ∧ ended ≤ r.time ∧
    r.time - ended < CACHE_TTL_MS ∧ (strict → SameTargets l l')

structure CallInv (strict : Prop) (start : State) (es : List Event) (now : Int) (k : Nat) (c : Call) :
    Prop where
  started : c.startedAt ≤ now
  progress : c.returned = none → List.Forall₂ (Seen start es c.startedAt now) c.sessions c.progress
  returned : ∀ r, c.returned = some r → FromDerivation strict start es c.sessions r
  summaries : List.Forall₂ (fun o p => p.1 = o.pid ∧ Summarised start es k c.sessions o p.2)
    (c.sessions.take c.summaries.length) c.summaries
  snapshot : ∀ E, c.snapshot = some (.ok E) → ∃ r fs tmux, c.returned = some r ∧
    c.summaries.length = c.sessions.length ∧
    composeSnapshot c.sessions r.statuses c.summaries (conflictMapOf fs c.sessions)
      (some (tmuxByPidOf tmux c.sessions)) = .ok E

structure Inv (strict : Prop) (start : State) (es : List Event) (s : State) : Prop where
  calls : ∀ k c, s.calls[k]? = some c → CallInv strict start es s.now k c
  cache : ∀ c, s.cache = some c →
    ∃ began, Derivation start es s.filledFrom began c.setAt c.statuses ∧ c.setAt ≤ s.now

theorem Derivation.mono {es : List Event} {l : List LocalSession} {began ended : Int}
    {m : PidMap RefinedStatus} (h : Derivation start es l began ended m) (more : List Event) :
    Derivation start (es ++ more) l began ended m := by
  obtain ⟨u, k, c, hu, hc⟩ := h.call
  refine ⟨⟨u, k, c, hu.mono more, hc⟩, h.pairs.imp fun o p hp => ⟨hp.1, hp.2.mono more (le_refl _)⟩⟩

theorem ReadAt.mono {es : List Event} {k j : Nat} {v : State} (h : ReadAt start es k j v)
    (more : List Event) : ReadAt start (es ++ more) k j v := by
  obtain ⟨past, hp, hv⟩ := h
  exact ⟨past, hp.trans (List.prefix_append es more), hv⟩

theorem Summarised.mono {es : List Event} {k : Nat} {l : List LocalSession} {o : LocalSession}
    {w : Json} (h : Summarised start es k l o w) (more : List Event) :
    Summarised start (es ++ more) k l o w := by
  obtain ⟨j, v, hj, hv, hw⟩ := h
  exact ⟨j, v, hj, hv.mono more, hw⟩

theorem FromDerivation.mono {strict : Prop} {es : List Event} {l : List LocalSession} {r : Returned}
    (h : FromDerivation strict start es l r) (more : List Event) :
    FromDerivation strict start (es ++ more) l r := by
  obtain ⟨l', began, ended, hd, hrest⟩ := h
  exact ⟨l', began, ended, hd.mono more, hrest⟩

theorem CallInv.mono {strict : Prop} {es : List Event} {now now' : Int} {k : Nat} {c : Call}
    (h : CallInv strict start es now k c) (more : List Event) (hle : now ≤ now') :
    CallInv strict start (es ++ more) now' k c := by
  refine ⟨by have := h.started; omega, fun hr => ?_, fun r hr => (h.returned r hr).mono more, ?_,
    h.snapshot⟩
  · exact (h.progress hr).imp fun o p hp => hp.mono more hle
  · exact h.summaries.imp fun o p hp => ⟨hp.1, hp.2.mono more⟩

/-- A step that leaves the calls and the cache alone. -/
theorem Inv.idle {strict : Prop} {es : List Event} {s t : State} (h : Inv strict start es s)
    (e : Event) (hcalls : t.calls = s.calls) (hcache : t.cache = s.cache)
    (hfilled : t.filledFrom = s.filledFrom) (hnow : s.now ≤ t.now) :
    Inv strict start (es ++ [e]) t := by
  refine ⟨fun k c hc => ?_, fun c hc => ?_⟩
  · rw [hcalls] at hc
    exact (h.calls k c hc).mono [e] hnow
  · rw [hcache] at hc
    obtain ⟨began, hd, hset⟩ := h.cache c hc
    rw [hfilled]
    exact ⟨began, hd.mono [e], by omega⟩

/-- A step that changes call `k` only. -/
theorem Inv.update {strict : Prop} {es : List Event} {s t : State} {k : Nat} {f : Call → Option Call}
    (h : Inv strict start es s) (e : Event) (hu : update s k f = some t)
    (hc : ∀ c c', s.calls[k]? = some c → f c = some c' →
      CallInv strict start (es ++ [e]) s.now k c') : Inv strict start (es ++ [e]) t := by
  unfold Schedule.update at hu
  obtain ⟨c, hk, hu⟩ := Option.bind_eq_some_iff.mp hu
  obtain ⟨c', hf, hu⟩ := Option.bind_eq_some_iff.mp hu
  cases hu
  refine ⟨fun k' d hd => ?_, fun d hd => ?_⟩
  · have hd : (s.calls.set k c')[k']? = some d := hd
    by_cases hkk : k = k'
    · subst hkk
      have hlt : k < s.calls.length := (List.getElem?_eq_some_iff.mp hk).1
      rw [List.getElem?_set_self hlt] at hd
      cases hd
      exact hc c c' hk hf
    · rw [List.getElem?_set_ne hkk] at hd
      exact (h.calls k' d hd).mono [e] (le_refl _)
  · obtain ⟨began, hder, hset⟩ := h.cache d hd
    exact ⟨began, hder.mono [e], hset⟩

theorem forall₂_set {α β : Type} {R : α → β → Prop} {l : List α} {m : List β}
    (h : List.Forall₂ R l m) {i : Nat} {a : α} {b : β} (ha : l[i]? = some a) (hab : R a b) :
    List.Forall₂ R l (m.set i b) := by
  induction h generalizing i with
  | nil => exact .nil
  | cons hR hrest ih =>
    cases i with
    | zero =>
      cases ha
      exact .cons hab hrest
    | succ i => exact .cons hR (ih ha)

/-- Once every derivation is done, the pairs carry its evidence. -/
theorem settled_pairs {es : List Event} {lo hi : Int} {l : List LocalSession} {ps : List Progress}
    {m : PidMap RefinedStatus} (h : List.Forall₂ (Seen start es lo hi) l ps)
    (hm : settled l ps = some m) :
    List.Forall₂ (fun o p => p.1 = o.pid ∧ Derived start es lo hi o p.2) l m := by
  induction h generalizing m with
  | nil => cases hm; exact .nil
  | @cons o p l ps hp _ ih =>
    cases p with
    | done status =>
      simp only [settled, Option.map_eq_some_iff] at hm
      obtain ⟨m', hm', rfl⟩ := hm
      exact .cons ⟨rfl, hp⟩ (ih hm')
    | start => cases hm
    | gotLast last => cases hm
    | noPending last => cases hm
    | gotStat last mtimeMs => cases hm

theorem fresh_some {cache : Option Cache} {now : Int} {c : Cache} (h : fresh cache now = some c) :
    cache = some c ∧ now - c.setAt < CACHE_TTL_MS := by
  obtain ⟨hc, hlt⟩ := Option.filter_eq_some_iff.mp h
  exact ⟨hc, by simpa using hlt⟩

/-- A call that finds the cache fresh has the targets of the list that filled it. -/
def Consistent (s : State) : Event → Prop
  | .call sessions => (fresh s.cache s.now).isSome = true → SameTargets sessions s.filledFrom
  | _ => True

theorem newCall_inv {strict : Prop} {es : List Event} {s : State} (h : Inv strict start es s)
    {sessions : List LocalSession} (hc : strict → Consistent s (.call sessions)) (k : Nat) :
    CallInv strict start es s.now k (newCall s sessions) := by
  unfold newCall
  cases hf : fresh s.cache s.now with
  | some c =>
    obtain ⟨hcache, hlt⟩ := fresh_some hf
    obtain ⟨began, hd, hset⟩ := h.cache c hcache
    refine ⟨le_refl _, fun hr => (by cases hr), fun r hr => ?_, .nil, fun E hE => (by cases hE)⟩
    cases hr
    refine ⟨s.filledFrom, began, c.setAt, hd, hset, hlt, fun hs => hc hs ?_⟩
    rw [hf]
    rfl
  | none =>
    refine ⟨le_refl _, fun _ => ?_, fun r hr => (by cases hr), .nil, fun E hE => (by cases hE)⟩
    show List.Forall₂ _ sessions (sessions.map fun _ => Progress.start)
    rw [List.forall₂_map_right_iff]
    exact List.forall₂_same.mpr fun _ _ => trivial

theorem readStep_inv {strict : Prop} {es : List Event} {s : State} {k i : Nat} {c c' : Call}
    (hs : exec step start es = some s) (h : CallInv strict start es s.now k c)
    (hr : readStep s c i = some c') : CallInv strict start es s.now k c' := by
  unfold readStep at hr
  obtain ⟨o, ho, hr⟩ := Option.bind_eq_some_iff.mp hr
  obtain ⟨p, hp, hr⟩ := Option.bind_eq_some_iff.mp hr
  obtain ⟨p', hp', hr⟩ := Option.bind_eq_some_iff.mp hr
  cases hr
  refine ⟨h.started, fun hnone => ?_, h.returned, h.summaries, h.snapshot⟩
  have hall := h.progress hnone
  have hseen : Seen start es c.startedAt s.now o p := by
    obtain ⟨hi, rfl⟩ := List.getElem?_eq_some_iff.mp ho
    obtain ⟨hi', rfl⟩ := List.getElem?_eq_some_iff.mp hp
    exact (List.forall₂_iff_get.mp hall).2 i hi hi'
  exact forall₂_set hall ho (seen_advance hs h.started hseen hp')

theorem summarizeStep_inv {strict : Prop} {es : List Event} {s : State} {k : Nat} {c c' : Call}
    (hs : exec step start es = some s) (h : CallInv strict start es s.now k c)
    (hk : s.calls[k]? = some c) (hr : summarizeStep s c = some c') :
    CallInv strict start (es ++ [.summarize k]) s.now k c' := by
  have hm := h.mono [.summarize k] (le_refl _)
  unfold summarizeStep at hr
  split at hr
  · rename_i hguard
    obtain ⟨o, ho, hr⟩ := Option.map_eq_some_iff.mp hr
    cases hw : summaryFor s.disk o with
    | error e =>
      rw [hw] at hr
      cases hr
      exact ⟨hm.started, hm.progress, hm.returned, hm.summaries, fun E hE => by cases hE⟩
    | ok w =>
      rw [hw] at hr
      cases hr
      refine ⟨hm.started, hm.progress, hm.returned, ?_, fun E hE => ?_⟩
      · show List.Forall₂ _ (c.sessions.take (c.summaries ++ [(o.pid, w)]).length) _
        rw [List.length_append, List.length_singleton, List.take_add_one, ho]
        refine List.rel_append hm.summaries (.cons ⟨rfl, ?_⟩ .nil)
        exact ⟨c.summaries.length, s, ho, ⟨es, List.prefix_refl _, hs, c, hk, rfl⟩, hw⟩
      · have hE : c.snapshot = some (.ok E) := hE
        rw [hE] at hguard
        cases hguard.2
  · cases hr

theorem composeStep_inv {strict : Prop} {es : List Event} {now : Int} {k : Nat} {c c' : Call}
    {fs : Fs} {tmux : TmuxHost} (h : CallInv strict start es now k c)
    (hr : composeStep c fs tmux = some c') : CallInv strict start es now k c' := by
  unfold composeStep at hr
  split at hr
  · rename_i r hret
    split at hr
    · rename_i hguard
      cases hr
      refine ⟨h.started, h.progress, h.returned, h.summaries, fun E hE => ?_⟩
      exact ⟨r, fs, tmux, hret, hguard.2, Option.some.inj hE⟩
    · cases hr
  · cases hr

theorem sameTargets_refl (l : List LocalSession) : SameTargets l l := fun _ => rfl

/-- A derivation that ends fills the cache and answers its call. -/
theorem settle_inv {strict : Prop} {es : List Event} {s t : State} {k : Nat}
    (hs : exec step start es = some s) (hst : step s (.settle k) = some t)
    (h : Inv strict start es s) : Inv strict start (es ++ [.settle k]) t := by
  have hrun : exec step start (es ++ [.settle k]) = some t := exec_snoc_of hs hst
  obtain ⟨c, hk, hst⟩ := Option.bind_eq_some_iff.mp hst
  obtain ⟨c', hc', hst⟩ := Option.bind_eq_some_iff.mp hst
  obtain ⟨r, hr, hst⟩ := Option.bind_eq_some_iff.mp hst
  unfold settleStep at hc'
  split at hc'
  · rename_i hnone
    obtain ⟨m, hm, rfl⟩ := Option.map_eq_some_iff.mp hc'
    cases hr
    cases hst
    have hinv := h.calls k c hk
    have hlt : k < s.calls.length := (List.getElem?_eq_some_iff.mp hk).1
    have hpairs := settled_pairs (hinv.progress (by simpa using hnone)) hm
    have hd : Derivation start (es ++ [.settle k]) c.sessions c.startedAt s.now m := by
      refine ⟨⟨_, k, _, visited_now hrun, List.getElem?_set_self hlt, rfl, rfl, rfl⟩, ?_⟩
      exact hpairs.imp fun o p hp => ⟨hp.1, hp.2.mono _ (le_refl _)⟩
    have hmono := hinv.mono [.settle k] (le_refl _)
    refine ⟨fun k' d hd' => ?_, fun d hd' => ?_⟩
    · have hd' : (s.calls.set k { c with returned := some ⟨m, s.now⟩ })[k']? = some d := hd'
      by_cases hkk : k = k'
      · subst hkk
        rw [List.getElem?_set_self hlt] at hd'
        cases hd'
        refine ⟨hmono.started, fun hn => (by cases hn), fun r hr => ?_, hmono.summaries, fun E hE => ?_⟩
        · cases hr
          exact ⟨c.sessions, c.startedAt, s.now, hd, le_refl _, by show s.now - s.now < 2000; omega,
            fun _ => sameTargets_refl _⟩
        · obtain ⟨r, fs, tmux, hret, -⟩ := hmono.snapshot E hE
          rw [hret] at hnone
          cases hnone
      · rw [List.getElem?_set_ne hkk] at hd'
        exact (h.calls k' d hd').mono _ (le_refl _)
    · cases hd'
      exact ⟨c.startedAt, hd, le_refl _⟩
  · cases hc'

theorem inv_step {strict : Prop} {es : List Event} {s t : State} {e : Event}
    (hs : exec step start es = some s) (hst : step s e = some t) (hc : strict → Consistent s e)
    (h : Inv strict start es s) : Inv strict start (es ++ [e]) t := by
  cases e with
  | tick d =>
    cases hst
    exact h.idle _ rfl rfl rfl (by show s.now ≤ s.now + d; omega)
  | write path file =>
    cases hst
    exact h.idle _ rfl rfl rfl (le_refl _)
  | call sessions =>
    cases hst
    refine ⟨fun k c hk => ?_, fun c hcache => ?_⟩
    · have hk : (s.calls ++ [newCall s sessions])[k]? = some c := hk
      rw [List.getElem?_append] at hk
      split at hk
      · exact (h.calls k c hk).mono _ (le_refl _)
      · have hmem := List.mem_of_getElem? hk
        rw [List.mem_singleton.mp hmem]
        exact (newCall_inv h hc k).mono _ (le_refl _)
    · obtain ⟨began, hd, hset⟩ := h.cache c hcache
      exact ⟨began, hd.mono _, hset⟩
  | read k i =>
    exact h.update _ hst fun c c' hk hf => (readStep_inv hs (h.calls k c hk) hf).mono _ (le_refl _)
  | settle k => exact settle_inv hs hst h
  | summarize k =>
    exact h.update _ hst fun c c' hk hf => summarizeStep_inv hs (h.calls k c hk) hk hf
  | compose k fs tmux =>
    exact h.update _ hst fun c c' hk hf => (composeStep_inv (h.calls k c hk) hf).mono _ (le_refl _)

theorem inv_init {strict : Prop} (now : Int) (disk : Disk) :
    Inv strict (init now disk) [] (init now disk) :=
  ⟨fun k c hk => (by cases hk), fun c hc => (by cases hc)⟩

/-- The invariant after every run; strictly, after every run whose calls are
consistent with the cache they find. -/
theorem inv_run {strict : Prop} {now : Int} {disk : Disk} {es : List Event} {s : State}
    (h : exec step (init now disk) es = some s)
    (hc : strict → Along step Consistent (init now disk) es) :
    Inv strict (init now disk) es s := by
  have halong : Along step (fun s e => strict → Consistent s e) (init now disk) es := by
    by_cases hs : strict
    · exact (hc hs).imp fun s e hse _ => hse
    · exact along_of_forall (fun e _ s hs' => absurd hs' hs) _
  exact exec_history (inv_init now disk)
    (fun past s e t hs hst hce hi => inv_step hs hst hce hi) h halong

end Conductor.Sessions.Schedule
