import Conductor.Lib.Walk
import Conductor.Tmux.TmuxMap

/-! # The nearest ancestor with a pane

`findPaneForPid` goes up the parents of a process, at most fifty levels. Whatever
the parents are, it ends, and it returns the pane of the first process on the way
that owns one. -/
namespace Conductor.Tmux.PaneWalk
open Conductor.Lib.Walk Conductor.Js.Text Conductor.Sessions.Types Conductor.Tmux.TmuxMap

variable {panes : List PaneRow} {ppid : Int → Option Int} {fuel : Nat} {pid q : Int} {t : TmuxHost}

/-! ## The lookups -/

/-- The walk, with the pids that `ps` is run for. -/
def walkParentsAsked (panes : List PaneRow) (ppid : Int → Option Int) : Nat → Int → Option Pane × List Int
  | 0, _ => (none, [])
  | fuel + 1, cur =>
    if cur ≤ 1 then (none, [])
    else match panes.find? fun p => p.pid == cur with
      | some hit => (some ⟨hit.session, hit.pane⟩, [])
      | none => match ppid cur with
        | none => (none, [cur])
        | some parent =>
          if parent = 0 ∨ parent = cur then (none, [cur])
          else
            let rest := walkParentsAsked panes ppid fuel parent
            (rest.1, cur :: rest.2)

theorem walkParentsAsked_fst : (walkParentsAsked panes ppid fuel pid).1 = walkParents panes ppid fuel pid := by
  induction fuel generalizing pid with
  | zero => rfl
  | succ fuel ih =>
    rw [walkParentsAsked, walkParents]
    by_cases hend : pid ≤ 1
    · rw [if_pos hend, if_pos hend]
    · rw [if_neg hend, if_neg hend]
      cases panes.find? fun p => p.pid == pid with
      | some hit => rfl
      | none =>
        cases ppid pid with
        | none => rfl
        | some parent =>
          simp only
          split
          · rfl
          · exact ih

/-- One lookup a level. -/
theorem walkParentsAsked_length : (walkParentsAsked panes ppid fuel pid).2.length ≤ fuel := by
  induction fuel generalizing pid with
  | zero => rfl
  | succ fuel ih =>
    rw [walkParentsAsked]
    split
    · exact Nat.zero_le _
    · split
      · exact Nat.zero_le _
      · split
        · exact Nat.succ_le_succ (Nat.zero_le fuel)
        · split
          · exact Nat.succ_le_succ (Nat.zero_le fuel)
          · exact Nat.succ_le_succ ih

/-- A call without a cached map, with the pids that it runs `ps` for. -/
def findPaneForPidAsked (t : TmuxHost) (targetPid : Int) : Option Pane × List Int :=
  if t.panes.isEmpty then (none, []) else walkParentsAsked t.panes t.ppid 50 targetPid

theorem findPaneForPidAsked_fst : (findPaneForPidAsked t pid).1 = findPaneForPid t pid none := by
  show _ = if t.panes.isEmpty then none else walkParents t.panes t.ppid 50 pid
  unfold findPaneForPidAsked
  split
  · rfl
  · exact walkParentsAsked_fst

theorem findPaneForPidAsked_length : (findPaneForPidAsked t pid).2.length ≤ 50 := by
  unfold findPaneForPidAsked
  split
  · exact Nat.zero_le _
  · exact walkParentsAsked_length

/-! ## The walk -/

def paneOf (row : PaneRow) : Pane := ⟨row.session, row.pane⟩

def firstPane (panes : List PaneRow) (pid : Int) : Option Pane :=
  (panes.find? fun p => p.pid == pid).map paneOf

/-- The walk goes on to the parent. -/
def goesOn (pid parent : Int) : Bool := decide (1 < parent ∧ parent ≠ pid)

def nextOf (ppid : Int → Option Int) (pid : Int) : Option Int := (ppid pid).filter (goesOn pid)

def Owned (panes : List PaneRow) (pid : Int) : Prop := ∃ row ∈ panes, row.pid = pid

theorem firstPane_isSome : (firstPane panes pid).isSome = true ↔ Owned panes pid := by
  simp [firstPane, Owned]

/-- A parent of `1` or less ends the walk without another lookup. -/
theorem walkParents_low (h : pid ≤ 1) : walkParents panes ppid fuel pid = none := by
  cases fuel with
  | zero => rfl
  | succ fuel => exact if_pos h

theorem walkParents_eq (h : 1 < pid) :
    walkParents panes ppid fuel pid = walk (firstPane panes) (nextOf ppid) fuel pid := by
  induction fuel generalizing pid with
  | zero => rfl
  | succ fuel ih =>
    rw [walkParents, walk, if_neg (not_le.mpr h), firstPane, nextOf]
    cases panes.find? fun p => p.pid == pid with
    | some hit => rfl
    | none =>
      cases ppid pid with
      | none => rfl
      | some parent =>
        simp only [Option.map_none]
        by_cases hgo : goesOn pid parent = true
        · obtain ⟨hlow, hself⟩ := of_decide_eq_true hgo
          rw [Option.filter_some, if_pos hgo, if_neg (by omega)]
          exact ih hlow
        · rw [Option.filter_some, if_neg hgo, Option.bind_none]
          split
          · rfl
          · rename_i hparent
            refine walkParents_low ?_
            simp only [goesOn, decide_eq_true_eq] at hgo
            omega

/-- `q` is the first process of `pid` and its ancestors that owns a pane, among the
first fifty; each one before it has a parent above `1` that is not itself. -/
def NearestOwner (t : TmuxHost) (pid q : Int) : Prop :=
  ∃ n < 50, position t.ppid n pid = some q ∧ Owned t.panes q ∧
    ∀ m < n, ∃ r parent, position t.ppid m pid = some r ∧ ¬ Owned t.panes r ∧
      t.ppid r = some parent ∧ 1 < parent ∧ parent ≠ r

/-- Every search through the panes of `t` stops there. -/
theorem stops_iff {hit : Int → Option Pane} (hhit : ∀ q, (hit q).isSome = true ↔ Owned t.panes q) :
    Stops hit (nextOf t.ppid) 50 pid q ↔ NearestOwner t pid q := by
  have hnone : ∀ r, hit r = none ↔ ¬ Owned t.panes r := by
    intro r
    rw [← hhit, Option.not_isSome_iff_eq_none]
  unfold Stops NearestOwner nextOf
  simp only [position_filter, hhit, hnone]
  refine exists_congr fun n => and_congr_right fun _ => ?_
  constructor
  · intro h
    obtain ⟨⟨hq, hsteps⟩, howned, hbefore⟩ := h
    refine ⟨hq, howned, fun m hm => ?_⟩
    obtain ⟨r, parent, hr, hparent, hgo⟩ := hsteps m hm
    refine ⟨r, parent, hr, hbefore m hm r ⟨hr, fun i hi => hsteps i (hi.trans hm)⟩, hparent, ?_⟩
    exact of_decide_eq_true hgo
  · intro h
    obtain ⟨hq, howned, hsteps⟩ := h
    refine ⟨⟨hq, fun m hm => ?_⟩, howned, fun m hm d hd => ?_⟩
    · obtain ⟨r, parent, hr, -, hparent, hgo⟩ := hsteps m hm
      exact ⟨r, parent, hr, hparent, decide_eq_true hgo⟩
    · obtain ⟨r, -, hr, hfree, -⟩ := hsteps m hm
      cases hr.symm.trans hd.1
      exact hfree

theorem findPaneForPid_eq (h : 1 < pid) :
    findPaneForPid t pid none = walk (firstPane t.panes) (nextOf t.ppid) 50 pid := by
  rw [← walkParents_eq h]
  show (if t.panes.isEmpty then none else walkParents t.panes t.ppid 50 pid) = _
  split
  · rename_i hempty
    rw [walkParents_eq h, List.isEmpty_iff.mp hempty]
    refine (Option.eq_none_iff_forall_ne_some.mpr fun pane hpane => ?_).symm
    obtain ⟨c, -, hc⟩ := walk_eq_some_iff.mp hpane
    cases hc
  · rfl

/-- With one pane a pid, the first pane of a pid is its pane. -/
theorem firstPane_eq_some (hpids : (panes.map PaneRow.pid).Nodup) {pane : Pane} :
    firstPane panes pid = some pane ↔ ∃ row ∈ panes, row.pid = pid ∧ pane = paneOf row := by
  unfold firstPane
  rw [Option.map_eq_some_iff]
  constructor
  · intro h
    obtain ⟨row, hrow, rfl⟩ := h
    exact ⟨row, List.mem_of_find?_eq_some hrow, by simpa using List.find?_some hrow, rfl⟩
  · intro h
    obtain ⟨row, hrow, hpid, rfl⟩ := h
    obtain ⟨hit, hhit⟩ := Option.isSome_iff_exists.mp
      (List.find?_isSome.mpr ⟨row, hrow, by simpa using hpid⟩ : (panes.find? fun p => p.pid == pid).isSome)
    have hpid' : hit.pid = pid := by simpa using List.find?_some hhit
    have hsame : hit = row :=
      List.inj_on_of_nodup_map hpids (List.mem_of_find?_eq_some hhit) hrow (hpid'.trans hpid.symm)
    exact ⟨hit, hhit, by rw [hsame]⟩

/-- It asks `ps` at most fifty times, and returns the pane of the nearest process that
owns one or, where there is none, nothing. -/
theorem nearest_pane (hpids : (t.panes.map PaneRow.pid).Nodup) (h : 1 < pid) :
    (findPaneForPidAsked t pid).1 = findPaneForPid t pid none ∧
      (findPaneForPidAsked t pid).2.length ≤ 50 ∧
      (∀ pane, findPaneForPid t pid none = some pane ↔
        ∃ row ∈ t.panes, NearestOwner t pid row.pid ∧ pane = paneOf row) ∧
      (findPaneForPid t pid none = none ↔ ¬ ∃ row ∈ t.panes, NearestOwner t pid row.pid) := by
  have hsome : ∀ pane, findPaneForPid t pid none = some pane ↔
      ∃ row ∈ t.panes, NearestOwner t pid row.pid ∧ pane = paneOf row := by
    intro pane
    rw [findPaneForPid_eq h, walk_eq_some_iff]
    simp only [stops_iff fun q => firstPane_isSome, firstPane_eq_some hpids]
    constructor
    · intro hpane
      obtain ⟨q, hq, row, hrow, rfl, hrowPane⟩ := hpane
      exact ⟨row, hrow, hq, hrowPane⟩
    · intro hpane
      obtain ⟨row, hrow, hq, hrowPane⟩ := hpane
      exact ⟨row.pid, hq, row, hrow, rfl, hrowPane⟩
  refine ⟨findPaneForPidAsked_fst, findPaneForPidAsked_length, hsome, ?_⟩
  rw [Option.eq_none_iff_forall_ne_some]
  constructor
  · intro hnone hrow
    obtain ⟨row, hrow, hq⟩ := hrow
    exact hnone _ ((hsome _).mpr ⟨row, hrow, hq, rfl⟩)
  · intro hnone pane hpane
    obtain ⟨row, hrow, hq, -⟩ := (hsome pane).mp hpane
    exact hnone ⟨row, hrow, hq⟩

def rowAt (pid : Int) (session pane : JsString) : PaneRow :=
  { pid, session, pane, windowIndex := 0, active := true }

/-- Process 9 runs under 7, the process of a pane. -/
def oneShell : TmuxHost :=
  { panes := [rowAt 7 (js "work") (js "%1")], ppid := fun pid => if pid = 9 then some 7 else none }

theorem nearest_pane_shell : findPaneForPid oneShell 9 none = some ⟨js "work", js "%1"⟩ ∧
    NearestOwner oneShell 9 7 := by
  have hrun := (@nearest_pane 9 oneShell (by decide) (by decide)).2.2.1 ⟨js "work", js "%1"⟩
  have hpane : findPaneForPid oneShell 9 none = some ⟨js "work", js "%1"⟩ := by decide +kernel
  obtain ⟨row, hrow, hq, -⟩ := hrun.mp hpane
  cases List.mem_singleton.mp hrow
  exact ⟨hpane, hq⟩

end Conductor.Tmux.PaneWalk
