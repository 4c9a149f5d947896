import Conductor.Cli.ShownEntries
import Conductor.Cli.Tables

/-! # What the printed snapshot tells

From the text that `snapshot` prints one reads, row by row, a pid, the pane and the
conflict; and these tell how an inject for the pid ends and what it types where. -/
namespace Conductor.Cli.ToldInjects
open Conductor.Lib.Columns Conductor.Js Conductor.Js.Text Conductor.Js.Number Conductor.Js.Numerals
open Conductor.Js.Values Conductor.Sessions.Types Conductor.Sessions.Lock Conductor.Sessions.Snapshot
open Conductor.Sessions.ConflictScan Conductor.Sessions.RefinedStatus Conductor.Discovery.Providers
open Conductor.Tmux.TmuxMap Conductor.Tmux.Effects Conductor.Mcp.Tools Conductor.Cli.InjectCmd
open Conductor.Tmux.Audit (confidenceText)
open Conductor.Cli.Args Conductor.Cli.RepeatedFlags Conductor.Cli.Commands Conductor.Cli.SnapshotAgreement
open Conductor.Cli.ConflictAgreement Conductor.Cli.InjectAgreement Conductor.Cli.ShownEntries Conductor.Cli.Tables

/-! ## Reading a row -/

def readNat (cell : JsString) : Option Nat :=
  if cell ≠ [] ∧ cell.all isDigit = true then some (digitsValue cell) else none

def readInt : JsString → Option Int
  | 0x2D :: cell => (readNat cell).map fun n => -(n : Int)
  | cell => (readNat cell).map Int.ofNat

/-- A cell that shows a dash for nothing. -/
def unlessDash (cell : JsString) : Option JsString := if cell = js "—" then none else some cell

structure Told where
  pid : Int
  pane : Option JsString
  conflict : Option Int
  deriving DecidableEq

/-- The pane is what follows the last colon. -/
def readPane (cell : JsString) : Option JsString :=
  (unlessDash cell).map fun cell => (cell.splitOn 0x3A).getLastD []

def readConflict (cell : JsString) : Option (Option Int) :=
  match unlessDash cell with
  | none => some none
  | some cell => (readInt cell).map some

def readRow : List JsString → Option Told
  | [pid, _, _, _, _, tmux, conflict, _] => do
    let pid ← readInt pid
    let conflict ← readConflict conflict
    return ⟨pid, readPane tmux, conflict⟩
  | _ => none

/-- How an inject for the pid of the row ends, and the keys that are sent. -/
def Told.inject (sendFails : Bool) (row : Told) (a : Ask) : Ending × List (List JsString) :=
  match row.pane with
  | none => (.noPane, [])
  | some pane => match if a.force then none else row.conflict with
    | some other => (.collision other, [])
    | none =>
      if a.dryRun then (.dryRun, [])
      else (if sendFails then .sendFailed else .sent, [sendKeys pane a.text])

def keysOf (ts : List Trace) : List (List JsString) :=
  ts.filterMap fun
    | .keys args => some args
    | .audit _ => none

/-- Texts that a table shows as they are. -/
structure PlainEntry (e : SnapshotEntry) : Prop where
  repo : 10 ∉ e.repo
  branch : ∀ s ∈ e.branch, 10 ∉ s
  suggestion : 10 ∉ e.suggestion
  session : ∀ pane ∈ e.tmux, 10 ∉ pane.session
  pane : ∀ pane ∈ e.tmux, 10 ∉ pane.pane ∧ 0x20 ∉ pane.pane ∧ 0x3A ∉ pane.pane

/-! ## Cells -/

theorem readNat_toString (n : Nat) : readNat (js (toString n)) = some n := by
  rw [readNat, if_pos ⟨toString_ne_nil n, List.all_eq_true.mpr (digits_toString n)⟩, digitsValue_toString]

theorem readInt_ofInt (n : Int) : readInt (Text.ofInt n) = some n := by
  cases n with
  | ofNat n =>
    have hnot : ∀ cell : JsString, Text.ofInt (.ofNat n) ≠ 0x2D :: cell := fun cell => not_digit_minus
    unfold readInt
    split
    · rename_i cell heq
      exact absurd heq (hnot cell)
    · exact (congrArg (Option.map Int.ofNat) (readNat_toString n)).trans rfl
  | negSucc n =>
    rw [ofInt_negSucc, readInt, readNat_toString]
    rfl

/-- What ends with other units is not stripped. -/
theorem strip_append {s t : JsString} (hne : t ≠ []) (h : 0x20 ∉ t) : strip 0x20 (s ++ t) = s ++ t := by
  refine List.rdropWhile_eq_self_iff.mpr fun hst => ?_
  have hlast : (s ++ t).getLast hst ≠ 0x20 := by
    rw [List.getLast_append_of_ne_nil hst hne]
    exact fun heq => h (heq ▸ List.getLast_mem hne)
  simpa using hlast

theorem strip_ofInt (n : Int) : strip 0x20 (Text.ofInt n) = Text.ofInt n := by
  by_cases hnil : Text.ofInt n = []
  · rw [hnil]
    rfl
  · exact strip_append (s := []) hnil (space_not_mem_ofInt n)

theorem strip_dash : strip 0x20 (js "—") = js "—" := strip_append (s := []) (by decide) (by decide)

variable {e : SnapshotEntry}

theorem dash_ne_ofInt (n : Int) : Text.ofInt n ≠ js "—" := by
  intro h
  have hread := readInt_ofInt n
  rw [h] at hread
  cases hread

theorem readPane_tmuxText (h : PlainEntry e) : readPane (strip 0x20 (tmuxText e.tmux)) = e.tmux.map (·.pane) := by
  cases htmux : e.tmux with
  | none =>
    rw [tmuxText, strip_dash]
    rfl
  | some pane =>
    obtain ⟨-, hspace, hcolon⟩ := h.pane pane htmux
    have hstrip : strip 0x20 (tmuxText (some pane)) = pane.session ++ 0x3A :: pane.pane := by
      rw [tmuxText, List.append_assoc]
      refine strip_append (List.cons_ne_nil _ _) fun hmem => ?_
      rcases List.mem_cons.mp hmem with hmem | hmem
      · cases hmem
      · exact hspace hmem
    have hcell : pane.session ++ 0x3A :: pane.pane ≠ js "—" := by
      intro heq
      have hmem : (0x3A : UInt16) ∈ js "—" := heq ▸ List.mem_append_right _ List.mem_cons_self
      revert hmem
      decide
    rw [hstrip, readPane, unlessDash, if_neg hcell, Option.map_some, Option.map_some,
      List.splitOn_append_cons_self, List.splitOn_eq_singleton hcolon, List.getLastD_concat]

theorem readConflict_conflictText (conflict : Option Int) :
    readConflict (strip 0x20 (conflictText conflict)) = some conflict := by
  cases conflict with
  | none =>
    rw [conflictText, strip_dash]
    rfl
  | some pid =>
    rw [conflictText, strip_ofInt, readConflict, unlessDash, if_neg (dash_ne_ofInt pid)]
    exact congrArg (Option.map some) (readInt_ofInt pid)

def toldOf (e : SnapshotEntry) : Told := ⟨e.pid, e.tmux.map (·.pane), e.conflict⟩

/-- The row of an entry is read. -/
theorem readRow_entry (h : PlainEntry e) :
    readRow (snapshotColumns.map fun c => strip 0x20 (clamp (c.get e) c.max)) = some (toldOf e) := by
  show (readInt (strip 0x20 (Text.ofInt e.pid))).bind (fun pid =>
    (readConflict (strip 0x20 (conflictText e.conflict))).bind fun conflict =>
      some (Told.mk pid (readPane (strip 0x20 (tmuxText e.tmux))) conflict)) = _
  rw [strip_ofInt, readInt_ofInt, Option.bind_some, readConflict_conflictText, Option.bind_some, readPane_tmuxText h]
  rfl

theorem statusText_oneLine (status : RefinedStatus) : 10 ∉ Conductor.Timeseries.Prometheus.statusText status := by
  cases status <;> decide

theorem confidenceText_oneLine (confidence : Confidence) : 10 ∉ confidenceText confidence := by
  cases confidence <;> decide

theorem newline_not_mem_ofInt (n : Int) : 10 ∉ Text.ofInt n := by
  intro h
  cases n with
  | ofNat i => cases digits_toString i _ h
  | negSucc i =>
    rw [ofInt_negSucc] at h
    rcases List.mem_cons.mp h with h | h
    · cases h
    · cases digits_toString (i + 1) _ h

theorem conflictText_oneLine (conflict : Option Int) : 10 ∉ conflictText conflict := by
  cases conflict with
  | none => decide
  | some pid => exact newline_not_mem_ofInt pid

theorem tmuxText_oneLine (h : PlainEntry e) : 10 ∉ tmuxText e.tmux := by
  cases htmux : e.tmux with
  | none => decide
  | some pane =>
    intro hmem
    rcases List.mem_append.mp hmem with hmem | hmem
    · rcases List.mem_append.mp hmem with hmem | hmem
      · exact h.session pane htmux hmem
      · revert hmem
        decide
    · exact (h.pane pane htmux).1 hmem

theorem branch_oneLine (h : PlainEntry e) : 10 ∉ e.branch.getD (js "—") := by
  cases hbranch : e.branch with
  | none => decide
  | some branch => exact h.branch branch hbranch

theorem oneLine_of_plain {E : List SnapshotEntry} (h : ∀ e ∈ E, PlainEntry e) : OneLine E snapshotColumns := by
  refine ⟨by decide, fun c hc e he => ?_⟩
  have hplain := h e he
  simp only [snapshotColumns, List.mem_cons, List.not_mem_nil, or_false] at hc
  rcases hc with rfl | rfl | rfl | rfl | rfl | rfl | rfl | rfl
  · exact newline_not_mem_ofInt e.pid
  · exact hplain.repo
  · exact branch_oneLine hplain
  · exact statusText_oneLine e.status
  · exact confidenceText_oneLine e.confidence
  · exact tmuxText_oneLine hplain
  · exact conflictText_oneLine e.conflict
  · exact hplain.suggestion

/-! ## Injects -/

/-- The row promises what its entry does, up to what is written to the log. -/
theorem told_inject (sendFails : Bool) (e : SnapshotEntry) (a : Ask) :
    (toldOf e).inject sendFails a = ((promised sendFails e a).1, keysOf (promised sendFails e a).2) := by
  unfold Told.inject promised toldOf
  cases e.tmux with
  | none => rfl
  | some pane =>
    simp only [Option.map_some]
    cases (if a.force then none else e.conflict) with
    | some other => rfl
    | none =>
      cases a.dryRun with
      | true => rfl
      | false => cases sendFails <;> rfl

/-- Calls of the tool and of the command end as decided, with these keys. -/
structure Decides (w : World) (a : Ask) (d : Ending × List (List JsString)) : Prop where
  tool : ∀ args, AskedOfTool args a →
    (∀ ending, ToolEnds a.pid (injectTool w args) ending ↔ ending = d.1) ∧
      keysOf (traces (injectTool w args).effects) = d.2
  command : ∀ f now, a.text ≠ [] → AskedOfCmd f a →
    (∀ ending, CmdEnds a.pid (injectCmd { w with now := now } f) ending ↔ ending = d.1) ∧
      keysOf (traces (injectCmd { w with now := now } f).effects) = d.2

/-- The sessions of Claude Code are asked for, as they are unless a flag says otherwise. -/
structure OfClaudeCode (args : ParsedArgs) : Prop where
  all : flagBool args [js "all-providers"] = false
  provider : (flagString args [js "provider"]).getD DEFAULT_PROVIDER_NAME = DEFAULT_PROVIDER_NAME

variable {w : CliWorld} {args : ParsedArgs} {E : List SnapshotEntry}

theorem selectSessions_claudeCode (h : OfClaudeCode args) :
    selectSessions w args = some (claudeCodeDiscover w.host) := by
  unfold selectSessions
  rw [h.all, h.provider]
  rfl

/-- The snapshot of two sessions in one directory, the first one in a pane. -/
def sharedEntries : List SnapshotEntry :=
  (buildSnapshot ⟨sharedCli.fs, sharedCli.tmux, sharedCli.now, sharedCli.cache⟩ sharedCli.disk
    (claudeCodeDiscover sharedCli.host)).toOption.getD []

theorem snapshotCmd_sharedCli : .print (.snapshot sharedEntries) ∈ (snapshotCmd sharedCli (parseArgs [])).effects := by
  have hlist : selectSessions sharedCli (parseArgs []) =
      some [⟨100, js "/w", js "w", none, none⟩, ⟨200, js "/w", js "w", none, none⟩] := by decide +kernel
  have hdiscovered := (selectSessions_claudeCode ⟨rfl, rfl⟩).symm.trans hlist
  unfold sharedEntries snapshotCmd
  rw [hlist, Option.some.inj hdiscovered]
  exact List.mem_cons_self

end Conductor.Cli.ToldInjects
