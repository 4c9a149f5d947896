import Conductor.Cli.SnapshotAgreement
import Conductor.Lib.Columns

/-! # The printed tables

`renderTable` cuts every cell at the width of its column and fills the lines up.
The text is read back, through the rule under the header, into the cells as they were
cut, whatever text is printed behind the table. -/
namespace Conductor.Cli.Tables
open Conductor.Lib.Columns Conductor.Lib.Traces Conductor.Js.Text Conductor.Js.Values Conductor.Sessions.Types
open Conductor.Sessions.Snapshot Conductor.Tmux.TmuxMap Conductor.Cli.Args Conductor.Cli.Commands
open Conductor.Timeseries.Prometheus (statusText)
open Conductor.Tmux.Audit (confidenceText)
open Conductor.Cli.InjectCmd (twoProcesses claudeCommand)

/-! ## Rendering -/

structure Column (α : Type) where
  header : JsString
  get : α → JsString
  max : Option Nat

variable {α : Type}

def clamp (s : JsString) (max : Option Nat) : JsString :=
  match max with
  | none | some 0 => s
  | some max => if s.length ≤ max then s else s.take (max - 1) ++ js "…"

def cellsOf (cols : List (Column α)) (row : α) : List JsString := cols.map fun c => clamp (c.get row) c.max

/-- `Math.max(c.header.length, ...cells.map((r) => r[i].length))`. -/
def columnWidth (cells : List (List JsString)) (c : Column α) (i : Nat) : Nat :=
  cells.foldl (fun w r => max w (r.getD i []).length) c.header.length

def renderTable (rows : List α) (cols : List (Column α)) : JsString :=
  if rows.length = 0 then js "(empty)\n"
  else
    let cells := rows.map (cellsOf cols)
    let widths := cols.zipIdx.map fun (c, i) => columnWidth cells c i
    let sep := rule 0x2500 0x253C widths
    let header := rowLine 0x20 (js " │ ") widths (cols.map (·.header))
    header ++ js "\n" ++ (sep ++ js "\n") ++ cells.flatMap fun r => rowLine 0x20 (js " │ ") widths r ++ js "\n"

/-! ## The tables of the commands -/

def sessionColumns : List (Column LocalSession) := [
  ⟨js "PID", fun s => ofInt s.pid, none⟩,
  ⟨js "REPO", fun s => s.repoName, some 22⟩,
  ⟨js "BRANCH", fun s => s.branch.getD (js "—"), some 18⟩,
  ⟨js "CWD", fun s => s.cwd, some 48⟩,
  ⟨js "TRANSCRIPT", fun s => if s.transcriptPath.getD [] = [] then js "no" else js "yes", none⟩]

def paneColumns : List (Column PaneRow) := [
  ⟨js "PID", fun p => ofInt p.pid, none⟩,
  ⟨js "SESSION", fun p => p.session, some 24⟩,
  ⟨js "PANE", fun p => p.pane, none⟩]

def tmuxText : Option Pane → JsString
  | none => js "—"
  | some pane => pane.session ++ js ":" ++ pane.pane

def conflictText : Option Int → JsString
  | none => js "—"
  | some pid => ofInt pid

def snapshotColumns : List (Column SnapshotEntry) := [
  ⟨js "PID", fun e => ofInt e.pid, none⟩,
  ⟨js "REPO", fun e => e.repo, some 18⟩,
  ⟨js "BRANCH", fun e => e.branch.getD (js "—"), some 16⟩,
  ⟨js "STATUS", fun e => statusText e.status, none⟩,
  ⟨js "CONFIDENCE", fun e => confidenceText e.confidence, none⟩,
  ⟨js "TMUX", fun e => tmuxText e.tmux, none⟩,
  ⟨js "CONFLICT", fun e => conflictText e.conflict, none⟩,
  ⟨js "SUGGESTION", fun e => e.suggestion, some 40⟩]

/-- What the three commands print when there is something to show. -/
def sessionsText (sessions : List LocalSession) : JsString :=
  renderTable sessions sessionColumns ++ js "\nDiscovered: " ++ ofInt sessions.length ++ js "\n"

def panesText (panes : List PaneRow) : JsString :=
  renderTable panes paneColumns ++ js "\nPanes: " ++ ofInt panes.length ++ js "\n"

def snapshotText (generated_at : JsString) (entries : List SnapshotEntry) : JsString :=
  renderTable entries snapshotColumns ++ js "\nGenerated at: " ++ generated_at ++ js "\nSessions: " ++
    ofInt entries.length ++ js "\n"

/-! ## Reading -/

structure ReadTable where
  header : List JsString
  rows : List (List JsString)
  deriving DecidableEq

/-- The lines up to the first empty one, cut at the widths of the second. -/
def readTable (text : JsString) : Option ReadTable :=
  match (lines text).takeWhile fun line => decide (line ≠ []) with
  | header :: sep :: rows =>
    let widths := widthsOf 0x2500 0x253C sep
    some ⟨readLine 0x20 3 widths header, rows.map (readLine 0x20 3 widths)⟩
  | _ => none

/-- Texts that stay on their line. -/
structure OneLine (rows : List α) (cols : List (Column α)) : Prop where
  headers : ∀ c ∈ cols, 10 ∉ c.header
  cells : ∀ c ∈ cols, ∀ row ∈ rows, 10 ∉ c.get row

/-! ## Widths -/

theorem le_columnWidth (cells : List (List JsString)) (c : Column α) (i : Nat) :
    c.header.length ≤ columnWidth cells c i ∧ ∀ r ∈ cells, (r.getD i []).length ≤ columnWidth cells c i := by
  have hfold : ∀ (cells : List (List JsString)) (n : Nat),
      n ≤ cells.foldl (fun w r => max w (r.getD i []).length) n ∧
        ∀ r ∈ cells, (r.getD i []).length ≤ cells.foldl (fun w r => max w (r.getD i []).length) n := by
    intro cells
    induction cells with
    | nil => exact fun n => ⟨Nat.le_refl n, fun r hr => by cases hr⟩
    | cons r cells ih =>
      intro n
      obtain ⟨hle, hall⟩ := ih (max n (r.getD i []).length)
      refine ⟨(Nat.le_max_left _ _).trans hle, fun r' hr' => ?_⟩
      rcases List.mem_cons.mp hr' with rfl | hr'
      · exact (Nat.le_max_right _ _).trans hle
      · exact hall r' hr'
  exact hfold cells c.header.length

/-- Cells in the order of the columns fit into widths that are known by index. -/
theorem fits_widths {cols : List (Column α)} {width : Column α → Nat → Nat} {f : Column α → JsString}
    (h : ∀ c i, (c, i) ∈ cols.zipIdx → (f c).length ≤ width c i) :
    List.Forall₂ (fun w cell => cell.length ≤ w) (cols.zipIdx.map fun (c, i) => width c i) (cols.map f) := by
  have hcols : cols.map f = cols.zipIdx.map fun p => f p.1 := by
    rw [← Function.comp_def f Prod.fst, ← List.map_map, List.zipIdx_map_fst]
  rw [hcols, List.forall₂_map_left_iff, List.forall₂_map_right_iff, List.forall₂_same]
  exact fun p hp => h p.1 p.2 hp

theorem getD_cellsOf {cols : List (Column α)} {c : Column α} {i : Nat} (h : (c, i) ∈ cols.zipIdx) (row : α) :
    (cellsOf cols row).getD i [] = clamp (c.get row) c.max := by
  have hget : cols[i]? = some c := List.mk_mem_zipIdx_iff_getElem?.mp h
  rw [cellsOf, List.getD_eq_getElem?_getD, List.getElem?_map, hget]
  rfl

theorem newline_not_mem_clamp {s : JsString} {max : Option Nat} (h : 10 ∉ s) : 10 ∉ clamp s max := by
  unfold clamp
  split
  · exact h
  · exact h
  · split
    · exact h
    · intro hmem
      rcases List.mem_append.mp hmem with hmem | hmem
      · exact h (List.mem_of_mem_take hmem)
      · revert hmem
        decide

/-! ## Lines -/

theorem newline_not_mem_rowLine {widths : List Nat} {cells : List JsString} (h : ∀ cell ∈ cells, 10 ∉ cell) :
    10 ∉ rowLine 0x20 (js " │ ") widths cells := by
  intro hmem
  rcases mem_rowLine hmem with hsep | hfill | ⟨cell, hcell, ha⟩
  · revert hsep
    decide
  · cases hfill
  · exact h cell hcell ha

theorem newline_not_mem_rule (widths : List Nat) : 10 ∉ rule (0x2500 : UInt16) 0x253C widths := by
  intro hmem
  rcases mem_rule hmem with h | h <;> cases h

/-- The lines of a text, each ended, with more text behind them. -/
theorem lines_ended {ls : List JsString} (h : ∀ l ∈ ls, 10 ∉ l) (rest : JsString) :
    lines ((ls.flatMap fun l => l ++ js "\n") ++ rest) = ls ++ lines rest := by
  induction ls with
  | nil => rfl
  | cons l ls ih =>
    have hcut : lines (l ++ (js "\n" ++ ((ls.flatMap fun l => l ++ js "\n") ++ rest))) =
        l :: lines ((ls.flatMap fun l => l ++ js "\n") ++ rest) := lines_cons (h l List.mem_cons_self)
    rw [List.flatMap_cons, List.append_assoc, List.append_assoc, hcut,
      ih fun l hl => h l (List.mem_cons_of_mem _ hl), List.cons_append]

theorem takeWhile_lines {ls : List JsString} (h : ∀ l ∈ ls, 10 ∉ l) (hne : ∀ l ∈ ls, l ≠ []) {rest : JsString}
    (hrest : rest.head? = none ∨ rest.head? = some 10) :
    (lines ((ls.flatMap fun l => l ++ js "\n") ++ rest)).takeWhile (fun l => decide (l ≠ [])) = ls := by
  have hend : (lines rest).takeWhile (fun l => decide (l ≠ [])) = [] := by
    rcases hrest with hrest | hrest
    · rw [List.head?_eq_none_iff.mp hrest]
      rfl
    · obtain ⟨more, rfl⟩ := List.head?_eq_some_iff.mp hrest
      have hlines : lines (10 :: more) = [] :: lines more := lines_cons (s := []) (by simp)
      rw [hlines]
      rfl
  rw [lines_ended h, List.takeWhile_append_of_pos fun l hl => decide_eq_true (hne l hl), hend, List.append_nil]

/-! ## Reading back -/

/-- The cells of a header and of rows, as they are read. -/
def asRead (rows : List α) (cols : List (Column α)) : ReadTable :=
  ⟨cols.map fun c => strip 0x20 c.header, rows.map fun row => cols.map fun c => strip 0x20 (clamp (c.get row) c.max)⟩

/-- A table that has a row is read back, whatever is printed behind it. -/
theorem readTable_renderTable {rows : List α} {cols : List (Column α)} (hrows : rows ≠ []) (h : OneLine rows cols)
    (hnamed : ∃ c ∈ cols, c.header ≠ []) {rest : JsString} (hrest : rest.head? = none ∨ rest.head? = some 10) :
    readTable (renderTable rows cols ++ rest) = some (asRead rows cols) := by
  generalize hcells : rows.map (cellsOf cols) = cells
  generalize hwidths : (cols.zipIdx.map fun (c, i) => columnWidth cells c i) = widths
  have hheader : List.Forall₂ (fun w cell => cell.length ≤ w) widths (cols.map (·.header)) := by
    rw [← hwidths]
    exact fits_widths fun c i _ => (le_columnWidth cells c i).1
  have hfits : ∀ row ∈ rows, List.Forall₂ (fun w cell => cell.length ≤ w) widths (cellsOf cols row) := by
    intro row hrow
    rw [← hwidths]
    refine fits_widths fun c i hci => ?_
    rw [← getD_cellsOf hci row]
    exact (le_columnWidth cells c i).2 _ (hcells ▸ List.mem_map_of_mem hrow)
  obtain ⟨w, hw, hpos⟩ : ∃ w ∈ widths, w ≠ 0 := by
    obtain ⟨c, hc, hne⟩ := hnamed
    obtain ⟨i, hi⟩ := List.getElem?_of_mem hc
    refine ⟨columnWidth cells c i, ?_, ?_⟩
    · rw [← hwidths]
      exact List.mem_map.mpr ⟨(c, i), List.mk_mem_zipIdx_iff_getElem?.mpr hi, rfl⟩
    · have hle := (le_columnWidth cells c i).1
      have hlen := List.length_pos_iff.mpr hne
      omega
  -- the lines that are printed
  have htext : renderTable rows cols ++ rest =
      ((rowLine 0x20 (js " │ ") widths (cols.map (·.header)) :: rule 0x2500 0x253C widths ::
        rows.map fun row => rowLine 0x20 (js " │ ") widths (cellsOf cols row)).flatMap fun l => l ++ js "\n") ++ rest := by
    have hsome : rows.length ≠ 0 := fun hlen => hrows (List.length_eq_zero_iff.mp hlen)
    rw [renderTable, if_neg hsome]
    simp only [hcells, hwidths]
    rw [List.flatMap_cons, List.flatMap_cons, ← hcells, List.flatMap_map, List.flatMap_map]
    simp only [List.append_assoc]
  have hplain : ∀ row ∈ rows, ∀ cell ∈ cellsOf cols row, 10 ∉ cell := by
    intro row hrow cell hcell
    obtain ⟨c, hc, rfl⟩ := List.mem_map.mp hcell
    exact newline_not_mem_clamp (h.cells c hc row hrow)
  have hheaders : ∀ cell ∈ cols.map (·.header), 10 ∉ cell := by
    intro cell hcell
    obtain ⟨c, hc, rfl⟩ := List.mem_map.mp hcell
    exact h.headers c hc
  rw [readTable, htext, takeWhile_lines ?_ ?_ hrest]
  · have hsep : (js " │ ").length = 3 := rfl
    have hread : ∀ row ∈ rows, readLine 0x20 3 widths (rowLine 0x20 (js " │ ") widths (cellsOf cols row)) =
        cols.map fun c => strip 0x20 (clamp (c.get row) c.max) := by
      intro row hrow
      rw [← hsep, readLine_rowLine (hfits row hrow), cellsOf, List.map_map]
      rfl
    simp only [widthsOf_rule (show (0x2500 : UInt16) ≠ 0x253C by decide) (List.ne_nil_of_mem hw), asRead]
    rw [List.map_map, ← hsep, readLine_rowLine hheader, List.map_map]
    refine congrArg some (congrArg (ReadTable.mk _) (List.map_congr_left hread))
  · refine List.forall_mem_cons.mpr ⟨newline_not_mem_rowLine hheaders, List.forall_mem_cons.mpr
      ⟨newline_not_mem_rule widths, fun l hl => ?_⟩⟩
    obtain ⟨row, hrow, rfl⟩ := List.mem_map.mp hl
    exact newline_not_mem_rowLine (hplain row hrow)
  · refine List.forall_mem_cons.mpr ⟨rowLine_ne_nil hheader hw hpos, List.forall_mem_cons.mpr
      ⟨rule_ne_nil hw hpos, fun l hl => ?_⟩⟩
    obtain ⟨row, hrow, rfl⟩ := List.mem_map.mp hl
    exact rowLine_ne_nil (hfits row hrow) hw hpos

/-! ## The three commands -/

theorem named {cols : List (Column α)} {c : Column α} (hc : cols.head? = some c) (hne : c.header ≠ []) :
    ∃ c ∈ cols, c.header ≠ [] := ⟨c, List.mem_of_head? hc, hne⟩

theorem readTable_sessionsText {sessions : List LocalSession} (hsome : sessions ≠ [])
    (h : OneLine sessions sessionColumns) : readTable (sessionsText sessions) = some (asRead sessions sessionColumns) := by
  rw [sessionsText, List.append_assoc, List.append_assoc]
  exact readTable_renderTable hsome h (named rfl (List.cons_ne_nil _ _)) (.inr rfl)

theorem readTable_panesText {panes : List PaneRow} (hsome : panes ≠ []) (h : OneLine panes paneColumns) :
    readTable (panesText panes) = some (asRead panes paneColumns) := by
  rw [panesText, List.append_assoc, List.append_assoc]
  exact readTable_renderTable hsome h (named rfl (List.cons_ne_nil _ _)) (.inr rfl)

theorem readTable_snapshotText {entries : List SnapshotEntry} (hsome : entries ≠ [])
    (h : OneLine entries snapshotColumns) (generated_at : JsString) :
    readTable (snapshotText generated_at entries) = some (asRead entries snapshotColumns) := by
  rw [snapshotText, List.append_assoc, List.append_assoc, List.append_assoc, List.append_assoc]
  exact readTable_renderTable hsome h (named rfl (List.cons_ne_nil _ _)) (.inr rfl)

/-- A printed table whose texts stay on their lines, and what is to be read from it. -/
inductive Prints (generated_at : JsString) : Shown → JsString → ReadTable → Prop
  | snapshot {entries : List SnapshotEntry} (h : OneLine entries snapshotColumns) :
      Prints generated_at (.snapshot entries) (snapshotText generated_at entries) (asRead entries snapshotColumns)
  | sessions {sessions : List LocalSession} (h : OneLine sessions sessionColumns) :
      Prints generated_at (.sessions sessions) (sessionsText sessions) (asRead sessions sessionColumns)
  | panes {rows : List PaneRow} (h : OneLine rows paneColumns) :
      Prints generated_at (.panes rows) (panesText rows) (asRead rows paneColumns)

/-- What holds of a value that the effect prints as text. -/
def OnPrint (Q : Shown → Prop) (e : CliEffect) : Prop := ∀ v, e = .print v → Q v

/-- Where the effect prints such a table, it is read back. -/
def ReadsBack (generated_at : JsString) : CliEffect → Prop :=
  OnPrint fun v => ∀ text t, Prints generated_at v text t → readTable text = some t

section Commands

variable {Q : Shown → Prop}

theorem onPrint_of_ne {e : CliEffect} (h : ∀ v, e ≠ .print v) : OnPrint Q e := fun v he => absurd he (h v)

theorem onPrint_stdout (text : JsString) : Only (OnPrint Q) (stdout text) :=
  only_emit.mpr (onPrint_of_ne fun _ h => by cases h)

theorem onPrint_stderr (text : JsString) : Only (OnPrint Q) (stderr text) :=
  only_emit.mpr (onPrint_of_ne fun _ h => by cases h)

theorem onPrint_help (onStderr : Bool) (command : String) : Only (OnPrint Q) (help onStderr command) :=
  only_emit.mpr (onPrint_of_ne fun _ h => by cases h)

theorem onPrint_print {w : CliWorld} {v : Shown} (h : Q v) : Only (OnPrint Q) (print w v) := by
  refine only_bind (only_emit.mpr fun v' hv => ?_) fun _ _ => ?_
  · cases hv
    exact h
  · cases w.printError v with
    | none => exact only_pure _
    | some e => exact only_eval _

theorem onPrint_jsonOr {args : ParsedArgs} {v : Shown} {text : Traced CliEffect JsError Unit}
    (h : Only (OnPrint Q) text) : Only (OnPrint Q) (jsonOr args v text) := by
  unfold jsonOr
  split
  · exact only_emit.mpr (onPrint_of_ne fun _ h => by cases h)
  · exact h

/-- Something, and then a code. -/
theorem onPrint_code {c : Traced CliEffect JsError Unit} (h : Only (OnPrint Q) c) (code : Nat) :
    Only (OnPrint Q) (do c; return some code) :=
  only_bind h fun _ _ => only_pure _

theorem onPrint_unknownProvider (args : ParsedArgs) : Only (OnPrint Q) (unknownProvider args) :=
  onPrint_code (onPrint_stderr _) 2

variable {generated_at : JsString}

/-- The entries of the sessions that are selected, of which there are some. -/
def OfSelected (w : CliWorld) (args : ParsedArgs) (v : Shown) : Prop :=
  ∃ sessions entries, selectSessions w args = some sessions ∧
    buildSnapshot ⟨w.fs, w.tmux, w.now, w.cache⟩ w.disk sessions = .ok entries ∧ entries ≠ [] ∧ v = .snapshot entries

theorem snapshotCmd_prints (w : CliWorld) (args : ParsedArgs) : Only (OnPrint (OfSelected w args)) (snapshotCmd w args) := by
  unfold snapshotCmd
  split
  · exact onPrint_code (onPrint_help false "snapshot") 0
  split
  · exact onPrint_unknownProvider args
  · exact onPrint_code (onPrint_jsonOr (only_bind (onPrint_stdout _) fun _ _ => onPrint_stdout _)) 0
  · rename_i sessions hne hsel
    refine only_bind (only_eval _) fun snap hsnap => onPrint_code (onPrint_jsonOr (onPrint_print ?_)) 0
    have hlen := (buildSnapshot_entries hsnap).length_eq
    refine ⟨sessions, snap, hsel, hsnap, fun hnil => hne ?_, rfl⟩
    rw [hnil] at hlen
    rw [List.length_eq_zero_iff.mp hlen]

theorem readsBack_snapshotCmd (w : CliWorld) (args : ParsedArgs) : Only (ReadsBack generated_at) (snapshotCmd w args) := by
  intro e he v hv text t hprints
  obtain ⟨-, entries, -, -, hsome, rfl⟩ := snapshotCmd_prints w args e he v hv
  cases hprints with
  | snapshot h => exact readTable_snapshotText hsome h generated_at

theorem readsBack_sessionsCmd (w : CliWorld) (args : ParsedArgs) : Only (ReadsBack generated_at) (sessionsCmd w args) := by
  unfold sessionsCmd
  split
  · exact onPrint_code (onPrint_help false "sessions") 0
  split
  · exact onPrint_unknownProvider args
  · refine onPrint_code (onPrint_jsonOr ?_) 0
    split
    · exact onPrint_stdout _
    · rename_i hsome
      refine onPrint_print fun text t hprints => ?_
      cases hprints with
      | sessions h => exact readTable_sessionsText (by simpa using hsome) h

theorem readsBack_tmuxCmd (w : CliWorld) (args : ParsedArgs) : Only (ReadsBack generated_at) (tmuxCmd w args) := by
  have hpanes : Only (ReadsBack generated_at) (runPanes w args) := by
    refine onPrint_code (onPrint_jsonOr ?_) 0
    split
    · exact onPrint_stdout _
    · rename_i hsome
      refine onPrint_print fun text t hprints => ?_
      cases hprints with
      | panes h => exact readTable_panesText (by simpa using hsome) h
  have hfind : Only (ReadsBack generated_at) (runFind w args) := by
    unfold runFind
    split
    · exact onPrint_code (onPrint_stderr _) 2
    · refine onPrint_code (onPrint_jsonOr ?_) 0
      split
      · exact onPrint_stdout _
      · exact onPrint_stdout _
  unfold tmuxCmd
  split
  · exact onPrint_code (onPrint_help false "tmux") 0
  simp only
  split
  · exact hpanes
  split
  · exact hfind
  · exact only_bind (onPrint_stderr _) fun _ _ => onPrint_code (onPrint_help true "tmux") 2

end Commands

/-- Whatever the arguments and the world: each table that `snapshot`, `sessions` and `tmux`
print, with text behind it, is read back into its cells, also where a cell holds
what separates the columns. -/
theorem printed_tables_read (generated_at : JsString) (w : CliWorld) (args : ParsedArgs) :
    (∀ e ∈ (snapshotCmd w args).effects, ReadsBack generated_at e) ∧
      (∀ e ∈ (sessionsCmd w args).effects, ReadsBack generated_at e) ∧
      ∀ e ∈ (tmuxCmd w args).effects, ReadsBack generated_at e :=
  ⟨readsBack_snapshotCmd w args, readsBack_sessionsCmd w args, readsBack_tmuxCmd w args⟩

/-- A directory is named like a separator. -/
def separatedCli : CliWorld :=
  { SnapshotAgreement.sharedCli with toWorld := twoProcesses claudeCommand claudeCommand (js "/a │ b") }

/-- The row of its session is read back into five cells, as is that of the other one. -/
theorem printed_tables_read_separator : ∃ sessions,
    .print (.sessions sessions) ∈ (sessionsCmd separatedCli (parseArgs [])).effects ∧
    (readTable (sessionsText sessions)).map (·.rows) =
      some [[js "100", js "w", js "—", js "/w", js "no"], [js "200", js "a │ b", js "—", js "/a │ b", js "no"]] := by
  have hselected : selectSessions separatedCli (parseArgs []) =
      some [⟨100, js "/w", js "w", none, none⟩, ⟨200, js "/a │ b", js "a │ b", none, none⟩] := by decide +kernel
  have hprinted : .print (.sessions [⟨100, js "/w", js "w", none, none⟩, ⟨200, js "/a │ b", js "a │ b", none, none⟩]) ∈
      (sessionsCmd separatedCli (parseArgs [])).effects := by
    unfold sessionsCmd
    rw [hselected]
    exact List.mem_cons_self
  refine ⟨_, hprinted, ?_⟩
  rw [(printed_tables_read [] separatedCli (parseArgs [])).2.1 _ hprinted _ rfl _ _ (.sessions ⟨by decide, by decide⟩)]
  decide

end Conductor.Cli.Tables
