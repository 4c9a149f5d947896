import Conductor.Js.ToNumber
import Conductor.Lib.Framing

/-! # The rows of `tmux list-panes`

One line a pane, its fields separated by blanks, and the session name, which
may hold blanks itself, before the id of the pane. The pid stands first and is
always read; the other fields move with every blank in the name. -/
namespace Conductor.Tmux.ListPanes
open Conductor.Js.Text Conductor.Js.Number Conductor.Js.ToNumber Conductor.Js.Numerals
open Conductor.Lib.Framing

/-- A row as it is read: a field that is no number is `NaN`. -/
structure ParsedRow where
  pid : JsNumber
  session : JsString
  pane : JsString
  windowIndex : JsNumber
  active : Bool
  deriving DecidableEq

def rowOfLine (line : JsString) : ParsedRow :=
  let parts := line.splitOn 0x20
  { pid := parseInt (parts[0]?.getD (js "0"))
    session := parts[1]?.getD []
    pane := parts[2]?.getD []
    windowIndex := parseInt (parts[3]?.getD (js "0"))
    active := decide (parts[4]? = some (js "1")) }

/-- The rows of what tmux printed, none when the command failed or printed more than
the `maxBuffer` of `execFile`. -/
def listAllPanes : Option JsString → List ParsedRow
  | none => []
  | some stdout => ((lines (trim stdout)).filter fun l => decide (0 < l.length)).map rowOfLine

/-! ## What tmux prints -/

/-- `#{pane_id}`. -/
def paneId (number : Nat) : JsString := 0x25 :: js (toString number)

structure TmuxPane where
  pid : Nat
  session : JsString
  number : Nat
  windowIndex : Nat
  active : Bool
  pid_lt : pid < 2 ^ 53
  windowIndex_lt : windowIndex < 2 ^ 53
  session_line : 10 ∉ session

def TmuxPane.id (p : TmuxPane) : JsString := paneId p.number

def TmuxPane.flag (p : TmuxPane) : UInt16 := if p.active then 0x31 else 0x30

/-- `#{pane_pid} #{session_name} #{pane_id} #{window_index} #{pane_active}`. -/
def TmuxPane.line (p : TmuxPane) : JsString :=
  js (toString p.pid) ++ 0x20 :: (p.session ++ 0x20 :: (p.id ++ 0x20 ::
    (js (toString p.windowIndex) ++ 0x20 :: [p.flag])))

/-- What `tmux list-panes -aF` prints; it is taken to fit into the buffer. -/
def output (panes : List TmuxPane) : JsString := frame 10 (panes.map (·.line))

/-- The row that says all of it. -/
def TmuxPane.row (p : TmuxPane) : ParsedRow :=
  { pid := .finite p.pid, session := p.session, pane := p.id, windowIndex := .finite p.windowIndex
    active := p.active }

/-! ## The fields of a line -/

theorem not_mem_toString {u : UInt16} (hu : isDigit u = false) (n : Nat) : u ∉ js (toString n) := by
  intro h
  rw [digits_toString n u h] at hu
  cases hu

theorem not_mem_paneId {u : UInt16} (hu : isDigit u = false) (hne : u ≠ 0x25) (n : Nat) :
    u ∉ paneId n := by
  rw [paneId, List.mem_cons, not_or]
  exact ⟨hne, not_mem_toString hu n⟩

theorem not_mem_flag {u : UInt16} (hu : isDigit u = false) (p : TmuxPane) : u ∉ [p.flag] := by
  intro h
  rw [List.mem_singleton] at h
  subst h
  unfold TmuxPane.flag at hu
  split at hu
  · cases hu
  · cases hu

/-- The words of the session name stand where the name should. -/
theorem splitOn_line (p : TmuxPane) : p.line.splitOn 0x20 = js (toString p.pid) ::
    (p.session.splitOn 0x20 ++ [p.id, js (toString p.windowIndex), [p.flag]]) := by
  rw [TmuxPane.line, TmuxPane.id, List.splitOn_append_cons_self_of_not_mem (not_mem_toString rfl _),
    List.splitOn_append_cons_self, List.splitOn_append_cons_self_of_not_mem (not_mem_paneId rfl (by decide) _),
    List.splitOn_append_cons_self_of_not_mem (not_mem_toString rfl _),
    List.splitOn_eq_singleton (not_mem_flag rfl p)]

theorem newline_not_mem_line (p : TmuxPane) : 10 ∉ p.line := by
  simp only [TmuxPane.line, List.mem_append, List.mem_cons, not_or]
  exact ⟨not_mem_toString rfl _, by decide, p.session_line, by decide, not_mem_paneId rfl (by decide) _,
    by decide, not_mem_toString rfl _, by decide, by simpa using not_mem_flag rfl p⟩

/-- The session is cut at its first blank, and what follows the blank is taken
for the pane. -/
theorem rowOfLine_of_blank {p : TmuxPane} {s t : JsString} (h : p.session = s ++ 0x20 :: t)
    (hs : 0x20 ∉ s) : (rowOfLine p.line).session = s ∧
      some (rowOfLine p.line).pane = (t.splitOn 0x20).head? := by
  have hsplit : p.session.splitOn 0x20 = s :: t.splitOn 0x20 := by
    rw [h, List.splitOn_append_cons_self_of_not_mem hs]
  obtain ⟨w, ws, hw⟩ := List.exists_cons_of_ne_nil (List.splitOn_ne_nil 0x20 t)
  simp [rowOfLine, splitOn_line, hsplit, hw]

/-- A line says its pane when no blank stands in the name. -/
theorem rowOfLine_line_iff (p : TmuxPane) : rowOfLine p.line = p.row ↔ 0x20 ∉ p.session := by
  constructor
  · intro h hmem
    obtain ⟨s, t, hst, hs⟩ := List.eq_append_cons_of_mem hmem
    have hcut : (rowOfLine p.line).session = s := (rowOfLine_of_blank hst hs).1
    rw [h] at hcut
    have hlen := congrArg List.length (hst.symm.trans hcut)
    simp at hlen
  · intro h
    have hsplit := splitOn_line p
    rw [List.splitOn_eq_singleton h] at hsplit
    have hactive : decide ([p.flag] = js "1") = p.active := by
      unfold TmuxPane.flag
      cases p.active with
      | true => rfl
      | false => rfl
    simp only [rowOfLine, hsplit, List.singleton_append, List.getElem?_cons_zero,
      List.getElem?_cons_succ, Option.getD_some, Option.some.injEq, parseInt_toString p.pid_lt,
      parseInt_toString p.windowIndex_lt, hactive, TmuxPane.row]

/-! ## The lines of the output -/

theorem lines_frame {rs : List JsString} (h : ∀ r ∈ rs, 10 ∉ r) : lines (frame 10 rs) = rs ++ [[]] := by
  induction rs with
  | nil => rfl
  | cons r rs ih =>
    have hr : 10 ∉ r := h r (by simp)
    have ih' := ih fun r' hr' => h r' (by simp [hr'])
    have hcons : frame 10 (r :: rs) = r ++ 10 :: frame 10 rs := by simp [frame]
    rw [hcons, lines_cons hr, ih']
    rfl

theorem output_head {panes : List TmuxPane} (h : panes ≠ []) :
    ∃ u s, output panes = u :: s ∧ isDigit u = true := by
  obtain ⟨p, ps, rfl⟩ := List.exists_cons_of_ne_nil h
  obtain ⟨u, ds, hu⟩ := List.exists_cons_of_ne_nil (toString_ne_nil p.pid)
  have hdigit : isDigit u = true := digits_toString p.pid u (hu ▸ List.mem_cons_self)
  have hcons : ∃ s, output (p :: ps) = u :: s := by
    simp [output, frame, TmuxPane.line, hu, -Nat.toString_eq_repr]
  obtain ⟨s, hs⟩ := hcons
  exact ⟨u, s, hs, hdigit⟩

theorem output_last {panes : List TmuxPane} (h : panes ≠ []) :
    ∃ s u, output panes = s ++ [u] ++ [10] ∧ isDigit u = true := by
  obtain ⟨init, p, rfl⟩ := (List.eq_nil_or_concat panes).resolve_left h
  obtain ⟨s, hs⟩ : ∃ s, p.line = s ++ [p.flag] := by
    unfold TmuxPane.line
    exact ⟨js (toString p.pid) ++ 0x20 :: (p.session ++ 0x20 :: (p.id ++ 0x20 ::
      (js (toString p.windowIndex) ++ [0x20]))), by simp⟩
  refine ⟨frame 10 (init.map (·.line)) ++ s, p.flag, ?_, ?_⟩
  · rw [output, List.concat_eq_append, List.map_append, frame_append, List.map_singleton,
      frame_singleton, hs]
    simp
  · unfold TmuxPane.flag
    cases p.active with
    | true => rfl
    | false => rfl

/-- Only the last newline is stripped. -/
theorem trim_output {panes : List TmuxPane} (h : panes ≠ []) : output panes = trim (output panes) ++ [10] := by
  obtain ⟨u, s, hfirst, hu⟩ := output_head h
  obtain ⟨t, v, hlast, hv⟩ := output_last h
  have hstart : trimStart (output panes) = output panes := by
    rw [hfirst, trimStart, List.dropWhile_cons_of_neg (by simp [isWhiteSpace_of_isDigit hu])]
  have hend : trimEnd (output panes) = t ++ [v] := by
    rw [hlast, trimEnd, List.rdropWhile_concat_pos _ _ _ rfl,
      List.rdropWhile_concat_neg _ _ _ (by simp [isWhiteSpace_of_isDigit hv])]
  rw [trim, hstart, hend]
  exact hlast

theorem lines_output (panes : List TmuxPane) :
    (lines (trim (output panes))).filter (fun l => decide (0 < l.length)) = panes.map (·.line) := by
  rcases eq_or_ne panes [] with rfl | h
  · rfl
  have hall : lines (output panes) = panes.map (·.line) ++ [[]] := by
    refine lines_frame fun r hr => ?_
    obtain ⟨p, _, rfl⟩ := List.mem_map.mp hr
    exact newline_not_mem_line p
  have hlines : lines (trim (output panes)) = panes.map (·.line) := by
    rw [trim_output h, lines, List.splitOn_append_cons_self] at hall
    exact List.append_cancel_right hall
  rw [hlines, List.filter_eq_self]
  intro l hl
  obtain ⟨p, _, rfl⟩ := List.mem_map.mp hl
  simp [TmuxPane.line]

theorem listAllPanes_output (panes : List TmuxPane) :
    listAllPanes (some (output panes)) = panes.map fun p => rowOfLine p.line := by
  rw [listAllPanes, lines_output, List.map_map]
  rfl

/-- The rows are the panes when no session has a blank in its name. -/
theorem panes_intact_iff (panes : List TmuxPane) :
    listAllPanes (some (output panes)) = panes.map (·.row) ↔ ∀ p ∈ panes, 0x20 ∉ p.session := by
  rw [listAllPanes_output, List.map_inj_left]
  exact forall₂_congr fun p _ => rowOfLine_line_iff p

def spacedPane : TmuxPane :=
  { pid := 4242, session := js "my proj", number := 7, windowIndex := 0, active := true
    pid_lt := by decide, windowIndex_lt := by decide, session_line := by decide }

/-- Keys for the pane `%7` of the session `my proj` go to a pane `proj`. -/
theorem pane_shifted : listAllPanes (some (output [spacedPane])) ≠ [spacedPane.row] ∧
    (listAllPanes (some (output [spacedPane]))).map (fun r => (r.session, r.pane)) =
      [(js "my", js "proj")] := by
  have hrows := listAllPanes_output [spacedPane]
  obtain ⟨hsession, hpane⟩ := rowOfLine_of_blank (p := spacedPane) (s := js "my") (t := js "proj")
    rfl (by decide)
  rw [hrows]
  refine ⟨fun h => ?_, ?_⟩
  · have hrow := (rowOfLine_line_iff spacedPane).mp (List.map_inj_left.mp h _ (by simp))
    exact absurd hrow (by decide)
  · simp only [List.map_singleton, hsession, Option.some.inj hpane]
    rfl

end Conductor.Tmux.ListPanes
