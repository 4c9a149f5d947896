import Conductor.Discovery.Providers
import Conductor.Js.ToNumber
import Conductor.Reminders.MetaLine

/-! # The output of `ps`

`ps -axwo pid=,ppid=,command=` prints a process on each line. The parser reads a
line back unless the command contains what `.` does not match. -/
namespace Conductor.Discovery.PsOutput
open Conductor.Js.Text Conductor.Js.Number Conductor.Js.Numerals Conductor.Js.ToNumber
open Conductor.Reminders.Metadata Conductor.Reminders.MetaLine Conductor.Discovery.Providers

/-- `line.match(/^\s*(\d+)\s+(\d+)\s+(.+)$/)` on a line that does not end in white
space. Each run ends where a unit of another kind begins; only `\s+` and `.+` have
white space in common, and the first of the two takes it. -/
def matchRow (line : JsString) : Option (JsString × JsString × JsString) := do
  let (pid, s) ← run? isDigit (trimStart line)
  let (_, s) ← run? isWhiteSpace s
  let (ppid, s) ← run? isDigit s
  let (_, command) ← run? isWhiteSpace s
  if command ≠ [] ∧ command.all isDot = true then some (pid, ppid, command) else none

/-- What one line of the output adds to the rows. The number of a run of digits is
whole, if it is finite. -/
def readRow (raw : JsString) : Option PsRow :=
  let line := trim raw
  if line = [] then none
  else match matchRow line with
    | none => none
    | some (pid, ppid, command) =>
      match toNumber pid, toNumber ppid with
      | .finite pid, .finite ppid => some ⟨pid.floor, ppid.floor, command⟩
      | _, _ => none

def parsePsOutput (stdout : JsString) : List PsRow := (lines stdout).filterMap readRow

example : parsePsOutput (js " 42  1 /bin/launchd\n\nnot-a-row\n100 50   /good  --all ") =
    [⟨42, 1, js "/bin/launchd"⟩, ⟨100, 50, js "/good  --all"⟩] := by decide +kernel

/-- The rows of `ps`; `none` when it fails or prints more than `maxBuffer`. -/
def listAllProcesses (ps : Option JsString) : List PsRow :=
  match ps with
  | some stdout => parsePsOutput stdout
  | none => []

/-! ## What the pattern reads -/

/-- Two runs of digits and something else, with white space between them. -/
def Columns (line lead pid gap ppid gap' command : JsString) : Prop :=
  line = lead ++ (pid ++ (gap ++ (ppid ++ (gap' ++ command)))) ∧
    (∀ u ∈ lead, isWhiteSpace u = true) ∧ Run isDigit pid ∧ Run isWhiteSpace gap ∧
    Run isDigit ppid ∧ Run isWhiteSpace gap' ∧ command ≠ []

/-- The command begins where the white space ends, and no other cut of the line is tried. -/
theorem matchRow_columns {line lead pid gap ppid gap' command : JsString}
    (h : Columns line lead pid gap ppid gap' command)
    (hhead : ∀ u, command.head? = some u → isWhiteSpace u = false) :
    matchRow line = if command.all isDot = true then some (pid, ppid, command) else none := by
  obtain ⟨rfl, hlead, hpid, hgap, hppid, hgap', hne⟩ := h
  have hstart : trimStart (lead ++ (pid ++ (gap ++ (ppid ++ (gap' ++ command))))) =
      pid ++ (gap ++ (ppid ++ (gap' ++ command))) := by
    obtain ⟨u, pid', rfl⟩ := List.exists_cons_of_ne_nil hpid.1
    rw [trimStart, List.dropWhile_append_of_pos hlead, List.cons_append,
      List.dropWhile_cons_of_neg (by simp [isWhiteSpace_of_isDigit (hpid.2 u (by simp))])]
  have h₁ : run? isDigit (pid ++ (gap ++ (ppid ++ (gap' ++ command)))) =
      some (pid, gap ++ (ppid ++ (gap' ++ command))) :=
    run?_iff.mpr ⟨rfl, hpid, fun u hu => not_isDigit_of_isWhiteSpace (hgap.head u hu)⟩
  have h₂ : run? isWhiteSpace (gap ++ (ppid ++ (gap' ++ command))) =
      some (gap, ppid ++ (gap' ++ command)) :=
    run?_iff.mpr ⟨rfl, hgap, fun u hu => isWhiteSpace_of_isDigit (hppid.head u hu)⟩
  have h₃ : run? isDigit (ppid ++ (gap' ++ command)) = some (ppid, gap' ++ command) :=
    run?_iff.mpr ⟨rfl, hppid, fun u hu => not_isDigit_of_isWhiteSpace (hgap'.head u hu)⟩
  have h₄ : run? isWhiteSpace (gap' ++ command) = some (gap', command) :=
    run?_iff.mpr ⟨rfl, hgap', hhead⟩
  simp only [matchRow, hstart, h₁, h₂, h₃, h₄, Option.bind_eq_bind, Option.bind_some, ne_eq, hne,
    not_false_eq_true, true_and]

theorem matchRow_iff {line pid ppid command : JsString} :
    matchRow line = some (pid, ppid, command) ↔
      (∃ lead gap gap', Columns line lead pid gap ppid gap' command) ∧
        (∀ u, command.head? = some u → isWhiteSpace u = false) ∧ ∀ u ∈ command, isDot u = true := by
  constructor
  · intro h
    unfold matchRow at h
    obtain ⟨⟨p, s₁⟩, h₁, h⟩ := Option.bind_eq_some_iff.mp h
    obtain ⟨⟨gap, s₂⟩, h₂, h⟩ := Option.bind_eq_some_iff.mp h
    obtain ⟨⟨q, s₃⟩, h₃, h⟩ := Option.bind_eq_some_iff.mp h
    obtain ⟨⟨gap', c⟩, h₄, h⟩ := Option.bind_eq_some_iff.mp h
    obtain ⟨⟨hne, hdot⟩, h⟩ := Option.ite_none_right_eq_some.mp h
    cases h
    obtain ⟨hline, hpid, -⟩ := run?_iff.mp h₁
    obtain ⟨rfl, hgap, -⟩ := run?_iff.mp h₂
    obtain ⟨rfl, hppid, -⟩ := run?_iff.mp h₃
    obtain ⟨rfl, hgap', hhead⟩ := run?_iff.mp h₄
    refine ⟨⟨line.takeWhile isWhiteSpace, gap, gap', ?_, fun u hu => List.mem_takeWhile_imp hu,
      hpid, hgap, hppid, hgap', hne⟩, hhead, List.all_eq_true.mp hdot⟩
    rw [← hline]
    exact List.takeWhile_append_dropWhile.symm
  · intro h
    obtain ⟨⟨lead, gap, gap', hc⟩, hhead, hdot⟩ := h
    rw [matchRow_columns hc hhead, if_pos (List.all_eq_true.mpr hdot)]

/-! ## What is printed -/

/-- A process as `ps` lists it. Its ids are JavaScript numbers. -/
structure ProcessRow where
  pid : Nat
  ppid : Nat
  command : JsString
  pid_double : nearestDouble pid = .finite pid
  ppid_double : nearestDouble ppid = .finite ppid
  command_ne : command ≠ []
  command_line : 10 ∉ command
  command_head : ∀ u, command.head? = some u → isWhiteSpace u = false
  command_last : ∀ u, command.getLast? = some u → isWhiteSpace u = false

def ProcessRow.row (r : ProcessRow) : PsRow := ⟨r.pid, r.ppid, r.command⟩

/-- The white space around the columns of one row. -/
structure Padding where
  lead : JsString
  gap : JsString
  gap' : JsString
  trail : JsString
  lead_space : ∀ u ∈ lead, isWhiteSpace u = true
  gap_space : Run isWhiteSpace gap
  gap'_space : Run isWhiteSpace gap'
  trail_space : ∀ u ∈ trail, isWhiteSpace u = true
  oneLine : 10 ∉ lead ++ gap ++ gap' ++ trail

/-- The line has two leading integers and a command. -/
def IsRow (line : JsString) : Prop :=
  ∃ lead pid gap ppid gap' command, Columns line lead pid gap ppid gap' command ∧
    ∀ u, command.head? = some u → isWhiteSpace u = false

/-- A blank line, or another one that is not a row. -/
structure OtherLine where
  text : JsString
  oneLine : 10 ∉ text
  notRow : ¬ IsRow text

inductive Line
  | row (padding : Padding) (process : ProcessRow)
  | other (line : OtherLine)

def printRow (p : Padding) (r : ProcessRow) : JsString :=
  p.lead ++ (js (toString r.pid) ++ (p.gap ++ (js (toString r.ppid) ++ (p.gap' ++ (r.command ++ p.trail)))))

def Line.text : Line → JsString
  | .row p r => printRow p r
  | .other l => l.text

def Line.process? : Line → Option ProcessRow
  | .row _ r => some r
  | .other _ => none

/-- The output of `ps`, a line after the other. -/
def outputOf (texts : List JsString) : JsString := (js "\n").intercalate texts

def printed (ls : List Line) : JsString := outputOf (ls.map Line.text)

def processes (ls : List Line) : List ProcessRow := ls.filterMap Line.process?

/-! ## What is read back -/

theorem run_toString (n : Nat) : Run isDigit (js (toString n)) := ⟨toString_ne_nil n, digits_toString n⟩

theorem toNumber_toString {n : Nat} (h : nearestDouble n = .finite n) :
    toNumber (js (toString n)) = .finite n := by
  rw [toNumber_digits (toString_ne_nil n) (digits_toString n), digitsValue_toString, h]

theorem trim_printRow (p : Padding) (r : ProcessRow) : trim (printRow p r) =
    js (toString r.pid) ++ (p.gap ++ (js (toString r.ppid) ++ (p.gap' ++ r.command))) := by
  have hpad := @trim_padded p.lead
    (js (toString r.pid) ++ (p.gap ++ (js (toString r.ppid) ++ (p.gap' ++ r.command)))) p.trail
    p.lead_space p.trail_space
    (fun u hu => isWhiteSpace_of_isDigit ((run_toString r.pid).head u hu))
  simp only [List.append_assoc] at hpad
  refine hpad fun u hu => r.command_last u ?_
  simpa [List.getLast?_append, List.getLast?_eq_some_getLast r.command_ne] using hu

/-- The line of a process is read back if `.` matches every unit of its command. -/
theorem readRow_printRow (p : Padding) (r : ProcessRow) :
    readRow (printRow p r) = if r.command.all isDot = true then some r.row else none := by
  have hcolumns : Columns (trim (printRow p r)) [] (js (toString r.pid)) p.gap (js (toString r.ppid))
      p.gap' r.command :=
    ⟨trim_printRow p r, by simp, run_toString r.pid, p.gap_space, run_toString r.ppid, p.gap'_space,
      r.command_ne⟩
  have hne : trim (printRow p r) ≠ [] := by
    rw [trim_printRow]
    exact fun h => toString_ne_nil r.pid (List.append_eq_nil_iff.mp h).1
  unfold readRow
  rw [if_neg hne, matchRow_columns hcolumns r.command_head]
  split_ifs with hdot
  · simp only [toNumber_toString r.pid_double, toNumber_toString r.ppid_double]
    rfl
  · rfl

theorem readRow_other (l : OtherLine) : readRow l.text = none := by
  unfold readRow
  simp only
  split_ifs
  · rfl
  · obtain ⟨w, w', hsplit, hw, hw'⟩ := trim_split l.text
    have hnone : matchRow (trim l.text) = none := by
      rw [Option.eq_none_iff_forall_ne_some]
      rintro ⟨pid, ppid, command⟩ h
      obtain ⟨⟨lead, gap, gap', hline, hlead, hpid, hgap, hppid, hgap', hne⟩, hhead, -⟩ :=
        matchRow_iff.mp h
      refine l.notRow ⟨w ++ lead, pid, gap, ppid, gap', command ++ w', ⟨?_, ?_, hpid, hgap, hppid,
        hgap', by simp [hne]⟩, ?_⟩
      · rw [hsplit, hline]
        simp
      · exact fun u hu => (List.mem_append.mp hu).elim (hw u) (hlead u)
      · intro u hu
        obtain ⟨v, command', rfl⟩ := List.exists_cons_of_ne_nil hne
        exact hhead u hu
    rw [hnone]

theorem text_oneLine (l : Line) : 10 ∉ l.text := by
  cases l with
  | row p r =>
    have hdigits : ∀ n : Nat, 10 ∉ js (toString n) := by
      intro n h
      have hd := digits_toString n 10 h
      cases hd
    have hp := p.oneLine
    simp only [List.mem_append, not_or] at hp
    simp only [Line.text, printRow, List.mem_append, not_or]
    exact ⟨hp.1.1.1, hdigits _, hp.1.1.2, hdigits _, hp.1.2, r.command_line, hp.2⟩
  | other l => exact l.oneLine

theorem parsePsOutput_outputOf {texts : List JsString} (h : ∀ t ∈ texts, 10 ∉ t) :
    parsePsOutput (outputOf texts) = texts.filterMap readRow := by
  unfold parsePsOutput outputOf
  cases texts with
  | nil => rfl
  | cons t ts =>
    have hlines : lines ((js "\n").intercalate (t :: ts)) = t :: ts :=
      List.splitOn_intercalate 10 h (by simp)
    rw [hlines]

/-- The processes whose commands `.` matches throughout are read back. -/
theorem parsePsOutput_processes (ls : List Line) : parsePsOutput (printed ls) =
    ((processes ls).filter fun r => r.command.all isDot).map ProcessRow.row := by
  have hlines : ∀ t ∈ ls.map Line.text, 10 ∉ t := by
    intro t ht
    obtain ⟨l, -, rfl⟩ := List.mem_map.mp ht
    exact text_oneLine l
  rw [printed, parsePsOutput_outputOf hlines, List.filterMap_map, processes, List.filter_filterMap,
    List.map_filterMap]
  refine List.filterMap_congr fun l _ => ?_
  cases l with
  | row p r =>
    simp only [Function.comp_apply, Line.text, readRow_printRow, Line.process?, Option.filter_some]
    split_ifs
    · rfl
    · rfl
  | other l => exact readRow_other l

theorem dots_iff {command : JsString} (h : 10 ∉ command) : command.all isDot = true ↔
    0x0D ∉ command ∧ 0x2028 ∉ command ∧ 0x2029 ∉ command := by
  rw [List.all_eq_true]
  constructor
  · intro hdot
    exact ⟨fun hu => absurd (hdot _ hu) (by decide), fun hu => absurd (hdot _ hu) (by decide),
      fun hu => absurd (hdot _ hu) (by decide)⟩
  · rintro ⟨hcr, hls, hps⟩ u hu
    by_contra hdot
    simp only [isDot, Bool.not_eq_true', Bool.not_eq_false, Bool.or_eq_true, beq_iff_eq] at hdot
    rcases hdot with ((rfl | rfl) | rfl) | rfl
    · exact h hu
    · exact hcr hu
    · exact hls hu
    · exact hps hu

/-- The rows come back in their order, all of them exactly when no command contains a
carriage return or one of the two Unicode separators. -/
theorem parsePsOutput_iff (ls : List Line) :
    parsePsOutput (printed ls) = (processes ls).map ProcessRow.row ↔
      ∀ r ∈ processes ls, 0x0D ∉ r.command ∧ 0x2028 ∉ r.command ∧ 0x2029 ∉ r.command := by
  rw [parsePsOutput_processes]
  constructor
  · intro h r hr
    have hlength := congrArg List.length h
    rw [List.length_map, List.length_map] at hlength
    have hall := List.length_filter_eq_length_iff.mp hlength r hr
    exact (dots_iff r.command_line).mp hall
  · intro h
    rw [List.filter_eq_self.mpr fun r hr => (dots_iff r.command_line).mpr (h r hr)]

def oneSpace : Padding where
  lead := []
  gap := [0x20]
  gap' := [0x20]
  trail := []
  lead_space := by simp
  gap_space := ⟨by simp, by simp [isWhiteSpace]⟩
  gap'_space := ⟨by simp, by simp [isWhiteSpace]⟩
  trail_space := by simp
  oneLine := by decide

/-- `claude` with a line separator in its argument. -/
def separatorRow : ProcessRow where
  pid := 7
  ppid := 1
  command := js "/bin/claude a\u2028b"
  pid_double := nearestDouble_natCast (by decide)
  ppid_double := nearestDouble_natCast (by decide)
  command_ne := by decide
  command_line := by decide
  command_head := by
    intro u hu
    cases hu
    rfl
  command_last := by
    intro u hu
    cases hu
    rfl

/-- What the last newline leaves. -/
def blankLine : OtherLine where
  text := js ""
  oneLine := by decide
  notRow := by
    intro h
    obtain ⟨lead, pid, gap, ppid, gap', command, ⟨hline, -, hpid, -⟩, -⟩ := h
    have hnil : pid ++ (gap ++ (ppid ++ (gap' ++ command))) = [] := (List.append_eq_nil_iff.mp hline.symm).2
    exact hpid.1 (List.append_eq_nil_iff.mp hnil).1

theorem separator_dropped :
    printed [.row oneSpace separatorRow, .other blankLine] = js "7 1 /bin/claude a\u2028b\n" ∧
      parsePsOutput (printed [.row oneSpace separatorRow, .other blankLine]) = [] ∧
      (processes [.row oneSpace separatorRow, .other blankLine]).map ProcessRow.row =
        [⟨7, 1, js "/bin/claude a\u2028b"⟩] := by
  refine ⟨by decide, ?_, rfl⟩
  rw [parsePsOutput_processes]
  decide

end Conductor.Discovery.PsOutput
