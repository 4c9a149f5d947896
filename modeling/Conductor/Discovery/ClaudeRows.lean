import Conductor.Discovery.PsOutput

/-! # The processes that run `claude`

The patterns of the claude-code provider want a slash or a space before the name.
A process whose command begins with the bare name is found by its arguments only. -/
namespace Conductor.Discovery.ClaudeRows
open Conductor.Js.Text Conductor.Lib.Regex Conductor.Sessions.Types Conductor.Reminders.Metadata
open Conductor.Js.ToNumber Conductor.Discovery.Providers Conductor.Discovery.PsOutput

/-- `claudeCodeProvider.discover()` when `ps` prints `stdout`, which stays within its `maxBuffer` of 8 MiB. -/
def discoverFrom (h : Host) (stdout : JsString) : List LocalSession :=
  claudeCodeDiscover { h with processes := listAllProcesses (some stdout) }

/-- The session of a row. -/
def sessionOf (h : Host) (p : PsRow) : LocalSession :=
  let cwd := sessionCwd h p.pid
  { pid := p.pid, cwd, repoName := basename cwd, branch := gitBranchOf h cwd,
    transcriptPath := findTranscriptForCwd h cwd }

/-- The first word of the command is `claude` in the directory `dir`, which is empty
or ends in a slash. -/
structure RunsClaude (command dir args : JsString) : Prop where
  command_eq : command = dir ++ (js "claude" ++ args)
  dir_word : ∀ u ∈ dir, isWhiteSpace u = false
  dir_slash : dir ≠ [] → dir.getLast? = some 0x2F
  args_space : ∀ u, args.head? = some u → isWhiteSpace u = true

/-! ## The patterns on a command -/

theorem isWordChar_of_isWhiteSpace {u : UInt16} (h : isWhiteSpace u = true) : isWordChar u = false := by
  simp only [isWhiteSpace, Bool.or_eq_true, Bool.and_eq_true, decide_eq_true_eq, beq_iff_eq,
    UInt16.le_iff_toNat_le, ← UInt16.toNat_inj, UInt16.reduceToNat] at h
  simp only [isWordChar, isDigit, Bool.or_eq_false_iff, Bool.and_eq_false_iff,
    decide_eq_false_iff_not, beq_eq_false_iff_ne, UInt16.le_iff_toNat_le, ne_eq, ← UInt16.toNat_inj,
    UInt16.reduceToNat]
  omega

/-- `/\/claude\b/` finds the name after the last slash of its directory. -/
theorem looksLikeClaude_dir {command dir args : JsString} (h : RunsClaude command dir args)
    (hdir : dir ≠ []) : looksLikeClaude command = true := by
  obtain ⟨before, rfl⟩ : ∃ before, dir = before ++ [0x2F] :=
    List.getLast?_eq_some_iff.mp (h.dir_slash hdir)
  have hslash : (seqAll [lit (js "/claude"), wordBound]).test command = true := by
    rw [test_iff]
    refine ⟨before, js "/claude", args, by rw [h.command_eq]; simp [js, encodeCodePoint], ?_⟩
    refine matches_seq_bound.mpr ⟨matches_lit.mpr rfl, ?_⟩
    have hname : ((js "/claude").reverse ++ before.reverse).head? = some 0x65 := rfl
    have hspace : args.head?.any isWordChar = false := by
      rw [Option.any_eq_false]
      intro u hu
      simpa using isWordChar_of_isWhiteSpace (h.args_space u hu)
    unfold isBound
    rw [hname, hspace, Option.any_some]
    rfl
  unfold looksLikeClaude CLAUDE_PATTERNS
  rw [List.any_cons, hslash, Bool.true_or]

/-- Every match begins with a unit that the bare name does not have. -/
theorem patterns_first : ∀ re ∈ CLAUDE_PATTERNS, ∃ p : UInt16 → Bool, re.first = some p ∧
    (js "claude").all (fun u => !p u) = true := by
  intro re hre
  simp only [CLAUDE_PATTERNS, List.mem_cons, List.not_mem_nil, or_false] at hre
  rcases hre with rfl | rfl | rfl | rfl
  · exact ⟨_, rfl, rfl⟩
  · exact ⟨_, rfl, rfl⟩
  · exact ⟨_, rfl, rfl⟩
  · exact ⟨_, rfl, rfl⟩

theorem looksLikeClaude_bare (args : JsString) : looksLikeClaude (js "claude" ++ args) = looksLikeClaude args := by
  unfold looksLikeClaude
  rw [Bool.eq_iff_iff, List.any_eq_true, List.any_eq_true]
  refine exists_congr fun re => and_congr_right fun hre => ?_
  obtain ⟨p, hfirst, hnone⟩ := patterns_first re hre
  rw [test_append_left hfirst fun u hu => by simpa using List.all_eq_true.mp hnone u hu]

theorem looksLikeClaude_iff {command dir args : JsString} (h : RunsClaude command dir args) :
    looksLikeClaude command = true ↔ dir ≠ [] ∨ looksLikeClaude args = true := by
  by_cases hdir : dir = []
  · rw [h.command_eq, hdir, List.nil_append, looksLikeClaude_bare]
    simp
  · simp [hdir, looksLikeClaude_dir h hdir]

/-! ## The sessions of an output -/

theorem discoverFrom_outputOf (h : Host) {texts : List JsString} (ht : ∀ t ∈ texts, 10 ∉ t) :
    discoverFrom h (outputOf texts) =
      ((texts.filterMap readRow).filter fun p => looksLikeClaude p.command).map (sessionOf h) := by
  unfold discoverFrom claudeCodeDiscover discoverBy
  rw [listAllProcesses, parsePsOutput_outputOf ht]
  rfl

theorem printRow_oneLine (p : Padding) (r : ProcessRow) : 10 ∉ printRow p r := text_oneLine (.row p r)

/-- What a row adds to the sessions of the lines before and after it. -/
theorem discoverFrom_row (h : Host) {before after : List JsString} (hlines : ∀ t ∈ before ++ after, 10 ∉ t)
    (p : Padding) (r : ProcessRow) :
    discoverFrom h (outputOf (before ++ printRow p r :: after)) =
      discoverFrom h (outputOf before) ++
        (if r.command.all isDot = true ∧ looksLikeClaude r.command = true then [sessionOf h r.row] else []) ++
          discoverFrom h (outputOf after) := by
  have hall : ∀ t ∈ before ++ printRow p r :: after, 10 ∉ t := by
    intro t ht
    rw [List.mem_append, List.mem_cons] at ht
    rcases ht with ht | rfl | ht
    · exact hlines t (List.mem_append_left _ ht)
    · exact printRow_oneLine p r
    · exact hlines t (List.mem_append_right _ ht)
  rw [discoverFrom_outputOf h hall, discoverFrom_outputOf h fun t ht => hlines t (List.mem_append_left _ ht),
    discoverFrom_outputOf h fun t ht => hlines t (List.mem_append_right _ ht), List.filterMap_append,
    List.filterMap_cons, readRow_printRow]
  by_cases hdot : r.command.all isDot = true
  · by_cases hclaude : looksLikeClaude r.command = true
    · simp [hdot, hclaude, ProcessRow.row]
    · simp [hdot, hclaude, ProcessRow.row]
  · simp [hdot]

/-- A process that runs `claude` has its session, once and in its place, exactly when
its command is read back from the output and either names a directory before
`claude` or has arguments that look like Claude Code by themselves. -/
theorem claude_row_iff (h : Host) {before after : List JsString} (hlines : ∀ t ∈ before ++ after, 10 ∉ t)
    (p : Padding) {r : ProcessRow} {dir args : JsString} (hr : RunsClaude r.command dir args) :
    discoverFrom h (outputOf (before ++ printRow p r :: after)) =
        discoverFrom h (outputOf before) ++ sessionOf h r.row :: discoverFrom h (outputOf after) ↔
      (0x0D ∉ r.command ∧ 0x2028 ∉ r.command ∧ 0x2029 ∉ r.command) ∧
        (dir ≠ [] ∨ looksLikeClaude args = true) := by
  rw [← dots_iff r.command_line, ← looksLikeClaude_iff hr, discoverFrom_row h hlines]
  split_ifs with hfound
  · simp [hfound]
  · simp only [hfound, iff_false]
    intro he
    have hlength := congrArg List.length he
    simp at hlength

/-! ## One row -/

/-- The directory `/bin/` before the name, or none. -/
def printRequest (dir : Bool) : ProcessRow where
  pid := 9999
  ppid := 1234
  command := (if dir then js "/bin/" else []) ++ (js "claude" ++ js " --print")
  pid_double := nearestDouble_natCast (by decide)
  ppid_double := nearestDouble_natCast (by decide)
  command_ne := by
    cases dir with
    | false => decide
    | true => decide
  command_line := by
    cases dir with
    | false => decide
    | true => decide
  command_head := by
    intro u hu
    cases dir with
    | false =>
      cases hu
      rfl
    | true =>
      cases hu
      rfl
  command_last := by
    intro u hu
    cases dir with
    | false =>
      cases hu
      rfl
    | true =>
      cases hu
      rfl

theorem runs_printRequest (dir : Bool) :
    RunsClaude (printRequest dir).command (if dir then js "/bin/" else []) (js " --print") where
  command_eq := rfl
  dir_word := by
    cases dir with
    | false => simp
    | true =>
      have hall : (js "/bin/").all (fun u => !isWhiteSpace u) = true := rfl
      exact fun u hu => by simpa using List.all_eq_true.mp hall u hu
  dir_slash := by
    cases dir with
    | false => simp
    | true => exact fun _ => rfl
  args_space := by
    intro u hu
    cases hu
    rfl

def quietHost : Host :=
  { processes := [], lsof := fun _ => none, processCwd := js "/w", git := fun _ => none
    projectsRoot := js "/home/.claude/projects", readdir := fun _ => none, mtimeMs := fun _ => none }

theorem bin_claude_listed :
    discoverFrom quietHost (outputOf ([] ++ printRow oneSpace (printRequest true) :: [js "42 1 -bash"])) =
      discoverFrom quietHost (outputOf []) ++ sessionOf quietHost (printRequest true).row ::
        discoverFrom quietHost (outputOf [js "42 1 -bash"]) :=
  (claude_row_iff quietHost (by decide) oneSpace (runs_printRequest true)).mpr
    ⟨by decide, .inl (by decide)⟩

/-- The bare invocation is read from the output, and no session comes of it. -/
theorem bare_claude_unlisted :
    RunsClaude (js "claude --print") [] (js " --print") ∧
      parsePsOutput (js "9999 1234 claude --print") = [⟨9999, 1234, js "claude --print"⟩] ∧
      ∀ h, discoverFrom h (js "9999 1234 claude --print") = [] := by
  refine ⟨runs_printRequest false, by decide +kernel, fun h => ?_⟩
  have hread : (parsePsOutput (js "9999 1234 claude --print")).filter (fun p => looksLikeClaude p.command) = [] := by
    decide +kernel
  unfold discoverFrom claudeCodeDiscover discoverBy listAllProcesses
  simp only [hread, List.map_nil]

end Conductor.Discovery.ClaudeRows
