import Conductor.Lib.Regex
import Conductor.Sessions.Types

/-! # Session discovery and the provider registry

The three built-in providers scan the same process table, each with its own
patterns, and turn every matching row into a `LocalSession`. -/
namespace Conductor.Discovery.Providers
open Conductor.Lib.Regex Conductor.Js.Text Conductor.Sessions.Types

structure PsRow where
  pid : Int
  ppid : Int
  command : JsString
  deriving DecidableEq

/-- What discovery reads from the machine: the rows of `listAllProcesses`, the
output of `lsof` for a pid and of `git rev-parse` in a directory (`none` when
the command fails), and the directory of transcripts. -/
structure Host where
  processes : List PsRow
  lsof : Int → Option JsString
  processCwd : JsString
  git : JsString → Option JsString
  /-- `join(homedir(), ".claude", "projects")`. -/
  projectsRoot : JsString
  readdir : JsString → Option (List JsString)
  mtimeMs : JsString → Option Rat

/-- Resolve the cwd of a pid: the first `n` line of the `lsof` output. -/
def cwdOf (h : Host) (pid : Int) : Option JsString := do
  let stdout ← h.lsof pid
  let line ← (lines stdout).find? fun l => (js "n").isPrefixOf l
  if line.tail.isEmpty then none else some line.tail

/-- The cwd a discovered session is given. -/
def sessionCwd (h : Host) (pid : Int) : JsString := (cwdOf h pid).getD h.processCwd

/-- `path.basename` of a POSIX path. -/
def basename (path : JsString) : JsString :=
  ((path.reverse.dropWhile (· == 0x2F)).takeWhile (· != 0x2F)).reverse

def encodeProjectPath (cwd : JsString) : JsString :=
  cwd.map fun u => if u = 0x2F then 0x2D else u

/-- The newest of the readable `.jsonl` entries, the first one among equals. -/
def newestTranscript (h : Host) (root : JsString) (entries : List JsString) :
    Option (JsString × Rat) :=
  entries.foldl (fun newest name =>
    if (js ".jsonl").isSuffixOf name then
      let path := root ++ js "/" ++ name
      match h.mtimeMs path, newest with
      | some mtime, some (_, best) => if best < mtime then some (path, mtime) else newest
      | some mtime, none => some (path, mtime)
      | none, _ => newest
    else newest) none

def findTranscriptForCwd (h : Host) (cwd : JsString) : Option JsString := do
  let root := h.projectsRoot ++ js "/" ++ encodeProjectPath cwd
  let entries ← h.readdir root
  let (path, _) ← newestTranscript h root entries
  return path

def gitBranchOf (h : Host) (cwd : JsString) : Option JsString := do
  let stdout ← h.git cwd
  if (trim stdout).isEmpty then none else some (trim stdout)

/-! ## The patterns -/

def slashOrSpace : Pattern UInt16 := .chr fun u => u == 0x2F || u == 0x20

def CLAUDE_PATTERNS : List (Pattern UInt16) :=
  [seqAll [lit (js "/claude"), wordBound],
   seqAll [slashOrSpace, lit (js "node"), wordBound, .chr isDot, .many isDot, wordBound,
     lit (js "claude"), wordBound],
   seqAll [slashOrSpace, lit (js "claude --print")],
   lit (js "Claude.app")]

def looksLikeClaude (command : JsString) : Bool := CLAUDE_PATTERNS.any fun re => re.test command

/-- `/\baider\b/`. -/
def AIDER_PATTERN : Pattern UInt16 := seqAll [wordBound, lit (js "aider"), wordBound]

/-- A literal under the `i` flag; the text is in lower case. -/
def litIgnoreCase (text : JsString) : Pattern UInt16 :=
  seqAll (text.map fun a => .chr fun u => u == a || u + 0x20 == a && 0x41 ≤ u && u ≤ 0x5A)

/-- `/cursor[- ]?agent/i`. -/
def CURSOR_PATTERN : Pattern UInt16 :=
  seqAll [litIgnoreCase (js "cursor"), .alt (.chr fun u => u == 0x2D || u == 0x20) .empty,
    litIgnoreCase (js "agent")]

/-! ## Discovery -/

/-- The scan shared by the providers: every row whose command matches becomes a
session, in the order of the table, with what `enrich` finds for its cwd. -/
def discoverBy (matchesCommand : JsString → Bool)
    (enrich : JsString → Option JsString × Option JsString) (h : Host) : List LocalSession :=
  (h.processes.filter fun p => matchesCommand p.command).map fun p =>
    let cwd := sessionCwd h p.pid
    { pid := p.pid, cwd, repoName := basename cwd, branch := (enrich cwd).1,
      transcriptPath := (enrich cwd).2 }

def claudeCodeDiscover (h : Host) : List LocalSession :=
  discoverBy looksLikeClaude (fun cwd => (gitBranchOf h cwd, findTranscriptForCwd h cwd)) h

def aiderDiscover (h : Host) : List LocalSession :=
  discoverBy (fun c => AIDER_PATTERN.test c) (fun _ => (none, none)) h

def cursorCliDiscover (h : Host) : List LocalSession :=
  discoverBy (fun c => CURSOR_PATTERN.test c) (fun _ => (none, none)) h

structure AgentProvider where
  name : JsString
  discover : Host → List LocalSession

/-- The registry with its built-in entries, in registration order. -/
def allProviders : List AgentProvider :=
  [⟨js "claude-code", claudeCodeDiscover⟩, ⟨js "aider", aiderDiscover⟩,
   ⟨js "cursor-cli", cursorCliDiscover⟩]

def getProvider (name : JsString) : Option AgentProvider :=
  allProviders.find? fun p => p.name == name

def DEFAULT_PROVIDER_NAME : JsString := js "claude-code"

/-- Discovery by provider name, `all` for every registered one; an unknown name
is an error that lists the known ones. -/
def discoverSessions (h : Host) (providerName : JsString) :
    Except Js.Values.JsError (List LocalSession) :=
  if providerName = js "all" then pure (allProviders.flatMap fun p => p.discover h)
  else match getProvider providerName with
    | some p => pure (p.discover h)
    | none => throw (.error (js "unknown provider '" ++ providerName ++ js "'. Available: " ++
        (js ", ").intercalate (allProviders.map (·.name))))

theorem mem_discoverBy {m : JsString → Bool}
    {enrich : JsString → Option JsString × Option JsString} {h : Host} {s : LocalSession}
    (hs : s ∈ discoverBy m enrich h) :
    (∃ p ∈ h.processes, p.pid = s.pid ∧ m p.command = true) ∧ s.cwd = sessionCwd h s.pid := by
  obtain ⟨p, hp, rfl⟩ := List.mem_map.mp hs
  obtain ⟨hmem, hm⟩ := List.mem_filter.mp hp
  exact ⟨⟨p, hmem, rfl, hm⟩, rfl⟩

/-- Every discovered session has the cwd of its pid, whoever discovered it. -/
theorem discovered_cwd {p : AgentProvider} (hp : p ∈ allProviders) {h : Host} {s : LocalSession}
    (hs : s ∈ p.discover h) : s.cwd = sessionCwd h s.pid := by
  simp only [allProviders, List.mem_cons, List.not_mem_nil, or_false] at hp
  obtain rfl | rfl | rfl := hp
  · simp only [claudeCodeDiscover] at hs
    exact (mem_discoverBy hs).2
  · simp only [aiderDiscover] at hs
    exact (mem_discoverBy hs).2
  · simp only [cursorCliDiscover] at hs
    exact (mem_discoverBy hs).2

end Conductor.Discovery.Providers
