import Conductor.Cli.Commands
import Conductor.Timeseries.Prometheus

/-! # One snapshot, three ways to ask for it

`agent-conductor snapshot`, the tool of the same name and `GET /snapshot` select
sessions by a provider's name or all of them, and build one entry for each. To the
command `all` is a flag of its own and no name; asked for the same sessions, the
three show the same entries, and fail together. Of the values that they print or
send only the times are their own. -/
namespace Conductor.Cli.SnapshotAgreement
open Conductor.Lib Conductor.Js Conductor.Js.Text Conductor.Js.Values Conductor.Lib.Traces
open Conductor.Sessions.Types
open Conductor.Timeseries.Prometheus (statusText)
open Conductor.Tmux.Audit (confidenceText)
open Conductor.Sessions.Snapshot Conductor.Discovery.Providers Conductor.Tmux.Effects
open Conductor.Http.Server Conductor.Mcp.Tools Conductor.Mcp.Handlers Conductor.Cli.Args
open Conductor.Cli.InjectCmd (twoProcesses claudeCommand)
open Conductor.Cli.Commands

/-! ## A snapshot as JSON -/

def actionJson : Action → Json
  | .inject text => .obj [(js "type", .str (js "inject")), (js "text", .str text)]
  | .abort => .obj [(js "type", .str (js "abort"))]
  | .restart => .obj [(js "type", .str (js "restart"))]
  | .none reason => .obj ((js "type", .str (js "none")) :: reason.toList.map fun r => (js "reason", .str r))

def entryJson (e : SnapshotEntry) : Json :=
  .obj [(js "pid", .num (Number.ofInt e.pid)), (js "repo", .str e.repo),
    (js "branch", (e.branch.map .str).getD .null), (js "cwd", .str e.cwd),
    (js "status", .str (statusText e.status)), (js "last_assistant_summary", e.last_assistant_summary),
    (js "suggestion", .str e.suggestion), (js "action", actionJson e.action),
    (js "confidence", .str (confidenceText e.confidence)), (js "todo_link", .null),
    (js "tmux", (e.tmux.map fun p =>
      Json.obj [(js "session", .str p.session), (js "pane", .str p.pane)]).getD .null),
    (js "conflict", (e.conflict.map fun pid => Json.num (Number.ofInt pid)).getD .null)]

/-- An `OrchestratorSnapshot`, made at some time. -/
def snapshotJson (generated_at : JsString) (entries : List SnapshotEntry) : Json :=
  .obj [(js "generated_at", .str generated_at), (js "sessions", .arr (entries.map entryJson))]

/-- The value that `--json` prints first. -/
def printedJson (generated_at : JsString) : List CliEffect → Option Json
  | .renderJson (.snapshot entries) :: _ => some (snapshotJson generated_at entries)
  | .renderJson .noSessions :: _ => some (snapshotJson generated_at [])
  | _ => none

/-! ## The same question -/

/-- The same sessions are asked for in each of the three spellings. -/
structure AskedFor (name : JsString) (args : ParsedArgs) (call : Json) (query : SearchParams) : Prop where
  help : asksHelp args = false
  all : flagBool args [js "all-providers"] = decide (name = js "all")
  flag : name ≠ js "all" → (flagString args [js "provider"]).getD DEFAULT_PROVIDER_NAME = name
  call : providerArg call = name
  query : providerNameOf query = name

/-- The entries that the command shows first. -/
def shownEntries : List CliEffect → Option (List SnapshotEntry)
  | .renderJson (.snapshot entries) :: _ | .print (.snapshot entries) :: _ => some entries
  | .renderJson .noSessions :: _ => some []
  | .world (.stdout text) :: _ =>
    if text = js "No live Claude Code sessions detected.\n" then some [] else none
  | _ => none

/-- The daemon serves the machine of the command. -/
structure Serves (d : Daemon) (w : CliWorld) (generated_at : JsString) : Prop where
  host : d.host = w.host
  buildSnapshot : ∀ sessions, d.buildSnapshot sessions =
    (buildSnapshot ⟨w.fs, w.tmux, w.now, w.cache⟩ w.disk sessions).map (snapshotJson generated_at)

/-- A tool's snapshot is the text of its JSON. -/
def Writes (wire : Wire) (generated_at : JsString) : Prop :=
  ∀ entries, wire.payload (.snapshot entries) = some (snapshotJson generated_at entries)

/-- What the three are asked for. -/
def wanted (w : CliWorld) (name : JsString) : Except JsError (List SnapshotEntry) := do
  let sessions ← discoverSessions w.host name
  buildSnapshot ⟨w.fs, w.tmux, w.now, w.cache⟩ w.disk sessions

variable {w : CliWorld} {name : JsString} {args : ParsedArgs} {call : Json} {query : SearchParams}

/-- The command selects what the others do, and has no sessions where they throw. -/
theorem selectSessions_eq (h : AskedFor name args call query) :
    selectSessions w args = (discoverSessions w.host name).toOption := by
  unfold selectSessions discoverSessions
  rw [h.all]
  by_cases hall : name = js "all"
  · rw [decide_eq_true hall, if_pos rfl, if_pos hall]
    rfl
  · rw [decide_eq_false hall, if_neg (by decide), if_neg hall, h.flag hall]
    simp only
    cases hp : getProvider name with
    | none => rfl
    | some p => rfl

/-- What is printed first, whatever throws later. -/
theorem print_effects (v : Shown) {α : Type} (f : Unit → Traced CliEffect JsError α) :
    ∃ rest, (print w v >>= f).effects = .print v :: rest := by
  show ∃ rest, (Traces.bind (Traces.bind _ _) f).effects = _
  unfold Traces.bind
  cases w.printError v with
  | none => exact ⟨_, rfl⟩
  | some e => exact ⟨_, rfl⟩

/-- Past the help, the command does what its selection and the snapshot say. -/
theorem snapshotCmd_selected (hhelp : asksHelp args = false) :
    (selectSessions w args = none →
      shownEntries (snapshotCmd w args).effects = none ∧ (snapshotCmd w args).result = .ok (some 2)) ∧
    ∀ sessions, selectSessions w args = some sessions →
      match buildSnapshot ⟨w.fs, w.tmux, w.now, w.cache⟩ w.disk sessions with
      | .ok entries => shownEntries (snapshotCmd w args).effects = some entries
      | .error e => shownEntries (snapshotCmd w args).effects = none ∧
          (snapshotCmd w args).result = .error e := by
  unfold snapshotCmd
  rw [hhelp]
  refine ⟨fun hnone => ?_, fun sessions hsome => ?_⟩
  · rw [hnone]
    exact ⟨rfl, rfl⟩
  · rw [hsome]
    cases sessions with
    | nil =>
      have hempty : buildSnapshot ⟨w.fs, w.tmux, w.now, w.cache⟩ w.disk [] = .ok [] := rfl
      rw [hempty]
      unfold jsonOr
      cases asksJson args with
      | true => rfl
      | false => rfl
    | cons s sessions =>
      cases hsnap : buildSnapshot ⟨w.fs, w.tmux, w.now, w.cache⟩ w.disk (s :: sessions) with
      | error e => exact ⟨by simp [hsnap]; rfl, by simp [hsnap]; rfl⟩
      | ok entries =>
        simp only [hsnap]
        unfold jsonOr
        cases asksJson args with
        | true => rfl
        | false =>
          obtain ⟨rest, hrest⟩ := print_effects (w := w) (.snapshot entries)
            fun _ => (pure (some 0) : Command)
          show shownEntries (print w (.snapshot entries) >>= fun _ => (pure (some 0) : Command)).effects = _
          rw [hrest]
          rfl

/-- What is printed as JSON is what is shown. -/
theorem printedJson_of_shown {effects : List CliEffect} {entries : List SnapshotEntry}
    (hshown : shownEntries effects = some entries)
    (hjson : ∃ v rest, effects = .renderJson v :: rest) (generated_at : JsString) :
    printedJson generated_at effects = some (snapshotJson generated_at entries) := by
  obtain ⟨v, rest, rfl⟩ := hjson
  cases v with
  | noSessions | snapshot _ => cases hshown; rfl
  | _ => cases hshown

/-- Asked for JSON, the command prints nothing else where it shows entries. -/
theorem snapshotCmd_json (hhelp : asksHelp args = false) (hjson : asksJson args = true)
    {sessions : List LocalSession} (hselect : selectSessions w args = some sessions)
    {entries : List SnapshotEntry}
    (hbuilt : buildSnapshot ⟨w.fs, w.tmux, w.now, w.cache⟩ w.disk sessions = .ok entries) :
    ∃ v rest, (snapshotCmd w args).effects = .renderJson v :: rest := by
  unfold snapshotCmd
  rw [hhelp, hselect]
  cases sessions with
  | nil =>
    unfold jsonOr
    rw [hjson]
    exact ⟨_, _, rfl⟩
  | cons s sessions =>
    simp only [hbuilt, jsonOr, hjson]
    exact ⟨_, _, rfl⟩

/-- A provider that is not registered is not found. -/
theorem unknown_of_error {h : Host} {e : JsError} (hd : discoverSessions h name = .error e) :
    name ≠ js "all" ∧ getProvider name = none := by
  unfold discoverSessions at hd
  split at hd
  · cases hd
  · rename_i hall
    split at hd
    · cases hd
    · rename_i hnone
      exact ⟨hall, hnone⟩

theorem snapshotTool_wanted (hcall : providerArg call = name) :
    (snapshotTool w.toToolWorld call).result = (wanted w name).map .snapshot := by
  unfold snapshotTool wanted
  rw [hcall]
  cases discoverSessions w.host name with
  | error e => rfl
  | ok sessions =>
    simp only [quiet]
    show (buildSnapshot ⟨w.fs, w.tmux, w.now, w.cache⟩ w.disk sessions >>= fun entries =>
      pure (Payload.snapshot entries)) = _
    cases hsnap : buildSnapshot ⟨w.fs, w.tmux, w.now, w.cache⟩ w.disk sessions with
    | error e => exact congrArg (Except.map Payload.snapshot) hsnap.symm
    | ok entries => exact congrArg (Except.map Payload.snapshot) hsnap.symm

theorem handleSnapshot_wanted {d : Daemon} {generated_at : JsString} (hd : Serves d w generated_at)
    (hquery : providerNameOf query = name) :
    handleSnapshot d query = (wanted w name).map (snapshotJson generated_at) := by
  unfold handleSnapshot wanted
  rw [hquery, hd.host]
  cases discoverSessions w.host name with
  | error e => rfl
  | ok sessions => exact hd.buildSnapshot sessions

/-- The machine as the binary sees it. -/
def sharedCli : CliWorld :=
  { Mcp.SchemaChecks.quietWorld 0 with
    toWorld := twoProcesses claudeCommand claudeCommand (js "/w")
    version := js "dev", printError := fun _ => none, daemonError := fun _ => none
    auditTable := ⟨fun _ => .nan, fun _ => .error []⟩
    mcp := ⟨Mcp.Stdio.somePlatform, ⟨fun _ => none, fun _ => []⟩, [], _, rfl⟩
    errorMessage := fun _ => [] }

def sharedDaemon : Daemon :=
  { someDaemon with
    host := sharedCli.host
    buildSnapshot := fun sessions =>
      (buildSnapshot ⟨sharedCli.fs, sharedCli.tmux, sharedCli.now, sharedCli.cache⟩ sharedCli.disk sessions).map
        (snapshotJson (js "2026-01-01T00:00:02.000Z")) }

def sharedWire : Wire :=
  ⟨fun | .snapshot entries => some (snapshotJson (js "2026-01-01T00:00:01.000Z") entries)
       | _ => none, fun _ => []⟩

def allCall : Json := .obj [(js "provider", .str (js "all"))]

end Conductor.Cli.SnapshotAgreement
