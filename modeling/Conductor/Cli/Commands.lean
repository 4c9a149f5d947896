import Conductor.Cli.AuditReaders
import Conductor.Cli.RepeatedFlags
import Conductor.Lib.Traces
import Conductor.Mcp.SessionEffects
import Conductor.Sessions.Transcript

/-! # The commands of the binary

Every command reads its flags, does its work and answers with an exit code; what
it throws is caught by `run`. How a value is printed, as JSON or as a table, is
left open: only that printing a table can throw, since its cells are read from
rows of any shape. -/
namespace Conductor.Cli.Commands
open Conductor.Js Conductor.Js.Text Conductor.Js.Number Conductor.Js.ToNumber Conductor.Js.Values
open Conductor.Js.JsonText Conductor.Js.Utf8 Conductor.Lib.Traces Conductor.Sessions.Types
open Conductor.Sessions.Snapshot Conductor.Sessions.Transcript Conductor.Discovery.Providers
open Conductor.Tmux.TmuxMap Conductor.Tmux.Effects Conductor.Reminders.Poll Conductor.Reminders.Metadata
open Conductor.Reminders.Cli Conductor.Mcp.Server Conductor.Mcp.Handlers Conductor.Cli.Args
open Conductor.Cli.InjectCmd Conductor.Cli.RepeatedFlags
open Conductor.Cli.AuditReaders (Printed TableEnv auditCmd)
open Conductor.Lib.Runs (exec)
open Conductor.Mcp.Stdio (Platform)
open Conductor.Mcp.SessionEffects (Session perform start)

/-- What is printed as JSON or in columns. -/
inductive Shown
  | noSessions
  | snapshot (entries : List SnapshotEntry)
  | sessions (sessions : List LocalSession)
  | transcript (response : TranscriptResponse)
  | todos (todos : List Json)
  | answer (v : Json)
  | panes (rows : List PaneRow)
  | pane (pane : Option Pane)
  | audit (rows : List Json)
  | providers (names : List JsString)
  | provider (name : JsString)

inductive CliEffect
  | world (e : Effect)
  /-- `remindctl` is executed with these arguments. -/
  | remindctl (args : List JsString)
  | renderJson (v : Shown)
  /-- The lines of `renderTable`, or the text of a command. -/
  | print (v : Shown)
  /-- The help text of a command, or of the binary. -/
  | help (onStderr : Bool) (command : Option JsString)
  /-- `runStdioServer` serves, and its tools have these effects, each for one of its lines. -/
  | mcpServer (done : List (Nat × ToolEffect))
  /-- `startDaemon` is called, and listens. -/
  | daemon (port : Option Int) (timeseries : Bool)

/-- What a client and its tools make of the stdio server, up to some moment. -/
structure McpSession where
  platform : Platform
  wire : Wire
  steps : List Mcp.SessionEffects.Action
  state : Session
  ran : exec (perform platform wire) start steps = some state

structure CliWorld extends ToolWorld where
  version : JsString
  /-- What printing throws. -/
  printError : Shown → Option JsError
  auditTable : TableEnv
  /-- What comes on the input of the stdio server, and what its tools make of it. -/
  mcp : McpSession
  /-- What `startDaemon` is rejected with. -/
  daemonError : Option Int → Option JsError
  /-- `err instanceof Error ? err.message : String(err)`. -/
  errorMessage : JsError → JsString

/-- The exit code, none for a command that never returns. -/
abbrev Command := Traced CliEffect JsError (Option Nat)

def stdout (text : JsString) : Traced CliEffect JsError Unit := emit (.world (.stdout text))
def stderr (text : JsString) : Traced CliEffect JsError Unit := emit (.world (.stderr text))
def help (onStderr : Bool) (command : String) : Traced CliEffect JsError Unit :=
  emit (.help onStderr (some (js command)))

def print (w : CliWorld) (v : Shown) : Traced CliEffect JsError Unit := do
  emit (.print v)
  match w.printError v with
  | some e => eval (.error e)
  | none => pure ()

def asksHelp (args : ParsedArgs) : Bool := flagBool args [js "h", js "help"]
def asksJson (args : ParsedArgs) : Bool := flagBool args [js "json"]

/-- Print a value as JSON when it is asked for, else do what prints it as text. -/
def jsonOr (args : ParsedArgs) (v : Shown) (text : Traced CliEffect JsError Unit) :
    Traced CliEffect JsError Unit :=
  if asksJson args then emit (.renderJson v) else text

/-! ## Sessions -/

/-- The selection at the head of `snapshot` and `sessions`: `none` for a provider
that is not registered. Discovery by the built-in providers never throws. -/
def selectSessions (w : CliWorld) (args : ParsedArgs) : Option (List LocalSession) :=
  if flagBool args [js "all-providers"] then some (allProviders.flatMap fun p => p.discover w.host)
  else
    let providerName := (flagString args [js "provider"]).getD DEFAULT_PROVIDER_NAME
    (getProvider providerName).map fun p => p.discover w.host

def unknownProvider (args : ParsedArgs) : Command := do
  let providerName := (flagString args [js "provider"]).getD DEFAULT_PROVIDER_NAME
  stderr (js "agent-conductor: unknown provider '" ++ providerName ++
    js "'. Run 'agent-conductor providers list' to see available providers.\n")
  return some 2

def snapshotCmd (w : CliWorld) (args : ParsedArgs) : Command := do
  if asksHelp args then
    help false "snapshot"
    return some 0
  match selectSessions w args with
  | none => unknownProvider args
  | some [] => do
    jsonOr args .noSessions do
      stdout (js "No live Claude Code sessions detected.\n")
      stdout (js "(Run `claude` in a tmux pane and retry, or provide a custom DiscoveryProvider.)\n")
    return some 0
  | some sessions => do
    let snap ← eval (buildSnapshot ⟨w.fs, w.tmux, w.now, w.cache⟩ w.disk sessions)
    jsonOr args (.snapshot snap) (print w (.snapshot snap))
    return some 0

def sessionsCmd (w : CliWorld) (args : ParsedArgs) : Command := do
  if asksHelp args then
    help false "sessions"
    return some 0
  match selectSessions w args with
  | none => unknownProvider args
  | some sessions => do
    jsonOr args (.sessions sessions)
      (if sessions.isEmpty then stdout (js "No live sessions detected.\n") else print w (.sessions sessions))
    return some 0

/-! ## Transcripts -/

def transcriptCmd (w : CliWorld) (args : ParsedArgs) : Command := do
  if asksHelp args then
    help false "transcript"
    return some 0
  match args.positional.head? with
  | none | some [] => do
    stderr (js "transcript: missing <path>\n\n")
    help true "transcript"
    return some 2
  | some path => do
    let limit := (flagInt args [js "limit"]).getD 10
    let tx := buildTranscript (w.disk.bytes path) 0 (Number.ofInt limit)
    jsonOr args (.transcript tx)
      (if tx.turns.isEmpty then stdout (js "(no turns)\n") else print w (.transcript tx))
    return some 0

/-! ## Todos -/

/-- `probeAuth()` with its default command: what cannot be read is not authorized. -/
def probeAuth (sh : Shell) : Executed Bool :=
  let authorized : Except JsError Bool :=
    match sh.remindctl [js "status", js "--json"] with
    | .error message => throw (.error message)
    | .ok stdout => do
      let parsed ← parseJson sh (if stdout = [] then js "\x7b\x7d" else stdout)
      let authorized ← prop parsed (js "authorized")
      return !falsy authorized
  ⟨[js "status", js "--json"], .ok (authorized.toOption.getD false)⟩

/-- Execute `remindctl` and go on with what came of it. -/
def executed {α : Type} (e : Executed α) : Traced CliEffect JsError α := do
  emit (.remindctl e.args)
  eval e.result

/-- `${v}`, of a value that may be undefined. -/
def template : Option Json → JsString
  | none => js "undefined"
  | some v => toText v

def runList (w : CliWorld) (args : ParsedArgs) (list : JsString) : Command := do
  let todos ← executed (listTodos w.shell list)
  jsonOr args (.todos todos)
    (if todos.isEmpty then stdout (js "(no open todos in \"" ++ list ++ js "\")\n")
    else print w (.todos todos))
  return some 0

def phaseOf (phase : Option JsString) : Option TodoPhase :=
  if phase = some (js "plan") then some .plan
  else if phase = some (js "exec") then some .exec
  else if phase = some (js "review") then some .review
  else none

/-- The notes of a new todo, with the metadata line when all three flags are good. -/
def notesOf (args : ParsedArgs) : JsString :=
  let notes := (flagString args [js "notes"]).getD []
  match flagInt args [js "pid"], flagString args [js "repo"], phaseOf (flagString args [js "phase"]) with
  | some pid, some (u :: repo), some phase =>
    let line := formatTodoMetadata (Number.ofInt pid) (u :: repo) phase
    if notes = [] then line else notes ++ js "\n\n" ++ line
  | _, _, _ => notes

/-- What `todos add` hands to `addTodo`. -/
def addInput (args : ParsedArgs) (title : JsString) : AddTodoInput :=
  let body := notesOf args
  { title, notes := if body = [] then none else some body, due := flagString args [js "due"]
    metadata := none }

def runAdd (w : CliWorld) (args : ParsedArgs) (list : JsString) : Command := do
  match args.positional[1]? with
  | none | some [] => do
    stderr (js "todos add: missing <title>\n")
    return some 2
  | some title => do
    let created ← executed (addTodo w.shell (addInput args title) list)
    let read := fun (v : Option Json) (key : String) => optProp v (js key)
    let metadata := read (some created) "metadata"
    jsonOr args (.answer created) do
      stdout (js "Created: " ++ template (read (some created) "id") ++ js " — " ++
        template (read (some created) "title") ++ js "\n")
      if !falsy (read metadata "pid") then
        stdout (js "Metadata: pid=" ++ template (read metadata "pid") ++ js " repo=" ++
          template (read metadata "repo") ++ js " phase=" ++ template (read metadata "phase") ++ js "\n")
    return some 0

/-- `completeTodo` never answers with anything but `{ ok: true }`. -/
def runComplete (w : CliWorld) (args : ParsedArgs) : Command := do
  match args.positional[1]? with
  | none | some [] => do
    stderr (js "todos complete: missing <id>\n")
    return some 2
  | some id => do
    let result ← executed (completeTodo w.shell id)
    let ok := !falsy (optProp (some result) (js "ok"))
    jsonOr args (.answer result)
      (stdout ((if ok then js "Completed: " else js "Failed to complete: ") ++ id ++ js "\n"))
    return some (if ok then 0 else 1)

/-- The list is read before the subcommand. -/
def todosCmd (w : CliWorld) (args : ParsedArgs) : Command := do
  if asksHelp args then
    help false "todos"
    return some 0
  let sub := args.positional.head?
  let list := (flagString args [js "list"]).getD ACTIVE_LIST
  let authorized ← executed (probeAuth w.shell)
  if !authorized then
    stderr (js "agent-conductor: Reminders CLI not authorized (active=remindctl). Run `tccutil reset Reminders` then retry, or install `brew install steipete/tap/remindctl` and grant Calendars access.\n")
    return some 3
  if sub = some (js "list") then runList w args list
  else if sub = some (js "add") then runAdd w args list
  else if sub = some (js "complete") then runComplete w args
  else
    stderr (js "todos: unknown subcommand '" ++ sub.getD [] ++ js "'\n\n")
    help true "todos"
    return some 2

/-! ## Panes -/

/-- `listAllPanes` answers a failure of tmux with no panes; its rows are the world's. -/
def runPanes (w : CliWorld) (args : ParsedArgs) : Command := do
  jsonOr args (.panes w.tmux.panes)
    (if w.tmux.panes.isEmpty then stdout (js "(no tmux panes)\n") else print w (.panes w.tmux.panes))
  return some 0

/-- `flagInt(args, "pid") ?? Number(args._[1])`, where it is a positive integer. -/
def pidArg (args : ParsedArgs) : Option Int :=
  let pid : Option Int := (flagInt args [js "pid"]).orElse fun _ =>
    match args.positional[1]?.map toNumber with
    | some (.finite q) => if q.den = 1 then some q.num else none
    | _ => none
  pid.filter fun pid => decide (0 < pid)

def runFind (w : CliWorld) (args : ParsedArgs) : Command := do
  match pidArg args with
  | none => do
    stderr (js "tmux find: invalid or missing <pid>\n")
    return some 2
  | some pid => do
    let pane := findPaneForPid w.tmux pid none
    jsonOr args (.pane pane) (match pane with
      | none => stdout (js "No tmux pane owns pid " ++ (JsNumber.finite pid).toJsString ++ js "\n")
      | some pane => stdout (js "pid " ++ (JsNumber.finite pid).toJsString ++ js " → " ++ pane.session ++ js ":" ++
          pane.pane ++ js "\n"))
    return some 0

def tmuxCmd (w : CliWorld) (args : ParsedArgs) : Command := do
  if asksHelp args then
    help false "tmux"
    return some 0
  let sub := args.positional.head?
  if sub = some (js "panes") then runPanes w args
  else if sub = some (js "find") then runFind w args
  else
    stderr (js "tmux: unknown subcommand '" ++ sub.getD [] ++ js "'\n\n")
    help true "tmux"
    return some 2

/-! ## Providers -/

def runProviderList (w : CliWorld) (args : ParsedArgs) : Command := do
  let names := allProviders.map (·.name)
  jsonOr args (.providers names) do
    print w (.providers names)
    stdout (js "\nRegistered: " ++ Text.ofInt names.length ++ js " provider(s). Default: " ++
      DEFAULT_PROVIDER_NAME ++ js "\n")
  return some 0

def runProviderInfo (w : CliWorld) (args : ParsedArgs) : Command := do
  match args.positional[1]? with
  | none | some [] => do
    stderr (js "providers info: missing <name>\n")
    return some 2
  | some name => match getProvider name with
    | none => do
      stderr (js "providers info: '" ++ name ++
        js "' not registered. Run 'agent-conductor providers list' to see available providers.\n")
      return some 2
    | some p => do
      jsonOr args (.provider p.name) (print w (.provider p.name))
      return some 0

def providersCmd (w : CliWorld) (args : ParsedArgs) : Command := do
  if asksHelp args then
    help false "providers"
    return some 0
  let sub := args.positional.head?
  if sub = some (js "list") then runProviderList w args
  else if sub = some (js "info") then runProviderInfo w args
  else
    stderr (js "providers: unknown subcommand '" ++ sub.getD [] ++ js "'\n\n")
    help true "providers"
    return some 2

/-! ## The log and the inject -/

/-- What `auditCmd` prints, a table that throws up to where it does. -/
def printed : List Printed → Traced CliEffect JsError Unit
  | [] => pure ()
  | .stdout text :: rest => do stdout text; printed rest
  | .stderr text :: rest => do stderr text; printed rest
  | .renderJson v :: rest => do emit (.world (.renderJson v)); printed rest
  | .renderTable rows :: rest | .brokenTable rows :: rest => do emit (.print (.audit rows)); printed rest

def auditCommand (w : CliWorld) (args : ParsedArgs) : Command := do
  let (output, result) := auditCmd w.auditTable w.AUDIT_FILE_PATH w.auditLog args
  printed output
  let code ← eval result
  return some code

def injectCommand (w : CliWorld) (args : ParsedArgs) : Command :=
  let o := injectCmd w.toWorld (injectFlags args)
  ⟨o.effects.map .world, o.result.map some⟩

/-! ## The servers -/

/-- The command continues after `runStdioServer` when the input has ended. -/
def mcpCmd (w : CliWorld) (args : ParsedArgs) : Command := do
  if asksHelp args then
    help false "mcp"
    return some 0
  emit (.mcpServer w.mcp.state.log)
  return if w.mcp.state.server.resolved then some 0 else none

/-- The process is parked until a signal ends it. -/
def serveCmd (w : CliWorld) (args : ParsedArgs) : Command := do
  if asksHelp args then
    help false "serve"
    return some 0
  let port := flagInt args [js "port"]
  match w.daemonError port with
  | some e => eval (.error e)
  | none => do
    emit (.daemon port (flagBool args [js "timeseries"]))
    return none

/-! ## The binary -/

inductive Sub
  | snapshot
  | sessions
  | transcript
  | todos
  | tmux
  | inject
  | audit
  | providers
  | mcp
  | serve
  | help
  deriving DecidableEq

def Sub.word : Sub → JsString
  | .snapshot => js "snapshot"
  | .sessions => js "sessions"
  | .transcript => js "transcript"
  | .todos => js "todos"
  | .tmux => js "tmux"
  | .inject => js "inject"
  | .audit => js "audit"
  | .providers => js "providers"
  | .mcp => js "mcp"
  | .serve => js "serve"
  | .help => js "help"

def Sub.all : List Sub :=
  [.snapshot, .sessions, .transcript, .todos, .tmux, .inject, .audit, .providers, .mcp, .serve, .help]

def Sub.ofWord (word : JsString) : Option Sub := Sub.all.find? fun s => s.word == word

/-- The help text of the binary, on standard output. -/
def usage : Command := do
  emit (.help false none)
  return some 0

def runSub (w : CliWorld) (args : ParsedArgs) : Sub → Command
  | .snapshot => snapshotCmd w args
  | .sessions => sessionsCmd w args
  | .transcript => transcriptCmd w args
  | .todos => todosCmd w args
  | .tmux => tmuxCmd w args
  | .inject => injectCommand w args
  | .audit => auditCommand w args
  | .providers => providersCmd w args
  | .mcp => mcpCmd w args
  | .serve => serveCmd w args
  | .help => usage

/-- The `switch` of `run`, for the arguments after the command word. -/
def runWord (w : CliWorld) (word : JsString) (args : ParsedArgs) : Command :=
  match Sub.ofWord word with
  | some sub => runSub w args sub
  | none => do
    stderr (js "agent-conductor: unknown command '" ++ word ++ js "'\n\n")
    emit (.help true none)
    return some 2

def run (w : CliWorld) (argv : List JsString) : Command :=
  let args := parseArgs argv
  if asksHelp args ∧ args.positional = [] then usage
  else if flagBool args [js "v", js "version"] then do
    stdout (js "agent-conductor v" ++ w.version ++ js "\n")
    return some 0
  else match args.positional with
    | [] | [] :: _ => usage
    | word :: rest => caught (runWord w word ⟨rest, args.flags⟩) fun e => do
        stderr (js "agent-conductor: " ++ w.errorMessage e ++ js "\n")
        return some 1

end Conductor.Cli.Commands
