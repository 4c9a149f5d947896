import Conductor.Js.Values

/-! # The tool registry

Which tools the server exposes and how `tools/list` describes them. -/
namespace Conductor.Mcp.Registry
open Conductor.Js.Text Conductor.Js.Values

inductive McpTool
  | snapshot
  | sessions
  | transcript
  | todosList
  | todosAdd
  | todosComplete
  | inject
  | auditTail
  deriving DecidableEq

inductive ArgType
  | string
  | number
  | boolean

structure ArgProperty where
  name : JsString
  type : ArgType
  description : JsString

/-- The input schemas all have type `object` and admit no additional properties. -/
structure McpToolDescriptor where
  name : JsString
  description : JsString
  properties : List ArgProperty
  required : List JsString

def ArgProperty.of (name : String) (type : ArgType) (description : String) : ArgProperty :=
  ⟨js name, type, js description⟩

def McpTool.descriptor : McpTool → McpToolDescriptor
  | .snapshot =>
    { name := js "snapshot"
      description := js "Build an OrchestratorSnapshot for every live AI coding session: pid, repo, branch, refinedStatus, last assistant summary, deterministic suggestion + action, tmux pane mapping, cwd-collision conflict marker."
      properties := [
        .of "provider" .string "Provider name (claude-code | aider | cursor-cli). Default: claude-code. Use --all-providers semantics by passing 'all'."]
      required := [] }
  | .sessions =>
    { name := js "sessions"
      description := js "Discover live AI coding sessions (cheaper than snapshot — no transcript tail, no suggestion, no tmux lookup)."
      properties := [
        .of "provider" .string "Provider name. Default: claude-code. Use 'all' for every provider."]
      required := [] }
  | .transcript =>
    { name := js "transcript"
      description := js "Read the last N turns from a JSONL transcript at the given path (tails the last few KB rather than reading the whole file)."
      properties := [
        .of "path" .string "Absolute path to the .jsonl transcript file.",
        .of "limit" .number "Number of recent lines to return (default: 5)."]
      required := [js "path"] }
  | .todosList =>
    { name := js "todos_list"
      description := js "List todos from the Apple Reminders intent layer. macOS only; returns \x7bauthorized:false\x7d on other platforms or when remindctl is missing."
      properties := [
        .of "list" .string "Reminders list name (default: AgentTasks)."]
      required := [] }
  | .todosAdd =>
    { name := js "todos_add"
      description := js "Create a new todo in the Apple Reminders intent layer."
      properties := [
        .of "title" .string "Todo title.",
        .of "body" .string "Optional body. Use 'pid:NNNN repo:foo phase:plan' metadata format.",
        .of "list" .string "List name (default: AgentTasks)."]
      required := [js "title"] }
  | .todosComplete =>
    { name := js "todos_complete"
      description := js "Mark a todo completed in the Apple Reminders intent layer."
      properties := [
        .of "id" .string "Reminder ID — full UUID or a unique prefix (remindctl resolves prefixes)."]
      required := [js "id"] }
  | .inject =>
    { name := js "inject"
      description := js "Send keystrokes to the tmux pane owning the given pid (with audit log). REQUIRES `approve: true` in arguments — mirrors the auto-pilot 'confidence === high' gate. Cwd-collision lock is enforced unless `force: true`."
      properties := [
        .of "pid" .number "Target process pid.",
        .of "text" .string "Keystrokes to send (newline appended by sendKeys).",
        .of "approve" .boolean "Must be `true`. Explicit safety gate so MCP clients cannot inject without intent.",
        .of "force" .boolean "Bypass the cwd-collision lock. Default false.",
        .of "dryRun" .boolean "Audit-only, do not actually call tmux send-keys.",
        .of "source" .string "Audit log `source` tag. Constrained to 'user-approved' | 'auto' | 'skill'; anything else (or omitted) is normalised to 'skill' since MCP callers are typically other agents invoking on the user's behalf."]
      required := [js "pid", js "text", js "approve"] }
  | .auditTail =>
    { name := js "audit_tail"
      description := js "Return the last N entries from the inject audit log."
      properties := [
        .of "tail" .number "Number of entries (default: 20)."]
      required := [] }

/-- In the order of `tools/list`. -/
def MCP_TOOLS : List McpTool :=
  [.snapshot, .sessions, .transcript, .todosList, .todosAdd, .todosComplete, .inject, .auditTail]

/-- Find a tool by name. -/
def findTool (name : JsString) : Option McpTool := MCP_TOOLS.find? (·.descriptor.name == name)

def ArgType.text : ArgType → JsString
  | .string => js "string"
  | .number => js "number"
  | .boolean => js "boolean"

def ArgProperty.toJson (p : ArgProperty) : JsString × Json :=
  (p.name, .obj [(js "type", .str p.type.text), (js "description", .str p.description)])

def McpToolDescriptor.toJson (d : McpToolDescriptor) : Json :=
  let required := match d.required with
    | [] => []
    | names => [(js "required", Json.arr (names.map .str))]
  .obj [(js "name", .str d.name), (js "description", .str d.description),
    (js "inputSchema", .obj ([(js "type", .str (js "object")),
      (js "properties", .obj (d.properties.map (·.toJson)))] ++ required ++
      [(js "additionalProperties", .bool false)]))]

/-- All tool descriptors, for `tools/list`. -/
def allToolDescriptors : List Json := MCP_TOOLS.map (·.descriptor.toJson)

/-- Every tool is registered, and found under its own name: the names are distinct. -/
theorem findTool_name (t : McpTool) : findTool t.descriptor.name = some t := by
  cases t with
  | snapshot | sessions | transcript | todosList | todosAdd | todosComplete | inject | auditTail =>
    decide +kernel

theorem findTool_eq_some {name : JsString} {t : McpTool} :
    findTool name = some t ↔ t.descriptor.name = name := by
  refine ⟨fun h => ?_, fun h => ?_⟩
  · simpa using List.find?_some h
  · rw [← h]
    exact findTool_name t

end Conductor.Mcp.Registry
