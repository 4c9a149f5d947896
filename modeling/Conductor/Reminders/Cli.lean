import Conductor.Js.JsonText
import Conductor.Js.LowerCase
import Conductor.Reminders.Metadata

/-! # Todos through `remindctl`

The three functions with their default command. Each executes it once; what it
prints becomes a todo, however unlike a todo it is. -/
namespace Conductor.Reminders.Cli
open Conductor.Js Conductor.Js.Text Conductor.Js.Number Conductor.Js.Values Conductor.Js.JsonText
open Conductor.Js.LowerCase Conductor.Reminders.Poll Conductor.Reminders.Metadata

structure Shell where
  /-- `execFile("remindctl", args)`: what it prints, or the message it is rejected with. -/
  remindctl : List JsString → Except JsString JsString
  /-- The message of the `SyntaxError` that `JSON.parse` throws. -/
  syntaxMessage : JsString → JsString

/-- The arguments of the command that was executed, and what came of it. -/
structure Executed (α : Type) where
  args : List JsString
  result : Except JsError α

def ACTIVE_LIST : JsString := js "AgentTasks"

/-- Execute the command and read what it prints. -/
def execute {α : Type} (sh : Shell) (args : List JsString) (read : JsString → Except JsError α) :
    Executed α :=
  ⟨args, match sh.remindctl args with
    | .error message => throw (.error message)
    | .ok stdout => read stdout⟩

def parseJson (sh : Shell) (text : JsString) : Except JsError Json :=
  match parse text with
  | some v => pure v
  | none => throw (.error (sh.syntaxMessage text))

/-! ## What is read -/

mutual

/-- `String(v)`. -/
def toText : Json → JsString
  | .null => js "null"
  | .bool b => js (if b then "true" else "false")
  | .num n => n.toJsString
  | .str s => s
  | .arr xs => (js ",").intercalate (joined xs)
  | .obj _ => js "[object Object]"

/-- The elements as `Array.prototype.join` prints them. -/
def joined : List Json → List JsString
  | [] => []
  | .null :: xs => [] :: joined xs
  | x :: xs => toText x :: joined xs

end

/-- The last two are members of every object: a function, which `JSON.stringify`
omits, and the prototype. -/
def PRIORITY_TO_NUM : List (JsString × Option Json) :=
  [(js "none", some (.num (.finite 0))), (js "low", some (.num (.finite 1))),
   (js "medium", some (.num (.finite 5))), (js "high", some (.num (.finite 9))),
   (js "constructor", none), (js "__proto__", some (.obj []))]

/-- No key has a sigma in it. -/
def priorityOf : Option Json → Option Json
  | some (.num n) => some (.num n)
  | priority =>
    let key := toLowerCase (fun _ _ => false) (toText (orElse priority (.str (js "none"))))
    (PRIORITY_TO_NUM.lookup key).getD (some (.num (.finite 0)))

/-- The members of a todo; an undefined one is left out on the wire. -/
structure Normalized where
  id : Option Json
  title : Option Json
  list : Json
  notes : Json
  due : Json
  priority : Option Json
  completed : Json

def normalizeRemindCtl (raw : Json) : Except JsError Normalized := do
  let id ← prop raw (js "id")
  let read := fun key : String => optProp (some raw) (js key)
  return { id, title := read "title"
           list := orElse (read "list") (orElse (read "listName") (.str []))
           notes := orElse (read "notes") .null
           due := orElse (read "due") .null
           priority := priorityOf (read "priority")
           completed := orElse (read "completed") (orElse (read "isCompleted") (.bool false)) }

/-- `parseTodoMetadata`, on notes that need not be a string. -/
def metadataOf : Json → Except JsError TodoMetadata
  | .str notes => pure (parseTodoMetadata notes)
  | .null | .bool false | .num .nan => pure ⟨none, none, none⟩
  | .num (.finite q) => if q = 0 then pure ⟨none, none, none⟩ else throw (.typeError (js "match"))
  | _ => throw (.typeError (js "match"))

/-- A member that is left out when undefined. -/
def member (key : String) (v : Option Json) : List (JsString × Json) :=
  v.toList.map fun v => (js key, v)

def metadataJson (m : TodoMetadata) : Json :=
  .obj (member "pid" (m.pid.map .num) ++ member "repo" (m.repo.map .str) ++
    member "phase" (m.phase.map fun phase => .str (phaseText phase)))

/-- `{ ...normalized, metadata }`. -/
def todoOf (raw : Json) : Except JsError Json := do
  let t ← normalizeRemindCtl raw
  let metadata ← metadataOf t.notes
  return .obj (member "id" t.id ++ member "title" t.title ++
    [(js "list", t.list), (js "notes", t.notes), (js "due", t.due)] ++
    member "priority" t.priority ++
    [(js "completed", t.completed), (js "metadata", metadataJson metadata)])

/-! ## The functions -/

def listTodos (sh : Shell) (list : JsString) : Executed (List Json) :=
  execute sh [js "show", js "all", js "--list", list, js "--json"] fun stdout => do
    match ← parseJson sh (if stdout = [] then js "[]" else stdout) with
    | .arr raw => raw.mapM todoOf
    | _ => throw (.typeError (js "map"))

structure AddTodoInput where
  title : JsString
  notes : Option JsString
  due : Option JsString
  metadata : Option (JsNumber × JsString × TodoPhase)

/-- The notes with the metadata line after a blank one. -/
def fullNotes (input : AddTodoInput) : JsString :=
  let notes := input.notes.getD []
  match input.metadata with
  | none => notes
  | some (pid, repo, phase) =>
    (if notes = [] then [] else notes ++ js "\n\n") ++ formatTodoMetadata pid repo phase

def addTodo (sh : Shell) (input : AddTodoInput) (list : JsString) : Executed Json :=
  let notes := fullNotes input
  let due := input.due.getD []
  execute sh ([js "add", input.title, js "--list", list] ++
      (if notes = [] then [] else [js "--notes", notes]) ++
      (if due = [] then [] else [js "--due", due]) ++ [js "--json"]) fun stdout => do
    todoOf (← parseJson sh stdout)

/-- It answers `{ ok: true }`, whatever the command prints. -/
def completeTodo (sh : Shell) (id : JsString) : Executed Json :=
  execute sh [js "complete", id, js "--json"] fun _ => pure (.obj [(js "ok", .bool true)])

/-- Listing is the one command that changes nothing. -/
def changes (args : List JsString) : Bool := args.head? != some (js "show")

end Conductor.Reminders.Cli
