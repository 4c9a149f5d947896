import Conductor.Cli.SnapshotAgreement
import Conductor.Reminders.RemindctlStore

/-! # Three ways to the todos

The library functions, the tools of the MCP server and the `todos` command all end in
one execution of `remindctl` for a request; the command asks for its status first. So
callers of any kind, one after the other, are answered by one store of todos. -/
namespace Conductor.Cli.TodoWays
open Conductor.Lib.Runs Conductor.Lib.Traces Conductor.Js Conductor.Js.Text Conductor.Js.Values
open Conductor.Js.JsonText Conductor.Reminders.Metadata Conductor.Reminders.Cli
open Conductor.Reminders.RemindctlStore Conductor.Mcp.Registry Conductor.Mcp.Tools Conductor.Mcp.Handlers
open Conductor.Mcp.Server (falsy)
open Conductor.Cli.Args Conductor.Cli.RepeatedFlags Conductor.Cli.Commands
open Conductor.Reminders.TodoStore (Store)

/-! ## What is asked for -/

/-- What `todos add` is given, its metadata apart from the notes. -/
def passedInput (args : ParsedArgs) (title : JsString) : AddTodoInput :=
  { title, notes := flagString args [js "notes"], due := flagString args [js "due"]
    metadata := match flagInt args [js "pid"], flagString args [js "repo"],
        phaseOf (flagString args [js "phase"]) with
      | some pid, some (u :: repo), some phase => some (Number.ofInt pid, u :: repo, phase)
      | _, _, _ => none }

/-- A required text. -/
def nonEmpty (text : Option JsString) : Option JsString := text.filter fun text => text ≠ []

def commandRequest (args : ParsedArgs) : Option Request :=
  if asksHelp args then none
  else
    let list := (flagString args [js "list"]).getD ACTIVE_LIST
    let sub := args.positional.head?
    if sub = some (js "list") then some (.list list)
    else if sub = some (js "add") then
      (nonEmpty args.positional[1]?).map fun title => .add (passedInput args title) list
    else if sub = some (js "complete") then (nonEmpty args.positional[1]?).map .complete
    else none

def toolRequest (tool : McpTool) (args : Json) : Option Request :=
  let list := (stringArg args (js "list")).getD ACTIVE_LIST
  match tool with
  | .todosList => some (.list list)
  | .todosAdd => (nonEmpty (stringArg args (js "title"))).map fun title =>
      .add { title, notes := stringArg args (js "body"), due := none, metadata := none } list
  | .todosComplete => (nonEmpty (stringArg args (js "id"))).map .complete
  | _ => none

inductive Caller
  | library (r : Request)
  | tool (w : ToolWorld) (tool : McpTool) (args : Json)
  | command (w : CliWorld) (args : ParsedArgs)

def Caller.asked : Caller → Option Request
  | .library r => some r
  | .tool _ t args => toolRequest t args
  | .command _ args => commandRequest args

/-- The caller is shown the answer as a value: a command needs `--json` for that. -/
def Caller.readsJson : Caller → Bool
  | .library _ | .tool _ _ _ => true
  | .command _ args => asksJson args

/-! ## What is executed and answered -/

def commandExecution : CliEffect → Option (List JsString)
  | .remindctl args => some args
  | _ => none

def toolExecution : ToolEffect → Option (List JsString)
  | .remindctl args => some args
  | _ => none

def jsonOf : CliEffect → Option Json
  | .renderJson (.todos todos) => some (.arr todos)
  | .renderJson (.answer v) => some v
  | _ => none

def payloadJson : Payload → Json
  | .todos todos => .arr todos
  | .todo answer => answer
  | _ => .null

section Calls

variable {σ : Type} (c : Remindctl σ) (syntaxMessage : JsString → JsString)

/-- The state after some executions. -/
def stateAfter (s : σ) (executions : List (List JsString)) : σ :=
  executions.foldl (fun s args => (c.exec s args).2) s

/-- The state of `remindctl` after a call, and the answer. -/
def call (s : σ) : Caller → σ × Except JsError Json
  | .library r => ((perform c syntaxMessage s r).2, (perform c syntaxMessage s r).1)
  | .tool w t args =>
    let run := handler { w with shell := shellAt c syntaxMessage s } t args
    (stateAfter c s (run.effects.filterMap toolExecution), run.result.map payloadJson)
  | .command w args =>
    let run := todosCmd { w with shell := shellAt c syntaxMessage s } args
    (stateAfter c s (run.effects.filterMap commandExecution),
      run.result.map fun _ => (run.effects.findSome? jsonOf).getD .null)

/-- Callers one after the other: the state in the end, and what those heard that asked. -/
def stateAfterCalls (s : σ) (callers : List Caller) : σ :=
  callers.foldl (fun s caller => (call c syntaxMessage s caller).1) s

def heard : σ → List Caller → List (Request × Except JsError Json)
  | _, [] => []
  | s, caller :: callers =>
    (caller.asked.toList.map fun r => (r, (call c syntaxMessage s caller).2)) ++
      heard (call c syntaxMessage s caller).1 callers

end Calls

/-! ## The command -/

section Command

variable {σ : Type} {c : Remindctl σ} {syntaxMessage : JsString → JsString} {s : σ} {args : ParsedArgs}

/-- The notes are the same when the metadata is passed apart from them. -/
theorem fullNotes_passedInput (title : JsString) :
    fullNotes (passedInput args title) = fullNotes (addInput args title) := by
  have hbody : fullNotes (addInput args title) = notesOf args := getD_unlessEmpty (notesOf args)
  rw [hbody]
  unfold fullNotes passedInput notesOf
  cases flagInt args [js "pid"] with
  | none => rfl
  | some pid =>
    cases flagString args [js "repo"] with
    | none => rfl
    | some repo => cases repo with
      | nil => rfl
      | cons u repo =>
        cases phaseOf (flagString args [js "phase"]) with
        | none => rfl
        | some phase =>
          simp only
          split
          · rfl
          · rfl

theorem addTodo_passedInput (sh : Shell) (title list : JsString) :
    addTodo sh (addInput args title) list = addTodo sh (passedInput args title) list := by
  rw [addTodo_eq, addTodo_eq, fullNotes_passedInput]
  rfl

/-- No effect executes `remindctl`. -/
abbrev Aside (e : CliEffect) : Prop := commandExecution e = none

theorem filterMap_aside {ws : List CliEffect} (h : ∀ e ∈ ws, Aside e) : ws.filterMap commandExecution = [] :=
  List.filterMap_eq_nil_iff.mpr h

/-- The state goes on as the request has it, and under `--json` its answer is shown. -/
structure Performs (c : Remindctl σ) (syntaxMessage : JsString → JsString) (s : σ) (r : Request)
    (json : Bool) (ws : List CliEffect) (result : Except JsError (Option Nat)) : Prop where
  state : stateAfter c s (ws.filterMap commandExecution) = (perform c syntaxMessage s r).2
  answer : json = true → result.map (fun _ => (ws.findSome? jsonOf).getD .null) =
    (perform c syntaxMessage s r).1

theorem executed_effects {α : Type} (e : Executed α) :
    (executed e : Traced CliEffect JsError α).effects = [.remindctl e.args] := by
  show [CliEffect.remindctl e.args] ++ [] = _
  rw [List.append_nil]

theorem executed_result {α : Type} (e : Executed α) :
    (executed e : Traced CliEffect JsError α).result = e.result := rfl

/-- What follows an execution: its value as JSON, or a text, and then a code. -/
theorem performs_executed {α : Type} {r : Request} {e : Executed α} (show_ : α → Json) (value : α → Shown)
    {text : α → Traced CliEffect JsError Unit} (code : α → Nat)
    (he : perform c syntaxMessage s r = settle c s e show_)
    (hvalue : ∀ a, jsonOf (.renderJson (value a)) = some (show_ a)) (htext : ∀ a, Only Aside (text a)) :
    Ensures (Performs c syntaxMessage s r (asksJson args)) (executed e >>= fun a => do
      jsonOr args (value a) (text a)
      return some (code a)) := by
  have hstate : ∀ ws : List CliEffect, (∀ w ∈ ws, Aside w) →
      stateAfter c s (([CliEffect.remindctl e.args] ++ ws).filterMap commandExecution) =
        (perform c syntaxMessage s r).2 := by
    intro ws hws
    rw [List.filterMap_append, filterMap_aside hws, List.append_nil, he]
    rfl
  refine ensures_bind (fun a ha => ?_) fun err herr => ?_
  · rw [executed_result] at ha
    rw [executed_effects]
    have hanswer : (perform c syntaxMessage s r).1 = .ok (show_ a) := by
      rw [he, settle, ha]
      rfl
    unfold jsonOr
    cases hjson : asksJson args with
    | true =>
      refine ⟨hstate [.renderJson (value a)] (fun _ hw => by rw [List.mem_singleton.mp hw]; rfl), fun _ => ?_⟩
      have hfound : List.findSome? jsonOf [.remindctl e.args, .renderJson (value a)] = some (show_ a) := by
        rw [List.findSome?_cons_of_isNone rfl, List.findSome?_cons, hvalue]
      rw [hanswer]
      show Except.ok ((List.findSome? jsonOf [.remindctl e.args, .renderJson (value a)]).getD .null) = _
      rw [hfound]
      rfl
    | false =>
      refine ⟨hstate _ ?_, fun h => by cases h⟩
      exact only_bind (htext a) fun _ _ => only_pure _
  · rw [executed_result] at herr
    rw [executed_effects]
    refine ⟨hstate [] fun _ h => (by cases h), fun _ => ?_⟩
    rw [he, settle, herr]
    rfl

theorem aside_stdout (text : JsString) : Only Aside (stdout text) := only_emit.mpr rfl

theorem aside_stderr (text : JsString) : Only Aside (stderr text) := only_emit.mpr rfl

theorem aside_help (onStderr : Bool) (command : String) : Only Aside (help onStderr command) :=
  only_emit.mpr rfl

theorem aside_print (w : CliWorld) (v : Shown) : Only Aside (print w v) := by
  refine only_bind (only_emit.mpr rfl) fun _ _ => ?_
  cases w.printError v with
  | none => exact only_pure _
  | some e => exact only_eval _

variable {w : CliWorld}

theorem performs_list (hw : w.shell = shellAt c syntaxMessage s) (list : JsString) :
    Ensures (Performs c syntaxMessage s (.list list) (asksJson args)) (runList w args list) := by
  refine performs_executed .arr .todos (fun _ => 0) (by rw [hw]; rfl) (fun _ => rfl) fun todos => ?_
  split
  · exact aside_stdout _
  · exact aside_print w _

theorem of_nonEmpty {text : Option JsString} {v : JsString} (h : nonEmpty text = some v) :
    text = some v ∧ v ≠ [] := by
  obtain ⟨htext, hne⟩ := Option.filter_eq_some_iff.mp h
  exact ⟨htext, by simpa using hne⟩

theorem performs_add (hw : w.shell = shellAt c syntaxMessage s) {title : JsString} (list : JsString)
    (htitle : nonEmpty args.positional[1]? = some title) :
    Ensures (Performs c syntaxMessage s (.add (passedInput args title) list) (asksJson args))
      (runAdd w args list) := by
  obtain ⟨hpos, hne⟩ := of_nonEmpty htitle
  obtain ⟨u, rest, rfl⟩ := List.exists_cons_of_ne_nil hne
  have hperform : perform c syntaxMessage s (.add (passedInput args (u :: rest)) list) =
      settle c s (addTodo w.shell (addInput args (u :: rest)) list) id := by
    rw [hw, addTodo_passedInput]
    rfl
  unfold runAdd
  rw [hpos]
  refine performs_executed id .answer (fun _ => 0) hperform (fun _ => rfl) fun created => ?_
  refine only_bind (aside_stdout _) fun _ _ => ?_
  split
  · exact aside_stdout _
  · exact only_pure _

theorem performs_complete (hw : w.shell = shellAt c syntaxMessage s) {start : JsString}
    (hstart : nonEmpty args.positional[1]? = some start) :
    Ensures (Performs c syntaxMessage s (.complete start) (asksJson args)) (runComplete w args) := by
  obtain ⟨hpos, hne⟩ := of_nonEmpty hstart
  obtain ⟨u, rest, rfl⟩ := List.exists_cons_of_ne_nil hne
  have hperform : perform c syntaxMessage s (.complete (u :: rest)) =
      settle c s (completeTodo w.shell (u :: rest)) id := by
    rw [hw]
    rfl
  unfold runComplete
  rw [hpos]
  exact performs_executed id .answer (fun result => if !falsy (optProp (some result) (js "ok")) then 0 else 1)
    hperform (fun _ => rfl) fun result => aside_stdout _

theorem probeAuth_documented (hc : c.Documented) (syntaxMessage : JsString → JsString) (s : σ) :
    (probeAuth (shellAt c syntaxMessage s)).result = .ok true ∧
      (c.exec s (probeAuth (shellAt c syntaxMessage s)).args).2 = s := by
  obtain ⟨out, v, hexec, hparse, hauthorized⟩ := hc.status s
  have hne : out ≠ [] := by
    rintro rfl
    cases hparse
  have hprop : prop v (js "authorized") = .ok (some (.bool true)) := by
    cases v with
    | obj ms => exact congrArg Except.ok hauthorized
    | _ => cases hauthorized
  refine ⟨?_, congrArg Prod.snd hexec⟩
  unfold probeAuth shellAt
  simp only [hexec, if_neg hne, parseJson_of_parse hparse]
  show Except.ok (((prop v (js "authorized")) >>= fun authorized => pure !falsy authorized).toOption.getD false) = _
  rw [hprop]
  rfl

theorem nonEmpty_eq_none {text : Option JsString} (h : nonEmpty text = none) : text = none ∨ text = some [] := by
  rcases text with _ | text
  · exact .inl rfl
  · refine .inr ?_
    have hempty := Option.filter_eq_none_iff.mp h text rfl
    simpa using hempty

theorem runAdd_missing {list : JsString} (h : nonEmpty args.positional[1]? = none) :
    Only Aside (runAdd w args list) := by
  unfold runAdd
  rcases nonEmpty_eq_none h with hpos | hpos
  · rw [hpos]
    exact only_bind (aside_stderr _) fun _ _ => only_pure _
  · rw [hpos]
    exact only_bind (aside_stderr _) fun _ _ => only_pure _

theorem runComplete_missing (h : nonEmpty args.positional[1]? = none) : Only Aside (runComplete w args) := by
  unfold runComplete
  rcases nonEmpty_eq_none h with hpos | hpos
  · rw [hpos]
    exact only_bind (aside_stderr _) fun _ _ => only_pure _
  · rw [hpos]
    exact only_bind (aside_stderr _) fun _ _ => only_pure _

/-- The request comes after a look at the status. -/
theorem Performs.after_status {r : Request} {json : Bool} {ws : List CliEffect}
    {result : Except JsError (Option Nat)} {status : List JsString} (hstatus : (c.exec s status).2 = s)
    (h : Performs c syntaxMessage s r json ws result) :
    Performs c syntaxMessage s r json ([.remindctl status] ++ ws) result := by
  refine ⟨?_, h.answer⟩
  show stateAfter c (c.exec s status).2 (ws.filterMap commandExecution) = _
  rw [hstatus]
  exact h.state

/-- Nothing but the status was looked at. -/
def Idle (c : Remindctl σ) (s : σ) (ws : List CliEffect) (_ : Except JsError (Option Nat)) : Prop :=
  stateAfter c s (ws.filterMap commandExecution) = s

theorem idle_aside {run : Command} (h : Only Aside run) : Ensures (Idle c s) run := by
  show stateAfter c s (run.effects.filterMap commandExecution) = s
  rw [filterMap_aside h]
  rfl

/-- Past the look at the status. -/
theorem ensures_probed {Q : List CliEffect → Except JsError (Option Nat) → Prop} {f : Bool → Command}
    (hauthorized : (probeAuth w.shell).result = .ok true)
    (h : Ensures (fun ws r => Q ([.remindctl (probeAuth w.shell).args] ++ ws) r) (f true)) :
    Ensures Q (executed (probeAuth w.shell) >>= f) := by
  refine ensures_bind (fun a ha => ?_) fun e he => ?_
  · rw [executed_result, hauthorized] at ha
    cases ha
    rw [executed_effects]
    exact h
  · rw [executed_result, hauthorized] at he
    cases he

/-- What the command does is what its request does. -/
theorem todosCmd_request (hc : c.Documented) (hw : w.shell = shellAt c syntaxMessage s) :
    match commandRequest args with
    | none => Ensures (Idle c s) (todosCmd w args)
    | some r => Ensures (Performs c syntaxMessage s r (asksJson args)) (todosCmd w args) := by
  obtain ⟨hauthorized, hstatus⟩ := probeAuth_documented hc syntaxMessage s
  rw [← hw] at hauthorized hstatus
  have hidle : ∀ {run : Command}, Only Aside run →
      Ensures (fun ws r => Idle c s ([.remindctl (probeAuth w.shell).args] ++ ws) r) run := by
    intro run h
    show stateAfter c (c.exec s (probeAuth w.shell).args).2 (run.effects.filterMap commandExecution) = s
    rw [hstatus]
    exact idle_aside h
  unfold commandRequest todosCmd
  by_cases hhelp : asksHelp args = true
  · rw [if_pos hhelp, if_pos hhelp]
    exact idle_aside (only_bind (aside_help false "todos") fun _ _ => only_pure _)
  rw [if_neg hhelp, if_neg hhelp]
  simp only
  by_cases hlist : args.positional.head? = some (js "list")
  · rw [if_pos hlist, if_pos hlist]
    exact ensures_probed hauthorized ((performs_list hw _).imp fun _ _ h => h.after_status hstatus)
  rw [if_neg hlist, if_neg hlist]
  by_cases hadd : args.positional.head? = some (js "add")
  · rw [if_pos hadd, if_pos hadd]
    cases htitle : nonEmpty args.positional[1]? with
    | none =>
      exact ensures_probed hauthorized (hidle (runAdd_missing htitle))
    | some title =>
      exact ensures_probed hauthorized ((performs_add hw _ htitle).imp fun _ _ h => h.after_status hstatus)
  rw [if_neg hadd, if_neg hadd]
  by_cases hcomplete : args.positional.head? = some (js "complete")
  · rw [if_pos hcomplete, if_pos hcomplete]
    cases hstart : nonEmpty args.positional[1]? with
    | none =>
      exact ensures_probed hauthorized (hidle (runComplete_missing hstart))
    | some start =>
      exact ensures_probed hauthorized ((performs_complete hw hstart).imp fun _ _ h => h.after_status hstatus)
  rw [if_neg hcomplete, if_neg hcomplete]
  exact ensures_probed hauthorized (hidle (only_bind (aside_stderr _) fun _ _ =>
    only_bind (aside_help true "todos") fun _ _ => only_pure _))

end Command

/-! ## The tools -/

section Tools

variable {σ : Type} {c : Remindctl σ} {syntaxMessage : JsString → JsString} {s : σ}

theorem withText_eq (args : Json) (key : String) (run : JsString → ToolRun) :
    withText args key run = match nonEmpty (stringArg args (js key)) with
      | none => quiet (throw (.error (js "missing required arg: " ++ js key)))
      | some text => run text := by
  unfold withText
  rcases stringArg args (js key) with _ | (_ | ⟨u, rest⟩)
  · rfl
  · rfl
  · rfl

/-- The tools that have no request to make execute nothing. -/
theorem handler_other {w : ToolWorld} {tool : McpTool} {args : Json} (h : toolRequest tool args = none) :
    (handler w tool args).effects.filterMap toolExecution = [] := by
  cases tool with
  | snapshot => rfl
  | sessions => rfl
  | transcript =>
    show (transcriptTool w args).effects.filterMap toolExecution = []
    unfold transcriptTool
    rw [withText_eq]
    split
    · rfl
    · rfl
  | todosList => cases h
  | todosAdd =>
    have hnone : nonEmpty (stringArg args (js "title")) = none := Option.map_eq_none_iff.mp h
    show (todosAddTool w args).effects.filterMap toolExecution = []
    unfold todosAddTool
    rw [withText_eq, hnone]
    rfl
  | todosComplete =>
    have hnone : nonEmpty (stringArg args (js "id")) = none := Option.map_eq_none_iff.mp h
    show (todosCompleteTool w args).effects.filterMap toolExecution = []
    unfold todosCompleteTool
    rw [withText_eq, hnone]
    rfl
  | inject =>
    refine List.filterMap_eq_nil_iff.mpr fun e he => ?_
    obtain ⟨e, -, rfl⟩ := List.mem_map.mp he
    rfl
  | auditTail =>
    show (auditTailTool w args).effects.filterMap toolExecution = []
    unfold auditTailTool
    simp only
    split
    · rfl
    · rfl
    · rfl

/-- What a tool does is what its request does. -/
theorem handler_request {w : ToolWorld} (hw : w.shell = shellAt c syntaxMessage s) {tool : McpTool}
    {args : Json} {r : Request} (h : toolRequest tool args = some r) :
    stateAfter c s ((handler w tool args).effects.filterMap toolExecution) =
        (perform c syntaxMessage s r).2 ∧
      (handler w tool args).result.map payloadJson = (perform c syntaxMessage s r).1 := by
  have hmap : ∀ {α : Type} (e : Executed α) (payload : α → Payload),
      (ofExecuted e payload).result.map payloadJson = e.result.map fun a => payloadJson (payload a) := by
    intro α e payload
    unfold ofExecuted
    cases e.result <;> rfl
  cases tool with
  | todosList =>
    cases h
    refine ⟨?_, (hmap _ _).trans ?_⟩
    · rw [perform, ← hw]
      rfl
    · rw [perform, ← hw]
      rfl
  | todosAdd =>
    obtain ⟨title, htitle, rfl⟩ := Option.map_eq_some_iff.mp h
    have htool : handler w .todosAdd args = ofExecuted (addTodo w.shell
        { title, notes := stringArg args (js "body"), due := none, metadata := none }
        ((stringArg args (js "list")).getD ACTIVE_LIST)) .todo := by
      show todosAddTool w args = _
      unfold todosAddTool
      rw [withText_eq, htitle]
    rw [htool, perform, ← hw]
    exact ⟨rfl, hmap _ _⟩
  | todosComplete =>
    obtain ⟨start, hstart, rfl⟩ := Option.map_eq_some_iff.mp h
    have htool : handler w .todosComplete args = ofExecuted (completeTodo w.shell start) .todo := by
      show todosCompleteTool w args = _
      unfold todosCompleteTool
      rw [withText_eq, hstart]
    rw [htool, perform, ← hw]
    exact ⟨rfl, hmap _ _⟩
  | snapshot => cases h
  | sessions => cases h
  | transcript => cases h
  | inject => cases h
  | auditTail => cases h

end Tools

/-! ## Callers -/

section Callers

variable {σ : Type} {c : Remindctl σ} {syntaxMessage : JsString → JsString} {s : σ}

theorem call_asked (hc : c.Documented) {caller : Caller} {r : Request} (h : caller.asked = some r) :
    (call c syntaxMessage s caller).1 = (perform c syntaxMessage s r).2 ∧
      (caller.readsJson = true → (call c syntaxMessage s caller).2 = (perform c syntaxMessage s r).1) := by
  cases caller with
  | library q => cases h; exact ⟨rfl, fun _ => rfl⟩
  | tool w t args =>
    obtain ⟨hstate, hanswer⟩ := @handler_request _ c syntaxMessage s
      { w with shell := shellAt c syntaxMessage s } rfl t args r h
    exact ⟨hstate, fun _ => hanswer⟩
  | command w args =>
    have hrun := @todosCmd_request _ c syntaxMessage s args
      { w with shell := shellAt c syntaxMessage s } hc rfl
    rw [show commandRequest args = some r from h] at hrun
    exact ⟨hrun.state, hrun.answer⟩

theorem call_idle (hc : c.Documented) {caller : Caller} (h : caller.asked = none) :
    (call c syntaxMessage s caller).1 = s := by
  cases caller with
  | library q => cases h
  | tool w t args =>
    show stateAfter c s ((handler _ t args).effects.filterMap toolExecution) = s
    rw [handler_other h]
    rfl
  | command w args =>
    have hrun := @todosCmd_request _ c syntaxMessage s args
      { w with shell := shellAt c syntaxMessage s } hc rfl
    rw [show commandRequest args = none from h] at hrun
    exact hrun

/-- Callers are answered as their requests are. -/
theorem heard_eq (hc : c.Documented) {callers : List Caller} (hjson : ∀ caller ∈ callers, caller.readsJson = true) :
    heard c syntaxMessage s callers = answers c syntaxMessage s (callers.filterMap Caller.asked) ∧
      stateAfterCalls c syntaxMessage s callers =
        (callers.filterMap Caller.asked).foldl (fun s r => (perform c syntaxMessage s r).2) s := by
  induction callers generalizing s with
  | nil => exact ⟨rfl, rfl⟩
  | cons caller callers ih =>
    have hrest := fun t => @ih t fun caller h => hjson caller (List.mem_cons_of_mem _ h)
    unfold heard stateAfterCalls
    rw [List.filterMap_cons, List.foldl_cons]
    cases h : caller.asked with
    | none =>
      rw [call_idle hc h]
      exact hrest s
    | some r =>
      obtain ⟨hstate, hanswer⟩ := call_asked hc h
      rw [hanswer (hjson caller List.mem_cons_self), hstate]
      obtain ⟨hheard, hafter⟩ := hrest (perform c syntaxMessage s r).2
      exact ⟨congrArg (_ :: ·) hheard, hafter⟩

end Callers

/-- `todos add Review --list=Work --pid=2 --repo=new --phase=exec --json`. -/
def addReview : ParsedArgs :=
  parseArgs [js "add", js "Review", js "--list=Work", js "--pid=2", js "--repo=new", js "--phase=exec",
    js "--json"]

/-- A todo is added by the command, listed by the tool and completed by the library. -/
def threeCallers : List Caller :=
  [.command SnapshotAgreement.sharedCli addReview,
    .tool (Mcp.SchemaChecks.quietWorld 0) .todosList (.obj [(js "list", .str (js "Work"))]),
    .library (.complete (js "A"))]

def reviewInput : AddTodoInput := ⟨js "Review", none, none, some (Number.ofInt 2, js "new", .exec)⟩

theorem commandRequest_addReview : commandRequest addReview = some (.add reviewInput (js "Work")) := by
  have hpid : flagInt addReview [js "pid"] = some 2 := by decide +kernel
  have hrest : asksHelp addReview = false ∧ flagString addReview [js "list"] = some (js "Work") ∧
      flagString addReview [js "notes"] = none ∧ flagString addReview [js "due"] = none ∧
      flagString addReview [js "repo"] = some (js "new") ∧
      phaseOf (flagString addReview [js "phase"]) = some .exec ∧ nonEmpty addReview.positional[1]? = some (js "Review") ∧
      addReview.positional.head? = some (js "add") := by decide +kernel
  obtain ⟨hhelp, hlist, hnotes, hdue, hrepo, hphase, htitle, hsub⟩ := hrest
  have hinput : passedInput addReview (js "Review") = reviewInput := by
    unfold passedInput
    rw [hpid, hnotes, hdue, hrepo, hphase]
    rfl
  unfold commandRequest
  rw [hhelp, hlist, hsub, htitle, ← hinput]
  rfl

end Conductor.Cli.TodoWays
