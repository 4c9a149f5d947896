import Conductor.Mcp.SchemaChecks
import Conductor.Mcp.Serial

/-! # What a client's session changes

The stdio server with its handlers at work: each performs its effects one after
the other and settles when it has performed them all, while lines, other handlers
and jobs take their steps in between. Only a call that asks for a change leads to
one, and to no second one; what was done for a line that is answered is all of
it, and the answer tells whether it succeeded. -/
namespace Conductor.Mcp.SessionEffects
open Conductor.Lib.Oracle Conductor.Lib.Runs Conductor.Js Conductor.Js.Text Conductor.Js.Number
open Conductor.Js.Values Conductor.Js.JsonText Conductor.Tmux.TmuxMap Conductor.Tmux.Effects
open Conductor.Tmux.Audit (Inject)
open Conductor.Reminders.Cli Conductor.Mcp.Protocol Conductor.Mcp.Registry Conductor.Mcp.Tools
open Conductor.Mcp.Server Conductor.Mcp.Handlers Conductor.Mcp.Stdio Conductor.Mcp.Serial

/-! ## Calls -/

/-- The text is a call of the tool with these arguments. -/
def Asks (text : JsString) (tool : McpTool) (args : Json) : Prop :=
  ∃ req m, parse (trim text) = some req ∧ envelope req = some m ∧ m.method = js "tools/call" ∧
    falsy m.params = false ∧ optProp m.params (js "name") = some (.str tool.descriptor.name) ∧
    orElse (optProp m.params (js "arguments")) (.obj []) = args

/-- The tool that a line calls, and its arguments. -/
def called (p : Platform) (text : JsString) : Option (McpTool × Json) :=
  match readInput text with
  | .parsed req => match dispatchStart p.serverVersion req with
    | .ok (.awaiting tool args _) => some (tool, args)
    | _ => none
  | _ => none

theorem readInput_parsed {text : JsString} {req : Json} :
    readInput text = .parsed req ↔ parse (trim text) = some req := by
  have hempty : parse ([] : JsString) = none := by rfl
  unfold readInput
  simp only [List.isEmpty_iff]
  split
  · rename_i h
    rw [h, hempty]
    simp
  · cases parse (trim text) with
    | none => simp
    | some v => simp

theorem startCall_awaiting {id id' : Json} {params : Option Json} {tool : McpTool} {args : Json} :
    startCall id params = .awaiting tool args id' ↔
      falsy params = false ∧ optProp params (js "name") = some (.str tool.descriptor.name) ∧
        orElse (optProp params (js "arguments")) (.obj []) = args ∧ id = id' := by
  unfold startCall
  split
  · rename_i name hfalsy hname
    rw [hfalsy, hname]
    cases hfound : findTool name with
    | none =>
      refine ⟨fun h => (by cases h), fun h => ?_⟩
      obtain ⟨-, hsame, -, -⟩ := h
      cases hsame
      rw [findTool_name] at hfound
      cases hfound
    | some found =>
      have hname' := findTool_eq_some.mp hfound
      constructor
      · intro h
        cases h
        exact ⟨rfl, by rw [hname'], rfl, rfl⟩
      · intro h
        obtain ⟨-, hsame, rfl, rfl⟩ := h
        cases hsame
        rw [findTool_name] at hfound
        cases hfound
        rfl
  · rename_i hother
    refine ⟨fun h => (by cases h), fun h => ?_⟩
    obtain ⟨hfalsy, hname, -, -⟩ := h
    exact absurd hname (hother _ hfalsy)

theorem startMethod_awaiting {serverVersion method : JsString} {params : Option Json} {id id' : Json}
    {isNotification : Bool} {tool : McpTool} {args : Json} :
    startMethod serverVersion method params id isNotification = .awaiting tool args id' ↔
      method = js "tools/call" ∧ startCall id params = .awaiting tool args id' := by
  constructor
  · intro h
    unfold startMethod at h
    split at h
    · cases h
    · split at h
      · cases h
      · split at h
        · cases h
        · split at h
          · cases h
          · split at h
            · rename_i hm
              exact ⟨hm, h⟩
            · cases h
  · intro h
    obtain ⟨rfl, h⟩ := h
    exact h

theorem called_iff {p : Platform} {text : JsString} {tool : McpTool} {args : Json} :
    called p text = some (tool, args) ↔ Asks text tool args := by
  constructor
  · intro h
    unfold called at h
    split at h
    · rename_i req hread
      split at h
      · rename_i tool' args' id hstart
        cases h
        have hparse := readInput_parsed.mp hread
        have hnull : isNull req = false := by
          cases req with
          | null => cases hstart
          | _ => rfl
        cases henv : envelope req with
        | none =>
          rw [dispatchStart_refused p.serverVersion hnull henv] at hstart
          cases hstart
        | some m =>
          rw [dispatchStart_envelope p.serverVersion henv] at hstart
          obtain ⟨hm, hcall⟩ := startMethod_awaiting.mp (Except.ok.inj hstart)
          obtain ⟨hfalsy, hname, hargs, -⟩ := startCall_awaiting.mp hcall
          exact ⟨req, m, hparse, henv, hm, hfalsy, hname, hargs⟩
      · cases h
    · cases h
  · intro h
    obtain ⟨req, m, hparse, henv, hm, hfalsy, hname, hargs⟩ := h
    have hstart : startMethod p.serverVersion m.method m.params (orElse m.id .null) m.id.isNone =
        .awaiting tool args (orElse m.id .null) :=
      startMethod_awaiting.mpr ⟨hm, startCall_awaiting.mpr ⟨hfalsy, hname, hargs, rfl⟩⟩
    unfold called
    rw [readInput_parsed.mpr hparse]
    simp only [dispatchStart_envelope p.serverVersion henv, hstart]

/-! ## What one call does -/

/-- `remindctl` ends well. -/
def succeeds (sh : Shell) (args : List JsString) : Bool := (sh.remindctl args).isOk

/-- It ends well, and prints what is read as a todo. -/
def printsTodo (sh : Shell) (args : List JsString) : Bool :=
  match sh.remindctl args with
  | .error _ => false
  | .ok stdout => ((parse stdout).map fun raw => (todoOf raw).isOk).getD false

/-- What is executed for a new todo. -/
def addedArgs (args : Json) (title : JsString) : List JsString :=
  let body := (stringArg args (js "body")).getD []
  [js "add", title, js "--list", (stringArg args (js "list")).getD ACTIVE_LIST] ++
    (if body = [] then [] else [js "--notes", body]) ++ [js "--json"]

def completedArgs (start : JsString) : List JsString := [js "complete", start, js "--json"]

/-- What a call has changed in all, and whether it is answered with an error. -/
inductive Did (w : ToolWorld) : McpTool → Json → List ToolEffect → Bool → Prop
  | refused {tool : McpTool} {args : Json} : Did w tool args [] true
  | read {tool : McpTool} {args : Json} (reads : tool ∉ [.inject, .todosAdd, .todosComplete]) :
      Did w tool args [] false
  | dryRun {args : Json} {a : InjectArgs} (asked : readInjectArgs args = .ok a) (dry : a.dryRun = true) :
      Did w .inject args [] false
  /-- The keys arrived in the pane of the pid, and the entry says so. -/
  | sent {args : Json} {a : InjectArgs} {pane : Pane} {i : Inject}
      (approved : boolArg args (js "approve") = some true) (asked : readInjectArgs args = .ok a)
      (wet : a.dryRun = false) (found : findPaneForNumber w.tmux a.pid = some pane)
      (free : lockConflict w.toWorld a.force (targetSession w.toWorld a.pid) = none)
      (arrived : w.sendFailure = none)
      (entry : i.entry.pid = .finite a.pid ∧ i.entry.text = some a.text) :
      Did w .inject args [.inject (.sendKeys (sendKeys pane.pane a.text)), .inject (.appendAudit i)] false
  | unsent {args : Json} {a : InjectArgs} {pane : Pane}
      (approved : boolArg args (js "approve") = some true) (asked : readInjectArgs args = .ok a)
      (wet : a.dryRun = false) (found : findPaneForNumber w.tmux a.pid = some pane)
      (free : lockConflict w.toWorld a.force (targetSession w.toWorld a.pid) = none)
      (lost : w.sendFailure.isSome = true) :
      Did w .inject args [.inject (.sendKeys (sendKeys pane.pane a.text))] true
  /-- A todo that is made is an error all the same when what is printed of it cannot be read. -/
  | added {args : Json} {title : JsString} (titled : stringArg args (js "title") = some title) (text : title ≠ []) :
      Did w .todosAdd args [.remindctl (addedArgs args title)] !printsTodo w.shell (addedArgs args title)
  | completed {args : Json} {start : JsString} (named : stringArg args (js "id") = some start) (text : start ≠ []) :
      Did w .todosComplete args [.remindctl (completedArgs start)] !succeeds w.shell (completedArgs start)

/-- The handler threw. -/
def failed (r : ToolRun) : Bool :=
  match r.result with
  | .ok _ => false
  | .error _ => true

def changesOf (effects : List ToolEffect) : List ToolEffect := effects.filter ToolEffect.changes

/-- What the handler did is what a call of the tool may do. -/
def DoneBy (w : ToolWorld) (tool : McpTool) (args : Json) (r : ToolRun) : Prop :=
  Did w tool args (changesOf r.effects) (failed r)

variable {w : ToolWorld} {tool : McpTool} {args : Json}

theorem doneBy_throw (e : JsError) : DoneBy w tool args (quiet (.error e)) := .refused

theorem doneBy_quiet (reads : tool ∉ [.inject, .todosAdd, .todosComplete])
    (result : Except JsError Payload) : DoneBy w tool args (quiet result) := by
  cases result with
  | ok payload => exact .read reads
  | error e => exact doneBy_throw e

theorem doneBy_withText {key : String} {run : JsString → ToolRun}
    (h : ∀ text, stringArg args (js key) = some text → text ≠ [] → DoneBy w tool args (run text)) :
    DoneBy w tool args (withText args key run) := by
  unfold withText
  split
  · exact doneBy_throw _
  · exact doneBy_throw _
  · rename_i text hne htext
    exact h text htext hne

theorem failed_ofExecuted {α : Type} (e : Executed α) (payload : α → Payload) :
    failed (ofExecuted e payload) = !e.result.isOk := by
  unfold failed ofExecuted
  cases e.result with
  | ok a => rfl
  | error err => rfl

/-- What is executed to change the reminders is all that the call changes. -/
theorem changesOf_ofExecuted {α : Type} {e : Executed α} (h : Reminders.Cli.changes e.args = true)
    (payload : α → Payload) : changesOf (ofExecuted e payload).effects = [.remindctl e.args] :=
  List.filter_cons_of_pos h

/-- Whatever is executed, a todo is read when it ends well and prints one. -/
theorem isOk_execute_todo (sh : Shell) (args : List JsString) :
    (execute sh args fun stdout => do todoOf (← parseJson sh stdout)).result.isOk =
      printsTodo sh args := by
  unfold printsTodo execute
  cases sh.remindctl args with
  | error message => rfl
  | ok stdout =>
    show (parseJson sh stdout >>= todoOf).isOk = ((parse stdout).map fun raw => (todoOf raw).isOk).getD false
    unfold parseJson
    cases parse stdout with
    | none => rfl
    | some raw => rfl

theorem isOk_addTodo (sh : Shell) (input : AddTodoInput) (list : JsString) :
    (addTodo sh input list).result.isOk = printsTodo sh (addTodo sh input list).args := by
  unfold addTodo
  exact isOk_execute_todo sh _

theorem isOk_completeTodo (sh : Shell) (start : JsString) :
    (completeTodo sh start).result.isOk = succeeds sh (completedArgs start) := by
  unfold succeeds completeTodo execute completedArgs
  simp only
  cases sh.remindctl [js "complete", start, js "--json"] with
  | ok stdout => rfl
  | error message => rfl

theorem doneBy_todosAdd (w : ToolWorld) (args : Json) : DoneBy w .todosAdd args (todosAddTool w args) := by
  refine doneBy_withText fun title htitle hne => ?_
  have hargs : ∀ list, (addTodo w.shell ⟨title, stringArg args (js "body"), none, none⟩ list).args =
      [js "add", title, js "--list", list] ++ (if (stringArg args (js "body")).getD [] = [] then []
        else [js "--notes", (stringArg args (js "body")).getD []]) ++ [js "--json"] := by
    intro list
    exact congrArg (· ++ [js "--json"]) (List.append_nil _)
  simp only
  unfold DoneBy
  rw [changesOf_ofExecuted rfl, failed_ofExecuted, isOk_addTodo, hargs]
  exact .added htitle hne

theorem doneBy_todosComplete (w : ToolWorld) (args : Json) :
    DoneBy w .todosComplete args (todosCompleteTool w args) := by
  refine doneBy_withText fun start hstart hne => ?_
  unfold DoneBy
  rw [changesOf_ofExecuted rfl, failed_ofExecuted, isOk_completeTodo]
  exact .completed hstart hne

theorem approve_of_readInjectArgs {args : Json} {a : InjectArgs} (h : readInjectArgs args = .ok a) :
    boolArg args (js "approve") = some true := by
  unfold readInjectArgs at h
  split at h
  · cases h
  · split at h
    · cases h
    · split at h
      · cases h
      · rename_i happrove
        exact not_not.mp happrove

theorem doneBy_injectTool (w : ToolWorld) (args : Json) :
    DoneBy w .inject args (Handlers.injectTool w args) := by
  unfold Handlers.injectTool Tools.injectTool
  cases ha : readInjectArgs args with
  | error e => exact .refused
  | ok a =>
    have happrove := approve_of_readInjectArgs ha
    simp only [injectWith]
    cases hpane : findPaneForNumber w.tmux a.pid with
    | none => exact .refused
    | some pane =>
      simp only
      cases hlock : lockConflict w.toWorld a.force (targetSession w.toWorld a.pid) with
      | some c => exact .refused
      | none =>
        cases hdry : a.dryRun with
        | true => exact .dryRun ha hdry
        | false =>
          cases hsend : w.sendFailure with
          | some message => exact .unsent happrove ha hdry hpane hlock (by rw [hsend]; rfl)
          | none =>
            exact @Did.sent w args a pane ⟨.injectTool, _⟩ happrove ha hdry hpane hlock hsend ⟨rfl, rfl⟩

theorem doneBy_auditTail (w : ToolWorld) (args : Json) :
    DoneBy w .auditTail args (auditTailTool w args) := by
  unfold auditTailTool
  simp only
  split
  · exact doneBy_quiet (by simp) _
  · exact doneBy_throw _
  · exact doneBy_quiet (by simp) _

theorem doneBy_todosList (w : ToolWorld) (args : Json) :
    DoneBy w .todosList args (todosListTool w args) := by
  show Did w _ args [] (failed (todosListTool w args))
  cases failed (todosListTool w args) with
  | true => exact .refused
  | false => exact .read (by simp)

theorem handler_doneBy (w : ToolWorld) (tool : McpTool) (args : Json) :
    DoneBy w tool args (handler w tool args) := by
  cases tool with
  | snapshot | sessions => exact doneBy_quiet (by simp) _
  | transcript => exact doneBy_withText fun _ _ _ => doneBy_quiet (by simp) _
  | todosList => exact doneBy_todosList w args
  | todosAdd => exact doneBy_todosAdd w args
  | todosComplete => exact doneBy_todosComplete w args
  | inject => exact doneBy_injectTool w args
  | auditTail => exact doneBy_auditTail w args

/-! ## The handlers at work -/

structure Session where
  server : State
  /-- The lines so far, each with the world that its handler runs in. -/
  served : List (JsString × ToolWorld)
  /-- What the handler of a line has still to do. -/
  pending : Nat → List ToolEffect
  /-- What was done, with the line it was done for. -/
  log : List (Nat × ToolEffect)

def start : Session := ⟨init, [], fun _ => [], []⟩

inductive Action
  | line (text : JsString) (w : ToolWorld)
  /-- The handler of a line performs its next effect. -/
  | act (line : Nat)
  /-- The `k`-th handler in flight has performed all of its effects. -/
  | settle (k : Nat)
  | job
  | close
  | terminate

/-- The effects of the handler that a line starts. -/
def plan (p : Platform) (text : JsString) (w : ToolWorld) : List ToolEffect :=
  match called p text with
  | some (tool, args) => (handler w tool args).effects
  | none => []

/-- What the handler that a line starts settles with. -/
def ending (p : Platform) (wire : Wire) (text : JsString) (w : ToolWorld) : HandlerOutcome :=
  match called p text with
  | some (tool, args) => outcomeOf wire (handler w tool args)
  | none => .ok none

def act (s : Session) (line : Nat) : Option Session :=
  match s.pending line with
  | [] => none
  | e :: rest =>
    some { s with pending := Function.update s.pending line rest, log := s.log ++ [(line, e)] }

def settle (p : Platform) (wire : Wire) (s : Session) (k : Nat) : Option Session := do
  let c ← s.server.calls[k]?
  let (_, w) ← s.served[c.line]?
  if (s.pending c.line).isEmpty then
    let server ← step p s.server (.settle k (outcomeOf wire (handler w c.tool c.arguments)))
    return { s with server }
  else none

def perform (p : Platform) (wire : Wire) (s : Session) : Action → Option Session
  | .line text w => (step p s.server (.line text)).map fun server =>
    { s with server, served := s.served ++ [(text, w)]
             pending := Function.update s.pending s.served.length (plan p text w) }
  | .act line => if s.server.process = .running then act s line else none
  | .settle k => settle p wire s k
  | .job => (step p s.server .job).map fun server => { s with server }
  | .close => (step p s.server .close).map fun server => { s with server }
  | .terminate => (step p s.server .terminate).map fun server => { s with server }

/-- What was done for a line. -/
def doneFor (s : Session) (line : Nat) : List ToolEffect :=
  (s.log.filter fun x => x.1 == line).map (·.2)

def planOf (p : Platform) (served : List (JsString × ToolWorld)) (line : Nat) : List ToolEffect :=
  match served[line]? with
  | some (text, w) => plan p text w
  | none => []

def endingOf (p : Platform) (wire : Wire) (served : List (JsString × ToolWorld)) (line : Nat) :
    HandlerOutcome :=
  match served[line]? with
  | some (text, w) => ending p wire text w
  | none => .ok none

variable {p : Platform} {wire : Wire} {s t : Session}

/-- What holds in every state of a session. -/
structure Good (p : Platform) (wire : Wire) (s : Session) : Prop where
  inv : Inv s.server
  lines : s.server.lines = s.served.map (·.1)
  progress : ∀ i, doneFor s i ++ s.pending i = planOf p s.served i
  /-- A handler that has something to do is in flight. -/
  busy : ∀ i, s.pending i ≠ [] → ∃ c ∈ s.server.calls, c.line = i
  calls : ∀ c ∈ s.server.calls, ∃ text w, s.served[c.line]? = some (text, w) ∧
    called p text = some (c.tool, c.arguments)
  /-- Whatever lines are still to come. -/
  answers : ∀ all, s.served <+: all → SameAnswers p (endingOf p wire all) s.server

/-! ## Steps -/

/-- A line starts at most one handler, and one that its text calls. -/
theorem receive_calls (p : Platform) (s : State) (text : JsString) :
    ∃ new, (receive p s text).calls = s.calls ++ new ∧
      (∀ c ∈ new, c.line = s.lines.length ∧ called p text = some (c.tool, c.arguments)) ∧
      (called p text ≠ none → new ≠ []) := by
  unfold receive called
  cases readInput text with
  | blank => exact ⟨[], by simp, by simp, by simp⟩
  | malformed trimmed => exact ⟨[], by simp [State.writeLine], by simp, by simp⟩
  | parsed req =>
    simp only
    cases dispatchStart p.serverVersion req with
    | error err => exact ⟨[], by simp [State.enqueue], by simp, by simp⟩
    | ok started =>
      cases started with
      | answered response => exact ⟨[], by simp [State.enqueue], by simp, by simp⟩
      | awaiting tool args id => exact ⟨[_], rfl, by simp, by simp⟩

theorem planOf_append (served : List (JsString × ToolWorld)) (text : JsString) (w : ToolWorld) (i : Nat) :
    planOf p (served ++ [(text, w)]) i =
      if i = served.length then plan p text w else planOf p served i := by
  unfold planOf
  rcases Nat.lt_trichotomy i served.length with hlt | rfl | hgt
  · rw [List.getElem?_append_left hlt, if_neg (Nat.ne_of_lt hlt)]
  · rw [List.getElem?_concat_length, if_pos rfl]
  · rw [if_neg (Nat.ne_of_gt hgt), List.getElem?_eq_none (by simp; omega),
      List.getElem?_eq_none (Nat.le_of_lt hgt)]

theorem planOf_fresh (served : List (JsString × ToolWorld)) : planOf p served served.length = [] := by
  rw [planOf, List.getElem?_eq_none (Nat.le_refl _)]

theorem doneFor_append (s : Session) (line : Nat) (e : ToolEffect) (pending : Nat → List ToolEffect) (i : Nat) :
    doneFor { s with pending, log := s.log ++ [(line, e)] } i =
      doneFor s i ++ if line = i then [e] else [] := by
  unfold doneFor
  by_cases h : line = i
  · simp [h, List.filter_append]
  · simp [h, List.filter_append]

/-- A step of the server that starts and ends no handler. -/
theorem good_server {server : State} {e : Event} (hs : Good p wire s) (h : step p s.server e = some server)
    (hlines : server.lines = s.server.lines) (hcalls : server.calls = s.server.calls)
    (hanswer : settled s.server e = none) : Good p wire { s with server } where
  inv := inv_step h hs.inv
  lines := hlines.trans hs.lines
  progress := hs.progress
  busy i hi := by
    rw [hcalls]
    exact hs.busy i hi
  calls := by
    rw [hcalls]
    exact hs.calls
  answers all hall := by
    refine sameAnswers_step h ?_ (hs.answers all hall)
    intro k a hk
    rw [hanswer] at hk
    cases hk

theorem good_line {server : State} {text : JsString} (w : ToolWorld) (hs : Good p wire s)
    (h : step p s.server (.line text) = some server) :
    Good p wire { s with server, served := s.served ++ [(text, w)]
                         pending := Function.update s.pending s.served.length (plan p text w) } := by
  have hlen : s.server.lines.length = s.served.length := by rw [hs.lines, List.length_map]
  have hserver : server = receive p s.server text := by
    obtain ⟨-, htaken⟩ := taken_of_step h
    cases htaken
    rfl
  obtain ⟨new, hnew, hcalled, hsome⟩ := receive_calls p s.server text
  refine ⟨inv_step h hs.inv, ?_, fun i => ?_, fun i hi => ?_, fun c hc => ?_, fun all hall => ?_⟩
  · rw [hserver, receive_lines, hs.lines, List.map_append]
    rfl
  · show doneFor s i ++ Function.update s.pending s.served.length (plan p text w) i = _
    rw [planOf_append]
    have hbefore := hs.progress i
    by_cases hi : i = s.served.length
    · subst hi
      rw [planOf_fresh] at hbefore
      rw [if_pos rfl, Function.update_self, (List.append_eq_nil_iff.mp hbefore).1, List.nil_append]
    · rw [if_neg hi, Function.update_of_ne hi]
      exact hbefore
  · show ∃ c ∈ server.calls, c.line = i
    rw [hserver, hnew]
    by_cases hi' : i = s.served.length
    · subst hi'
      have hplan : plan p text w ≠ [] := by
        intro hnil
        exact hi (by rw [← hnil]; exact Function.update_self ..)
      have hcall : called p text ≠ none := by
        intro hnone
        exact hplan (by rw [plan, hnone])
      obtain ⟨c, hc⟩ := List.exists_mem_of_ne_nil new (hsome hcall)
      exact ⟨c, List.mem_append_right _ hc, (hcalled c hc).1.trans hlen⟩
    · have hold : s.pending i ≠ [] := by
        intro hnil
        exact hi (by rw [← hnil]; exact Function.update_of_ne hi' ..)
      obtain ⟨c, hc, hline⟩ := hs.busy i hold
      exact ⟨c, List.mem_append_left _ hc, hline⟩
  · have hc' : c ∈ s.server.calls ++ new := by
      rw [← hnew, ← hserver]
      exact hc
    rcases List.mem_append.mp hc' with hold | hc
    · obtain ⟨text', w', hget, hcall⟩ := hs.calls c hold
      exact ⟨text', w', (List.getElem?_append_left (List.getElem?_eq_some_iff.mp hget).1).trans hget, hcall⟩
    · refine ⟨text, w, ?_, (hcalled c hc).2⟩
      rw [(hcalled c hc).1, hlen]
      exact List.getElem?_concat_length
  · refine sameAnswers_step h ?_ (hs.answers all ((List.prefix_append _ _).trans hall))
    intro k a hk
    cases hk

theorem good_act {line : Nat} (hs : Good p wire s) (h : act s line = some t) : Good p wire t := by
  unfold act at h
  split at h
  · cases h
  · rename_i e rest hpending
    cases h
    refine ⟨hs.inv, hs.lines, fun i => ?_, fun i hi => ?_, hs.calls, hs.answers⟩
    · rw [doneFor_append]
      have hbefore := hs.progress i
      by_cases hi : line = i
      · subst hi
        rw [hpending] at hbefore
        rw [if_pos rfl, List.append_assoc]
        show doneFor s line ++ ([e] ++ Function.update s.pending line rest line) = _
        rw [Function.update_self]
        exact hbefore
      · rw [if_neg hi, List.append_nil]
        show doneFor s i ++ Function.update s.pending line rest i = _
        rw [Function.update_of_ne (Ne.symm hi)]
        exact hbefore
    · refine hs.busy i fun hnil => hi ?_
      have hne : i ≠ line := by
        intro heq
        rw [← heq, hnil] at hpending
        cases hpending
      show Function.update s.pending line rest i = []
      rw [Function.update_of_ne hne, hnil]

theorem getElem?_of_prefix {α : Type} {xs ys : List α} (h : xs <+: ys) {i : Nat} {x : α}
    (hx : xs[i]? = some x) : ys[i]? = some x := by
  obtain ⟨zs, rfl⟩ := h
  exact (List.getElem?_append_left (List.getElem?_eq_some_iff.mp hx).1).trans hx

theorem good_settle {k : Nat} (hs : Good p wire s) (h : settle p wire s k = some t) : Good p wire t := by
  obtain ⟨c, hc, h⟩ := Option.bind_eq_some_iff.mp h
  obtain ⟨⟨text, w⟩, hw, h⟩ := Option.bind_eq_some_iff.mp h
  simp only at h
  split at h
  · rename_i hidle
    obtain ⟨server, hstep, h⟩ := Option.bind_eq_some_iff.mp h
    cases h
    have hidle' : s.pending c.line = [] := List.isEmpty_iff.mp hidle
    have hcalls : server.calls = s.server.calls.eraseIdx k := by
      obtain ⟨-, htaken⟩ := taken_of_step hstep
      cases htaken
      rfl
    have hlines : server.lines = s.server.lines := by
      obtain ⟨-, htaken⟩ := taken_of_step hstep
      cases htaken
      rfl
    refine ⟨inv_step hstep hs.inv, hlines.trans hs.lines, hs.progress, fun i hi => ?_, fun c' hc' => ?_,
      fun all hall => sameAnswers_step hstep ?_ (hs.answers all hall)⟩
    · obtain ⟨c', hc', hline⟩ := hs.busy i hi
      obtain ⟨hk, rfl⟩ := List.getElem?_eq_some_iff.mp hc
      have hmem := (List.getElem_cons_eraseIdx_perm hk).mem_iff.mpr hc'
      rcases List.mem_cons.mp hmem with rfl | hmem
      · exact absurd (hline ▸ hidle') hi
      · exact ⟨c', hcalls ▸ hmem, hline⟩
    · refine hs.calls c' (List.mem_of_mem_eraseIdx (i := k) ?_)
      rw [← hcalls]
      exact hc'
    · intro i outcome hsettled
      obtain ⟨k', c', heq, hc', rfl⟩ := settled_eq_some hsettled
      cases heq
      cases hc.symm.trans hc'
      obtain ⟨text', w', hget, hcall⟩ := hs.calls c (List.mem_of_getElem? hc)
      cases hget.symm.trans hw
      rw [endingOf, getElem?_of_prefix hall hw]
      simp only [ending, hcall]
  · cases h

theorem good_perform {e : Action} (hs : Good p wire s) (h : perform p wire s e = some t) : Good p wire t := by
  cases e with
  | line text w =>
    obtain ⟨server, hstep, rfl⟩ := Option.map_eq_some_iff.mp h
    exact good_line w hs hstep
  | act line =>
    simp only [perform] at h
    split at h
    · exact good_act hs h
    · cases h
  | settle k => exact good_settle hs h
  | job =>
    obtain ⟨server, hstep, rfl⟩ := Option.map_eq_some_iff.mp h
    obtain ⟨-, htaken⟩ := taken_of_step hstep
    cases htaken with
    | job j rest hjobs =>
      obtain ⟨hlines, -, hcalls⟩ := runJob_frame p { s.server with jobs := rest } j
      exact good_server hs hstep hlines hcalls rfl
  | close =>
    obtain ⟨server, hstep, rfl⟩ := Option.map_eq_some_iff.mp h
    obtain ⟨-, htaken⟩ := taken_of_step hstep
    cases htaken
    exact good_server hs hstep rfl rfl rfl
  | terminate =>
    obtain ⟨server, hstep, rfl⟩ := Option.map_eq_some_iff.mp h
    obtain ⟨-, htaken⟩ := taken_of_step hstep
    cases htaken
    exact good_server hs hstep rfl rfl rfl

theorem good_start : Good p wire start where
  inv := inv_init
  lines := rfl
  progress _ := rfl
  busy _ h := absurd rfl h
  calls _ h := (by cases h)
  answers _ _ := rfl

theorem good_run {es : List Action} (h : exec (perform p wire) start es = some t) : Good p wire t :=
  exec_invariant (fun _ _ _ hst hs => good_perform hs hst) h good_start

/-! ## What was done for a line -/

/-- A line with an answer has no handler in flight. -/
theorem Good.idle (hs : Good p wire s) {i : Nat} {r : JsonRpcResponse} (hr : (i, r) ∈ s.server.out) :
    s.pending i = [] := by
  by_contra hne
  obtain ⟨c, hc, hline⟩ := hs.busy i hne
  have hcall : 0 < (s.server.calls.map (·.line)).count i :=
    List.count_pos_iff.mpr (List.mem_map.mpr ⟨c, hc, hline⟩)
  have hout : 0 < (s.server.out.map (·.1)).count i :=
    List.count_pos_iff.mpr (List.mem_map.mpr ⟨(i, r), hr, rfl⟩)
  have hone := hs.inv.once i
  unfold places at hone
  omega

/-- The answer to a call is made from what its handler settled with. -/
theorem answerLine_called {text : JsString} {call : McpTool × Json} (h : called p text = some call)
    (outcome : HandlerOutcome) : ∃ id, answerLine p outcome text = some (finishCall id outcome) := by
  unfold called at h
  unfold answerLine
  split at h
  · rename_i req hread
    rw [hread]
    split at h
    · rename_i id hstart
      refine ⟨id, ?_⟩
      simp only [dispatch, hstart]
      rfl
    · cases h
  · cases h

theorem reportsError_finishCall {wire : Wire} {id : Json} {r : ToolRun} :
    reportsError (some (finishCall id (outcomeOf wire r))) = failed r := by
  unfold outcomeOf failed
  cases r.result with
  | ok payload => rfl
  | error e => rfl

theorem changesOf_append (xs ys : List ToolEffect) : changesOf (xs ++ ys) = changesOf xs ++ changesOf ys :=
  List.filter_append xs ys

/-- What was done for line `i`: nothing, when it calls no tool, or a part of what its
call does, in order and once; all of that when it is answered, and then the answer
says whether it failed. -/
def Accounted (t : Session) (i : Nat) (text : JsString) (w : ToolWorld) : Prop :=
  (∀ tool args, ¬ Asks text tool args) ∧ changesOf (doneFor t i) = [] ∨
    ∃ tool args changes err, Asks text tool args ∧ Did w tool args changes err ∧
      changesOf (doneFor t i) <+: changes ∧
      ∀ r, (i, r) ∈ t.server.out → changesOf (doneFor t i) = changes ∧ reportsError (some r) = err

theorem Good.accounted (hs : Good p wire s) {i : Nat} {text : JsString} {w : ToolWorld}
    (hi : s.served[i]? = some (text, w)) : Accounted s i text w := by
  have hline : s.server.lines[i]? = some text := by
    rw [hs.lines, List.getElem?_map, hi]
    rfl
  have hprogress := hs.progress i
  rw [planOf, hi] at hprogress
  simp only [plan] at hprogress
  cases hcalled : called p text with
  | none =>
    rw [hcalled] at hprogress
    refine .inl ⟨fun tool args hasks => ?_, ?_⟩
    · rw [called_iff.mpr hasks] at hcalled
      cases hcalled
    · rw [(List.append_eq_nil_iff.mp hprogress).1]
      rfl
  | some call =>
    obtain ⟨tool, args⟩ := call
    rw [hcalled] at hprogress
    simp only at hprogress
    refine .inr ⟨tool, args, changesOf (handler w tool args).effects, failed (handler w tool args),
      called_iff.mp hcalled, handler_doneBy w tool args, ?_, fun r hr => ⟨?_, ?_⟩⟩
    · rw [← hprogress, changesOf_append]
      exact List.prefix_append _ _
    · rw [← hprogress, hs.idle hr, List.append_nil]
    · have hanswer := mem_serial ((hs.answers _ (List.prefix_refl _)).out_subperm.subset hr) hline
      rw [endingOf, hi] at hanswer
      simp only [ending, hcalled] at hanswer
      obtain ⟨id, hid⟩ := answerLine_called hcalled (outcomeOf wire (handler w tool args))
      rw [hid] at hanswer
      cases hanswer
      exact reportsError_finishCall

theorem Good.log_served (hs : Good p wire s) {x : Nat × ToolEffect} (hx : x ∈ s.log) :
    x.1 < s.served.length := by
  by_contra hge
  have hprogress := hs.progress x.1
  rw [planOf, List.getElem?_eq_none (Nat.le_of_not_lt hge)] at hprogress
  have hdone : x.2 ∈ doneFor s x.1 :=
    List.mem_map.mpr ⟨x, List.mem_filter.mpr ⟨hx, beq_self_eq_true x.1⟩, rfl⟩
  rw [(List.append_eq_nil_iff.mp hprogress).1] at hdone
  cases hdone

/-- The line that an action gives to the server. -/
def given : Action → Option (JsString × ToolWorld)
  | .line text w => some (text, w)
  | _ => none

theorem act_served {line : Nat} (h : act s line = some t) : t.served = s.served := by
  unfold act at h
  split at h
  · cases h
  · cases h
    rfl

theorem settle_served {k : Nat} (h : settle p wire s k = some t) : t.served = s.served := by
  obtain ⟨c, -, h⟩ := Option.bind_eq_some_iff.mp h
  obtain ⟨⟨text, w⟩, -, h⟩ := Option.bind_eq_some_iff.mp h
  simp only at h
  split at h
  · obtain ⟨server, -, h⟩ := Option.bind_eq_some_iff.mp h
    cases h
    rfl
  · cases h

theorem perform_served {e : Action} (h : perform p wire s e = some t) :
    t.served = s.served ++ (given e).toList := by
  cases e with
  | line text w =>
    obtain ⟨server, -, rfl⟩ := Option.map_eq_some_iff.mp h
    rfl
  | act line =>
    simp only [perform] at h
    split at h
    · exact (act_served h).trans (List.append_nil _).symm
    · cases h
  | settle k => exact (settle_served h).trans (List.append_nil _).symm
  | job | close | terminate =>
    obtain ⟨server, -, rfl⟩ := Option.map_eq_some_iff.mp h
    exact (List.append_nil _).symm

theorem served_run {es : List Action} (h : exec (perform p wire) start es = some t) :
    t.served = es.filterMap given := by
  induction es using List.reverseRecOn generalizing t with
  | nil => cases h; rfl
  | append_singleton es e ih =>
    obtain ⟨s, hs, he⟩ := exec_snoc h
    have hlast : List.filterMap given [e] = (given e).toList := by
      cases hg : given e with
      | none => simp [hg]
      | some x => simp [hg]
    rw [perform_served he, ih hs, List.filterMap_append, hlast]

/-- An approved inject of `y` into process 100. -/
def injectLine : JsString :=
  js "\x7b\"jsonrpc\":\"2.0\",\"id\":7,\"method\":\"tools/call\",\"params\":\x7b\"name\":\"inject\",\"arguments\":\x7b\"pid\":100,\"text\":\"y\",\"approve\":true\x7d\x7d\x7d"

def injectRun : List Action :=
  [.line injectLine (SchemaChecks.quietWorld 100), .line sessionsCall (SchemaChecks.quietWorld 100),
    .act 0, .act 0, .settle 1, .settle 0, .job, .job, .job, .job]

end Conductor.Mcp.SessionEffects
