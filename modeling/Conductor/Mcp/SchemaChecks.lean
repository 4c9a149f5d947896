import Conductor.Mcp.Handlers

/-! # Arguments outside the published schema

`tools/list` publishes a schema for every tool; the handlers check what they
need. A value of the wrong type counts as missing, which an optional argument may
be, and no handler looks for members that it does not know. -/
namespace Conductor.Mcp.SchemaChecks
open Conductor.Js Conductor.Js.Text Conductor.Js.Number Conductor.Js.Values Conductor.Sessions.Types
open Conductor.Discovery.Providers Conductor.Tmux.TmuxMap Conductor.Tmux.Effects
open Conductor.Sessions.RefinedStatus Conductor.Sessions.Snapshot
open Conductor.Reminders.Cli Conductor.Mcp.Registry Conductor.Mcp.Tools
open Conductor.Mcp.Handlers

/-! ## The schema and the checks -/

abbrev Members := List (JsString × Json)

/-- The value has the type of the schema. -/
def admits : ArgType → Json → Bool
  | .string, .str _ | .number, .num _ | .boolean, .bool _ => true
  | _, _ => false

/-- The arguments satisfy the tool's `inputSchema`. -/
def fits (tool : McpTool) (ms : Members) : Bool :=
  (ms.all fun m => tool.descriptor.properties.any fun p => p.name == m.1 && admits p.type m.2) &&
    tool.descriptor.required.all fun key => ms.any fun m => m.1 == key

/-- The argument is missing, no string, or empty. -/
def noText (args : Json) (key : String) : Bool := (stringArg args (js key)).getD [] == []

/-- The provider is neither `all` nor registered. -/
def unknownProvider (args : Json) : Bool :=
  providerArg args != js "all" && (getProvider (providerArg args)).isNone

/-- An argument of an inject is missing, or no walk starts from the pid. -/
def unusable (args : Json) : Bool :=
  match readInjectArgs args with
  | .error _ => true
  | .ok a => a.pid.den != 1 || decide (a.pid.num ≤ 1)

/-- The handler refuses the arguments, whatever the world is. -/
def refuses : McpTool → Json → Bool
  | .snapshot, args | .sessions, args => unknownProvider args
  | .transcript, args => noText args "path"
  | .todosAdd, args => noText args "title"
  | .todosComplete, args => noText args "id"
  | .inject, args => unusable args
  | .todosList, _ | .auditTail, _ => false

/-- Arguments outside the schema are answered with an error, and change nothing. -/
def SchemaKept (tool : McpTool) (ms : Members) : Prop :=
  fits tool ms = false → ∀ (w : ToolWorld) (wire : Wire) (id : Json),
    reportsError (answer w wire id tool (.obj ms)) = true ∧
      (handler w tool (.obj ms)).effects.any ToolEffect.changes = false

/-! ## What is refused in every world -/

theorem withText_missing {args : Json} {key : String} (h : noText args key = true)
    (run : JsString → ToolRun) :
    withText args key run = quiet (throw (.error (js "missing required arg: " ++ js key))) := by
  unfold noText at h
  unfold withText
  cases hs : stringArg args (js key) with
  | none => rfl
  | some text =>
    rw [hs] at h
    cases text with
    | nil => rfl
    | cons u text => cases h

theorem walkParents_none {panes : List PaneRow} {ppid : Int → Option Int} {pid : Int} (h : pid ≤ 1) :
    ∀ fuel, walkParents panes ppid fuel pid = none
  | 0 => rfl
  | _ + 1 => if_pos h

theorem walkParents_hit {panes : List PaneRow} {ppid : Int → Option Int} {pid : Int} (h : ¬ pid ≤ 1)
    {hit : PaneRow} (hhit : panes.find? (fun p => p.pid == pid) = some hit) (fuel : Nat) :
    walkParents panes ppid (fuel + 1) pid = some ⟨hit.session, hit.pane⟩ := by
  rw [walkParents, if_neg h, hhit]

theorem findPane_hit {t : TmuxHost} {pid : Int} (h : ¬ pid ≤ 1) {hit : PaneRow}
    (hhit : t.panes.find? (fun p => p.pid == pid) = some hit) :
    findPaneForPid t pid none = some ⟨hit.session, hit.pane⟩ := by
  have hne : t.panes.isEmpty = false := by
    cases hpanes : t.panes with
    | nil => rw [hpanes] at hhit; cases hhit
    | cons p ps => rfl
  show (if t.panes.isEmpty then none else walkParents t.panes t.ppid 50 pid) = _
  rw [hne, if_neg Bool.false_ne_true]
  exact walkParents_hit h hhit 49

theorem findPane_none {t : TmuxHost} {pid : Rat} (h : pid.den ≠ 1 ∨ pid.num ≤ 1) :
    findPaneForNumber t pid = none := by
  unfold findPaneForNumber
  by_cases hden : pid.den = 1
  · have hle : pid.num ≤ 1 := h.resolve_left (not_not.mpr hden)
    rw [if_pos hden, findPaneForPid]
    simp only [walkParents_none hle, ite_self]
  · rw [if_neg hden]

theorem discover_unknown {args : Json} (h : unknownProvider args = true) (host : Host) :
    ∃ e, discoverSessions host (providerArg args) = .error e := by
  simp only [unknownProvider, Bool.and_eq_true, bne_iff_ne, Option.isNone_iff_eq_none] at h
  unfold discoverSessions
  rw [if_neg h.1, h.2]
  exact ⟨_, rfl⟩

theorem inject_unusable {args : Json} (h : unusable args = true) (w : World) :
    ∃ e, Tools.injectTool w args = ⟨[], .error e⟩ := by
  unfold unusable at h
  unfold Tools.injectTool
  cases ha : readInjectArgs args with
  | error e => exact ⟨e, rfl⟩
  | ok a =>
    rw [ha] at h
    simp only [Bool.or_eq_true, bne_iff_ne, decide_eq_true_eq] at h
    simp only [injectWith, findPane_none h]
    exact ⟨_, rfl⟩

/-- A refusal throws, and has no effect. -/
theorem refused {tool : McpTool} {args : Json} (h : refuses tool args = true) (w : ToolWorld) :
    ∃ e, handler w tool args = quiet (.error e) := by
  cases tool with
  | snapshot =>
    obtain ⟨e, he⟩ := discover_unknown h w.host
    show ∃ e, snapshotTool w args = quiet (.error e)
    unfold snapshotTool
    rw [he]
    exact ⟨e, rfl⟩
  | sessions =>
    obtain ⟨e, he⟩ := discover_unknown h w.host
    show ∃ e, sessionsTool w args = quiet (.error e)
    unfold sessionsTool
    rw [he]
    exact ⟨e, rfl⟩
  | transcript => exact ⟨_, withText_missing h _⟩
  | todosList => cases h
  | todosAdd => exact ⟨_, withText_missing h _⟩
  | todosComplete => exact ⟨_, withText_missing h _⟩
  | inject =>
    obtain ⟨e, he⟩ := inject_unusable h w.toWorld
    show ∃ e, Handlers.injectTool w args = quiet (.error e)
    unfold Handlers.injectTool
    rw [he]
    exact ⟨e, rfl⟩
  | auditTail => cases h

/-! ## What is done in some world -/

/-- No process runs but the one in the pane, and every command prints nothing. -/
def quietWorld (pid : Int) : ToolWorld :=
  { host := { processes := [], lsof := fun _ => none, processCwd := js "/", git := fun _ => none
              projectsRoot := js "/home/.claude/projects", readdir := fun _ => none
              mtimeMs := fun _ => none }
    fs := { realpath := some, stat := fun _ => false }
    tmux := { panes := [⟨pid, js "main", js "%1", 0, true⟩], ppid := fun _ => none }
    sendFailure := none, now := 0, disk := fun _ => none, cache := none
    shell := ⟨fun _ => .ok [], fun _ => []⟩
    AUDIT_FILE_PATH := js "/audit.jsonl", auditLog := .error .enoent }

/-- The call is not answered with an error, or it changes something. -/
def Done (r : ToolRun) : Prop := (∃ p, r.result = .ok p) ∨ r.effects.any ToolEffect.changes = true

theorem withText_done {args : Json} {key : String} (h : noText args key = false)
    {run : JsString → ToolRun} (hrun : ∀ text, Done (run text)) : Done (withText args key run) := by
  unfold noText at h
  unfold withText
  cases hs : stringArg args (js key) with
  | none => rw [hs] at h; cases h
  | some text =>
    rw [hs] at h
    cases text with
    | nil => cases h
    | cons u text => exact hrun (u :: text)

theorem discover_known {args : Json} (h : unknownProvider args = false) (pid : Int) :
    discoverSessions (quietWorld pid).host (providerArg args) = .ok [] := by
  unfold discoverSessions
  split
  · rfl
  · rename_i hall
    cases hp : getProvider (providerArg args) with
    | none =>
      have hunknown : unknownProvider args = true := by
        simp only [unknownProvider, hp, Option.isNone_none, Bool.and_true, bne_iff_ne]
        exact hall
      rw [hunknown] at h
      cases h
    | some p =>
      have hmem : p ∈ allProviders := List.mem_of_find?_eq_some hp
      simp only [allProviders, List.mem_cons, List.not_mem_nil, or_false] at hmem
      rcases hmem with rfl | rfl | rfl
      · rfl
      · rfl
      · rfl

theorem inject_done {args : Json} (h : unusable args = false) :
    ∃ pid, Done (Handlers.injectTool (quietWorld pid) args) := by
  unfold unusable at h
  cases ha : readInjectArgs args with
  | error e => rw [ha] at h; cases h
  | ok a =>
    rw [ha] at h
    simp only [Bool.or_eq_false_iff, bne_eq_false_iff_eq, decide_eq_false_iff_not] at h
    refine ⟨a.pid.num, ?_⟩
    have hhit : (quietWorld a.pid.num).tmux.panes.find? (fun p => p.pid == a.pid.num) =
        some ⟨a.pid.num, js "main", js "%1", 0, true⟩ := by
      show List.find? _ [_] = _
      rw [List.find?_cons, beq_self_eq_true]
    have hpane : findPaneForNumber (quietWorld a.pid.num).tmux a.pid = some ⟨js "main", js "%1"⟩ := by
      rw [findPaneForNumber, if_pos h.1]
      exact findPane_hit h.2 hhit
    have hlock : lockConflict (quietWorld a.pid.num).toWorld a.force
        (targetSession (quietWorld a.pid.num).toWorld a.pid) = none := by
      cases a.force with
      | true => rfl
      | false => rfl
    unfold Handlers.injectTool Tools.injectTool
    simp only [ha, injectWith, hpane, hlock]
    cases a.dryRun with
    | true => exact .inl ⟨_, rfl⟩
    | false => exact .inr rfl

/-- What a handler does not refuse it does, in some world. -/
theorem done {tool : McpTool} {args : Json} (h : refuses tool args = false) :
    ∃ pid, Done (handler (quietWorld pid) tool args) := by
  cases tool with
  | snapshot =>
    refine ⟨0, .inl ?_⟩
    show ∃ p, (snapshotTool (quietWorld 0) args).result = .ok p
    unfold snapshotTool
    rw [discover_known h]
    exact ⟨.snapshot [], rfl⟩
  | sessions =>
    refine ⟨0, .inl ?_⟩
    show ∃ p, (sessionsTool (quietWorld 0) args).result = .ok p
    unfold sessionsTool
    rw [discover_known h]
    exact ⟨.sessions [], rfl⟩
  | transcript => exact ⟨0, withText_done h fun path => .inl ⟨_, rfl⟩⟩
  | todosList => exact ⟨0, .inl ⟨.todos [], rfl⟩⟩
  | todosAdd => exact ⟨0, withText_done h fun title => .inr rfl⟩
  | todosComplete => exact ⟨0, withText_done h fun id => .inr rfl⟩
  | inject => exact inject_done h
  | auditTail => exact ⟨0, .inl ⟨_, rfl⟩⟩

/-! ## When the schema is kept -/

/-- Arguments are held to the schema exactly when they satisfy it, or the handler's
own checks refuse them. -/
theorem schemaKept_iff {tool : McpTool} {ms : Members} :
    SchemaKept tool ms ↔ fits tool ms = true ∨ refuses tool (.obj ms) = true := by
  constructor
  · intro h
    cases hfits : fits tool ms with
    | true => exact .inl rfl
    | false =>
      right
      cases hrefuses : refuses tool (.obj ms) with
      | true => rfl
      | false =>
        exfalso
        obtain ⟨pid, hdone⟩ := done hrefuses
        obtain ⟨herror, hchanges⟩ := h hfits (quietWorld pid) ⟨fun _ => none, fun _ => []⟩ .null
        rcases hdone with ⟨p, hp⟩ | hchanged
        · obtain ⟨e, he⟩ := answer_error_iff.mp herror
          rw [hp] at he
          cases he
        · rw [hchanges] at hchanged
          cases hchanged
  · intro h hfits w wire id
    rcases h with hfit | hrefuses
    · rw [hfit] at hfits
      cases hfits
    · obtain ⟨e, he⟩ := refused hrefuses w
      refine ⟨answer_error_iff.mpr ⟨e, ?_⟩, ?_⟩
      · rw [he]
        rfl
      · rw [he]
        rfl

/-- A dry run asked for in a string. -/
def dryRunText : Members :=
  [(js "pid", .num (.finite 100)), (js "text", .str (js "y")), (js "approve", .bool true),
   (js "dryRun", .str (js "true"))]

/-- The keys are sent. -/
theorem dryRun_text_sends :
    fits .inject dryRunText = false ∧
      (Tools.injectTool (quietWorld 100).toWorld (.obj dryRunText)).sends = true ∧
      ¬ SchemaKept .inject dryRunText := by
  have hfits : fits .inject dryRunText = false := by decide
  have hsends : (Tools.injectTool (quietWorld 100).toWorld (.obj dryRunText)).sends = true := by
    decide +kernel
  refine ⟨hfits, hsends, fun h => ?_⟩
  have hchanges := (h hfits (quietWorld 100) ⟨fun _ => none, fun _ => []⟩ .null).2
  revert hchanges
  decide +kernel

end Conductor.Mcp.SchemaChecks
