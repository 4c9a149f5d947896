import Conductor.Tmux.ListPanes
import Conductor.Tmux.TmuxMap

/-! # What tmux makes of `send-keys`

The arguments are read three times over: tmux cuts them into commands, takes
the options off each command, and looks every operand up among the names of
its keys. `--` protects the text from the second reading only. -/
namespace Conductor.Tmux.SendKeys
open Conductor.Js.Text Conductor.Tmux.TmuxMap Conductor.Tmux.ListPanes

/-- What a pane receives: a typed unit, or a key by its name. -/
inductive Stroke
  | char (u : UInt16)
  | key (name : JsString)
  deriving DecidableEq

inductive Ran
  /-- `send-keys`, with the options it was given and what it delivers. -/
  | keys (options : List (JsString × Option JsString)) (strokes : List Stroke)
  /-- Any other command. -/
  | other (command : List JsString)
  deriving DecidableEq

/-- A trailing `;` ends the command. -/
def endsCommand (arg : JsString) : Bool := arg.getLast? = some 0x3B

def splitCommands : List JsString → List (List JsString)
  | [] => []
  | arg :: rest =>
    if endsCommand arg then (if arg.dropLast = [] then [] else [arg.dropLast]) :: splitCommands rest
    else match splitCommands rest with
      | [] => [[arg]]
      | command :: more => (arg :: command) :: more

/-- The options of `send-keys` that take a value. -/
def takesValue (option : JsString) : Bool :=
  option = js "-c" || option = js "-N" || option = js "-t"

/-- The options of a command, up to `--` or to the first operand, and the
operands; `pending` is an option that waits for its value. -/
def readOptions : Option JsString → List JsString → List (JsString × Option JsString) × List JsString
  | none, [] => ([], [])
  | some option, [] => ([(option, none)], [])
  | some option, value :: rest =>
    let (options, operands) := readOptions none rest
    ((option, some value) :: options, operands)
  | none, arg :: rest =>
    if arg = js "--" then ([], rest)
    else if arg.head? = some 0x2D ∧ 1 < arg.length then
      if takesValue arg then readOptions (some arg) rest
      else
        let (options, operands) := readOptions none rest
        ((arg, none) :: options, operands)
    else ([], arg :: rest)

section
variable (isKeyName : JsString → Bool)

/-- An operand: the key of that name, or else its units. -/
def strokesOf (operand : JsString) : List Stroke :=
  if isKeyName operand then [.key operand] else operand.map .char

/-- One command. With `-l` every operand is typed. -/
def runCommand : List JsString → Ran
  | [] => .other []
  | name :: args =>
    if name = js "send-keys" then
      let (options, operands) := readOptions none args
      .keys options (if (js "-l", none) ∈ options then operands.flatten.map .char
        else operands.flatMap (strokesOf isKeyName))
    else .other (name :: args)

/-- The commands that tmux runs for its arguments. -/
def tmux (args : List JsString) : List Ran := (splitCommands args).map (runCommand isKeyName)

end

/-- Every line typed, and a Return after it. -/
def typed (text : JsString) : List Stroke :=
  (lines text).flatMap fun line => line.map .char ++ [.key (js "Enter")]

/-- `sendKeys` has the text typed into the pane, and nothing else done. -/
def Types (isKeyName : JsString → Bool) (pane : Nat) (text : JsString) : Prop :=
  tmux isKeyName (sendKeys (paneId pane) text) = [.keys [(js "-t", some (paneId pane))] (typed text)]

/-! ## One command -/

theorem length_splitCommands (args : List JsString) {last : JsString} (h : endsCommand last = false) :
    (splitCommands (args ++ [last])).length = args.countP endsCommand + 1 := by
  induction args with
  | nil => simp [splitCommands, h]
  | cons arg args ih =>
    rw [List.cons_append, splitCommands]
    cases harg : endsCommand arg with
    | true => simp [harg, ih]
    | false =>
      rw [if_neg (by simp), List.countP_cons_of_neg (by simp [harg]), ← ih]
      split
      · next hnone =>
        rw [hnone] at ih
        cases ih
      · next hsome =>
        rw [hsome]
        rfl

theorem splitCommands_of_none {args : List JsString} (h : ∀ arg ∈ args, endsCommand arg = false)
    (hne : args ≠ []) : splitCommands args = [args] := by
  induction args with
  | nil => exact absurd rfl hne
  | cons arg args ih =>
    rw [splitCommands, if_neg (by simp [h arg])]
    cases args with
    | nil => rfl
    | cons next rest => rw [ih (fun a ha => h a (by simp [ha])) (by simp)]

theorem endsCommand_paneId (n : Nat) : endsCommand (paneId n) = false := by
  have hmem : (0x3B : UInt16) ∉ paneId n := not_mem_paneId rfl (by decide) n
  rw [endsCommand, decide_eq_false_iff_not]
  exact fun h => hmem (List.mem_of_getLast? h)

/-! ## The operands -/

section
variable {isKeyName : JsString → Bool}

def isKey : Stroke → Bool
  | .key _ => true
  | .char _ => false

/-- The operands that `sendKeys` makes of the lines. -/
def operands (ls : List JsString) : List JsString := ls.flatMap fun line => [line, js "Enter"]

theorem sendKeys_eq (pane : Nat) (text : JsString) : sendKeys (paneId pane) text =
    [js "send-keys", js "-t", paneId pane, js "--"] ++ operands (lines text) := rfl

theorem countP_map_char (line : JsString) : (line.map Stroke.char).countP isKey = 0 := by
  rw [List.countP_eq_zero]
  intro s hs
  obtain ⟨u, _, rfl⟩ := List.mem_map.mp hs
  exact Bool.false_ne_true

/-- Every line that is the name of a key is one more key. -/
theorem countP_operands (hEnter : isKeyName (js "Enter") = true) (ls : List JsString) :
    ((operands ls).flatMap (strokesOf isKeyName)).countP isKey = ls.countP isKeyName + ls.length := by
  induction ls with
  | nil => rfl
  | cons line ls ih =>
    have hcons : operands (line :: ls) = line :: js "Enter" :: operands ls := rfl
    have hReturn : (strokesOf isKeyName (js "Enter")).countP isKey = 1 := by
      rw [strokesOf, if_pos hEnter]
      rfl
    rw [hcons, List.flatMap_cons, List.flatMap_cons, List.countP_append, List.countP_append, ih,
      hReturn, List.countP_cons, List.length_cons, strokesOf]
    cases isKeyName line with
    | true =>
      have hone : [Stroke.key line].countP isKey = 1 := rfl
      simp only [if_true, hone]
      omega
    | false =>
      simp only [Bool.false_eq_true, if_false, countP_map_char]
      omega

theorem countP_typed (text : JsString) : (typed text).countP isKey = (lines text).length := by
  unfold typed
  induction lines text with
  | nil => rfl
  | cons line ls ih =>
    have hReturn : [Stroke.key (js "Enter")].countP isKey = 1 := rfl
    rw [List.flatMap_cons, List.countP_append, List.countP_append, countP_map_char, hReturn, ih,
      List.length_cons]
    omega

theorem strokes_operands (hEnter : isKeyName (js "Enter") = true) {ls : List JsString}
    (h : ∀ line ∈ ls, isKeyName line = false) : (operands ls).flatMap (strokesOf isKeyName) =
      ls.flatMap fun line => line.map .char ++ [.key (js "Enter")] := by
  rw [operands, List.flatMap_assoc]
  refine List.flatMap_congr fun line hline => ?_
  simp [strokesOf, hEnter, h line hline]

/-- What is typed is the text when no line of it is the name of a key. -/
theorem strokes_iff (hEnter : isKeyName (js "Enter") = true) (text : JsString) :
    (operands (lines text)).flatMap (strokesOf isKeyName) = typed text ↔
      ∀ line ∈ lines text, isKeyName line = false := by
  constructor
  · intro h
    have hcount := congrArg (List.countP isKey) h
    rw [countP_operands hEnter, countP_typed] at hcount
    have hzero : (lines text).countP isKeyName = 0 := by omega
    intro line hline
    simpa using List.countP_eq_zero.mp hzero line hline
  · exact strokes_operands hEnter

/-- `--` keeps the operands from being read as options, whatever they begin with. -/
theorem runCommand_sendKeys (pane : Nat) (text : JsString) :
    runCommand isKeyName (sendKeys (paneId pane) text) = .keys [(js "-t", some (paneId pane))]
      ((operands (lines text)).flatMap (strokesOf isKeyName)) := by
  rw [sendKeys_eq]
  rfl

theorem sendKeys_last (pane : Nat) (text : JsString) :
    ∃ args, sendKeys (paneId pane) text = args ++ [js "Enter"] := by
  obtain ⟨ls, line, hls⟩ := (List.eq_nil_or_concat (lines text)).resolve_left (List.splitOn_ne_nil 10 text)
  refine ⟨[js "send-keys", js "-t", paneId pane, js "--"] ++ (operands ls ++ [line]), ?_⟩
  rw [sendKeys_eq, hls]
  simp [operands]

theorem endsCommand_sendKeys (pane : Nat) (text : JsString) :
    (∀ arg ∈ sendKeys (paneId pane) text, endsCommand arg = false) ↔
      ∀ line ∈ lines text, endsCommand line = false := by
  rw [sendKeys_eq]
  constructor
  · intro h line hline
    refine h line (List.mem_append_right _ (List.mem_flatMap.mpr ⟨line, hline, ?_⟩))
    simp
  · intro h arg harg
    rcases List.mem_append.mp harg with hown | htext
    · have hown' : arg = js "send-keys" ∨ arg = js "-t" ∨ arg = paneId pane ∨ arg = js "--" := by
        simpa using hown
      rcases hown' with rfl | rfl | rfl | rfl
      · rfl
      · rfl
      · exact endsCommand_paneId pane
      · rfl
    · obtain ⟨line, hline, hmem⟩ := List.mem_flatMap.mp htext
      have hpair : arg = line ∨ arg = js "Enter" := by simpa using hmem
      rcases hpair with rfl | rfl
      · exact h arg hline
      · rfl

/-- There is one command when no line ends in a semicolon. -/
theorem splits_iff (pane : Nat) (text : JsString) :
    (splitCommands (sendKeys (paneId pane) text)).length = 1 ↔
      ∀ line ∈ lines text, endsCommand line = false := by
  rw [← endsCommand_sendKeys pane text]
  obtain ⟨args, hargs⟩ := sendKeys_last pane text
  have hlast : endsCommand (js "Enter") = false := rfl
  rw [hargs, length_splitCommands args hlast, Nat.add_eq_right, List.countP_eq_zero]
  constructor
  · intro h arg harg
    rcases List.mem_append.mp harg with hin | hin
    · simpa using h arg hin
    · rw [List.mem_singleton.mp hin]
      exact hlast
  · intro h arg harg
    simp [h arg (List.mem_append_left _ harg)]

/-- The text is typed, line by line, when no line of it is the name of a key or
ends in a semicolon. It is one that `execFile` can pass: without a NUL, without half
of a surrogate pair, and no longer than an argument may be. -/
theorem types_iff (hEnter : isKeyName (js "Enter") = true) (pane : Nat) (text : JsString) :
    Types isKeyName pane text ↔
      ∀ line ∈ lines text, isKeyName line = false ∧ endsCommand line = false := by
  have hne : sendKeys (paneId pane) text ≠ [] := by simp [sendKeys_eq]
  unfold Types tmux
  constructor
  · intro h
    have hone : (splitCommands (sendKeys (paneId pane) text)).length = 1 := by
      rw [← List.length_map, h]
      rfl
    have hends := (splits_iff pane text).mp hone
    rw [splitCommands_of_none ((endsCommand_sendKeys pane text).mpr hends) hne, List.map_singleton,
      runCommand_sendKeys, List.singleton_inj, Ran.keys.injEq] at h
    have hnames := (strokes_iff hEnter text).mp h.2
    exact fun line hline => ⟨hnames line hline, hends line hline⟩
  · intro h
    have hends := (endsCommand_sendKeys pane text).mpr fun line hline => (h line hline).2
    rw [splitCommands_of_none hends hne, List.map_singleton, runCommand_sendKeys,
      (strokes_iff hEnter text).mpr fun line hline => (h line hline).1]

end

def someKeys (arg : JsString) : Bool :=
  arg = js "Enter" || arg = js "Escape" || arg = js "C-c" || arg = js "BSpace"

theorem options_typed : Types someKeys 2 (js "-malicious\n--\ny") := by
  rw [types_iff (by decide)]
  decide

/-- A text interrupts what runs in the pane, and a text is not sent whole. -/
theorem text_acts : tmux someKeys (sendKeys (paneId 2) (js "C-c")) =
      [.keys [(js "-t", some (paneId 2))] [.key (js "C-c"), .key (js "Enter")]] ∧
    tmux someKeys (sendKeys (paneId 2) (js "ls;")) =
      [.keys [(js "-t", some (paneId 2))] [.char 0x6C, .char 0x73], .other [js "Enter"]] ∧
    ¬ Types someKeys 2 (js "C-c") ∧ ¬ Types someKeys 2 (js "ls;") := by
  unfold Types
  refine ⟨by decide, by decide, by decide, by decide⟩

end Conductor.Tmux.SendKeys
