import Conductor.Cli.Args
import Conductor.Http.Server
import Conductor.Js.Operators
import Conductor.Mcp.SchemaChecks

/-! # The three readers of the audit log

`GET /audit`, `audit_tail` and `agent-conductor audit` read the same log and
end in the same slice. They differ in what they accept for its length before
they negate it. -/
namespace Conductor.Cli.AuditReaders
open Conductor.Js Conductor.Js.Text Conductor.Js.Number Conductor.Js.ToNumber Conductor.Js.Values
open Conductor.Js.Operators (toText toPrimitive numberOf)
open Conductor.Js.Utf8 Conductor.Http.Server Conductor.Mcp.Tools Conductor.Mcp.Handlers Conductor.Cli.Args
open Conductor.Mcp.SchemaChecks (quietWorld)

/-! ## `GET /audit` -/

def auditBody (path : JsString) (total : Nat) (entries : List Json) : Json :=
  .obj [(js "path", .str path), (js "total", .num (Number.ofInt total)), (js "entries", .arr entries)]

/-- A positive finite number without its fraction, or the default. -/
def auditLimit (tail : JsNumber) : Int :=
  match tail.toRat? with
  | some q => if 0 < q then q.floor else 20
  | none => 20

def handleAudit (AUDIT_FILE_PATH : JsString) (auditLog : Except ReadError Bytes)
    (query : SearchParams) : Except JsError Json :=
  let tail := toNumber ((queryValue query (js "tail")).getD (js "20"))
  let limit := auditLimit tail
  match auditLog with
  | .error .enoent => return auditBody AUDIT_FILE_PATH 0 []
  | .error (.failed message) => throw (.error message)
  | .ok raw =>
    let entries := auditEntries (decode raw)
    return auditBody AUDIT_FILE_PATH entries.length (sliceFrom (-limit) entries)

/-! ## `agent-conductor audit` -/

def HELP : JsString := js "Usage: agent-conductor audit [--tail N] [--json]

Show the tail of the audit log (default: 20 entries).
Audit path is overridable via the AGENT_CONDUCTOR_AUDIT_DIR env var.

Flags:
  --tail N            How many entries (default 20)
  --json              JSON output (one array)
  -h, --help          Show this help
"

inductive Printed
  | stdout (text : JsString)
  | stderr (text : JsString)
  | renderJson (v : Json)
  /-- `renderTable` prints these rows. -/
  | renderTable (rows : List Json)
  /-- `renderTable` throws over these rows, after some of its lines or before the first. -/
  | brokenTable (rows : List Json)

/-- What the table needs of its surroundings: `Date.parse`, and which exception a table
throws that cannot be printed. -/
structure TableEnv where
  dateParse : JsString → JsNumber
  thrown : List Json → JsError

/-- The time value of `new Date(v)`. -/
def dateValue (dateParse : JsString → JsNumber) : Option Json → Except JsError JsNumber
  | none => pure .nan
  | some v => do
    match ← toPrimitive v with
    | .str s => return dateParse s
    | p => return numberOf p

/-- `toISOString` throws for every other time value. -/
def inDateRange : JsNumber → Bool
  | .finite t => decide (|t| ≤ 8640000000000000)
  | _ => false

/-- `clamp(v, max)` is a text: also of a longer array, of which a slice is added to the
ellipsis. What is no text throws in `clamp` or has no `padEnd`. -/
def clampsToText (max : Nat) : Json → Bool
  | .str _ => true
  | .arr xs => decide (max < xs.length) && (toText (.arr (xs.take (max - 1)))).toBool
  | _ => false

/-- The row can be printed: its date is one, `String(r.pid)` does not throw, and the
other cells are texts. -/
def printable (dateParse : JsString → JsNumber) (r : Json) : Bool :=
  let date := do
    let ts ← prop r (js "ts")
    dateValue dateParse ts
  date.toOption.any inDateRange &&
    (toText ((optProp (some r) (js "pid")).getD .null)).toBool &&
    (optProp (some r) (js "repo")).any (clampsToText 18) &&
    (optProp (some r) (js "action")).any isString && (optProp (some r) (js "source")).any isString &&
    clampsToText 32 (orElse (optProp (some r) (js "text")) (.str (js "—")))

/-- What is printed, and the exit code or what is thrown. -/
def auditCmd (env : TableEnv) (AUDIT_FILE_PATH : JsString) (auditLog : Except ReadError Bytes)
    (args : ParsedArgs) : List Printed × Except JsError Nat :=
  if flagBool args [js "h", js "help"] then ([.stdout HELP], .ok 0)
  else
    let tail := (flagInt args [js "tail"]).getD 20
    match auditLog with
    | .error .enoent =>
      ([if flagBool args [js "json"] then .renderJson (.arr [])
        else .stdout (js "(no audit log yet at " ++ AUDIT_FILE_PATH ++ js ")\n")], .ok 0)
    | .error (.failed message) => ([.stderr (js "audit: " ++ message ++ js "\n")], .ok 1)
    | .ok raw =>
      let rows := auditEntries (decode raw)
      let slice := sliceFrom (-tail) rows
      if flagBool args [js "json"] then ([.renderJson (.arr slice)], .ok 0)
      else if slice.length = 0 then ([.stdout (js "(audit log empty)\n")], .ok 0)
      else if slice.all (printable env.dateParse) then
        ([.renderTable slice, .stdout (js "\nShowing last " ++ Text.ofInt slice.length ++ js " of " ++
          Text.ofInt rows.length ++ js " entries from " ++ AUDIT_FILE_PATH ++ js "\n")], .ok 0)
      else ([.brokenTable slice], .error (env.thrown slice))

/-! ## The entries -/

def httpEntries (answer : Except JsError Json) : Option (List Json) :=
  match answer with
  | .ok body => match optProp (some body) (js "entries") with
    | some (.arr es) => some es
    | _ => none
  | .error _ => none

def mcpEntries (r : ToolRun) : Option (List Json) :=
  match r.result with
  | .ok (.audit _ _ es) => some es
  | _ => none

/-- The entries that the command has shown when it returns, none when it throws. -/
def cliEntries (run : List Printed × Except JsError Nat) : Option (List Json) :=
  match run with
  | ([.renderJson (.arr es)], .ok _) => some es
  | (.renderTable rows :: _, .ok _) => some rows
  | (_, .ok _) => some []
  | (_, .error _) => none

/-- One number asked of the three readers over one log. -/
structure Asked where
  n : Rat
  w : ToolWorld
  env : TableEnv
  raw : Bytes
  log : w.auditLog = .ok raw
  query : SearchParams
  args : Json
  cmd : ParsedArgs
  query_tail : ∃ t, queryValue query (js "tail") = some t ∧ toNumber t = .finite n
  args_tail : numberArg args (js "tail") = some n
  cmd_tail : ∃ t, flagString cmd [js "tail"] = some t ∧ toNumber t = .finite n
  cmd_help : flagBool cmd [js "h", js "help"] = false

def Asked.all (a : Asked) : List Json := auditEntries (decode a.raw)

/-- The command prints JSON, or a table of entries that can all be printed. -/
def Asked.prints (a : Asked) (cli : List Json) : Bool :=
  flagBool a.cmd [js "json"] || cli.all (printable a.env.dateParse)

/-- What the three return: the command its entries where it can print them. -/
structure Asked.Returns (a : Asked) (http mcp cli : List Json) : Prop where
  http : httpEntries (handleAudit a.w.AUDIT_FILE_PATH a.w.auditLog a.query) = some http
  mcp : mcpEntries (auditTailTool a.w a.args) = some mcp
  cli : cliEntries (auditCmd a.env a.w.AUDIT_FILE_PATH a.w.auditLog a.cmd) =
    if a.prints cli then some cli else none

def lastEntries (m : Nat) (all : List Json) : List Json := all.drop (all.length - m)

/-- The parts of the log that the readers return. The command takes whole
numbers only. -/
structure Tails (n : Rat) (all http mcp cli : List Json) : Prop where
  suffix : http <:+ all ∧ mcp <:+ all ∧ cli <:+ all
  http_default : n ≤ 0 → http = lastEntries 20 all
  floor : 1 ≤ n → http = lastEntries n.floor.toNat all ∧ mcp = lastEntries n.floor.toNat all
  cli_default : n.den ≠ 1 → cli = lastEntries 20 all
  same : ∀ m : Nat, 1 ≤ m → n = m →
    http = lastEntries m all ∧ mcp = lastEntries m all ∧ cli = lastEntries m all

/-! ## The slice -/

theorem sliceFrom_suffix (start : Int) (es : List Json) : sliceFrom start es <:+ es := by
  unfold sliceFrom
  split
  · exact List.drop_suffix _ _
  · exact List.drop_suffix _ _

theorem sliceFrom_neg {m : Int} (h : 0 < m) (es : List Json) :
    sliceFrom (-m) es = lastEntries m.toNat es := by
  rw [sliceFrom, if_pos (by omega), neg_neg, lastEntries]

/-- Dropping the fraction of the negated number is rounding the number down. -/
theorem truncated_neg {q : Rat} (h : 0 < q) : truncated (-q) = -q.floor := by
  rw [truncated, if_pos (by linarith), neg_neg]

theorem floor_pos {q : Rat} (h : 1 ≤ q) : 0 < q.floor := by
  have hone : 1 ≤ q.floor := Rat.le_floor_iff.mpr (by exact_mod_cast h)
  omega

/-! ## What is asked -/

theorem Asked.http (a : Asked) : httpEntries (handleAudit a.w.AUDIT_FILE_PATH a.w.auditLog a.query) =
    some (sliceFrom (-(if 0 < a.n then a.n.floor else 20)) a.all) := by
  obtain ⟨t, hquery, ht⟩ := a.query_tail
  unfold handleAudit
  simp only [hquery, Option.getD_some, ht, a.log]
  rfl

theorem Asked.mcp (a : Asked) : mcpEntries (auditTailTool a.w a.args) =
    some (sliceFrom (truncated (-a.n)) a.all) := by
  unfold auditTailTool
  simp only [a.args_tail, Option.getD_some, a.log]
  rfl

/-- What the command shows of a log that it could read. -/
theorem cliEntries_auditCmd {env : TableEnv} {path : JsString} {raw : Bytes} {args : ParsedArgs}
    {slice : List Json} (hhelp : flagBool args [js "h", js "help"] = false)
    (hslice : sliceFrom (-(flagInt args [js "tail"]).getD 20) (auditEntries (decode raw)) = slice) :
    cliEntries (auditCmd env path (.ok raw) args) =
      if flagBool args [js "json"] || slice.all (printable env.dateParse) then some slice else none := by
  unfold auditCmd
  simp only [hhelp, Bool.false_eq_true, if_false, hslice]
  by_cases hjson : flagBool args [js "json"] = true
  · rw [if_pos hjson, hjson]
    rfl
  · rw [if_neg hjson, Bool.eq_false_iff.mpr hjson, Bool.false_or]
    by_cases hempty : slice.length = 0
    · rw [if_pos hempty, List.eq_nil_of_length_eq_zero hempty]
      rfl
    · rw [if_neg hempty]
      by_cases hall : slice.all (printable env.dateParse) = true
      · rw [if_pos hall, if_pos hall]
        rfl
      · rw [if_neg hall, if_neg hall]
        rfl

theorem Asked.cli (a : Asked) :
    cliEntries (auditCmd a.env a.w.AUDIT_FILE_PATH a.w.auditLog a.cmd) =
      if a.prints (sliceFrom (-(if a.n.den = 1 then a.n.num else 20)) a.all) then
        some (sliceFrom (-(if a.n.den = 1 then a.n.num else 20)) a.all) else none := by
  obtain ⟨t, hcmd, ht⟩ := a.cmd_tail
  have htail : (flagInt a.cmd [js "tail"]).getD 20 = if a.n.den = 1 then a.n.num else 20 := by
    rw [flagInt, hcmd]
    simp only [ht]
    split
    · rfl
    · rfl
  rw [a.log]
  exact cliEntries_auditCmd a.cmd_help (by rw [htail]; rfl)

/-- Every reader returns the end of the log: `GET /audit` and `audit_tail` the
last `⌊n⌋` entries from `1` on, the command the last `n` when `n` is whole, and
the default where a reader falls back to it. -/
theorem readers_tail (a : Asked) : ∃ http mcp cli, a.Returns http mcp cli ∧
    Tails a.n a.all http mcp cli := by
  refine ⟨_, _, _, ⟨a.http, a.mcp, a.cli⟩, ?_⟩
  have hfloor : 1 ≤ a.n → sliceFrom (-(if 0 < a.n then a.n.floor else 20)) a.all =
        lastEntries a.n.floor.toNat a.all ∧
      sliceFrom (truncated (-a.n)) a.all = lastEntries a.n.floor.toNat a.all := by
    intro h
    have hpos : 0 < a.n := by linarith
    rw [if_pos hpos, truncated_neg hpos, sliceFrom_neg (floor_pos h)]
    exact ⟨rfl, rfl⟩
  constructor
  · exact ⟨sliceFrom_suffix _ _, sliceFrom_suffix _ _, sliceFrom_suffix _ _⟩
  · intro h
    rw [if_neg (not_lt.mpr h), sliceFrom_neg (by decide)]
    rfl
  · exact hfloor
  · intro h
    rw [if_neg h, sliceFrom_neg (by decide)]
    rfl
  · intro m hm hn
    have hone : 1 ≤ a.n := by
      rw [hn]
      exact_mod_cast hm
    have hm' : a.n.floor.toNat = m := by
      have hint : (m : Rat).floor = (m : Int) := Rat.floor_intCast m
      rw [hn, hint]
      rfl
    obtain ⟨hhttp, hmcp⟩ := hfloor hone
    rw [hm'] at hhttp hmcp
    refine ⟨hhttp, hmcp, ?_⟩
    have hden : a.n.den = 1 := by
      rw [hn]
      rfl
    have hnum : a.n.num = m := by
      rw [hn]
      rfl
    rw [if_pos hden, hnum, sliceFrom_neg (by omega)]
    rfl

/-! ## A log of three injects -/

def threeEntries : Bytes := encode (js "\x7b\"ts\":1,\"pid\":7,\"repo\":\"a\",\"action\":\"send-keys\",\"source\":\"auto\"\x7d
\x7b\"ts\":2,\"pid\":7,\"repo\":\"a\",\"action\":\"send-keys\",\"source\":\"auto\"\x7d
\x7b\"ts\":3,\"pid\":8,\"repo\":\"b\",\"action\":\"send-keys\",\"text\":\"y\",\"source\":\"skill\"\x7d
")

/-- No date is written as a text there. -/
def numericDates : TableEnv := ⟨fun _ => .nan, fun _ => .error (js "Invalid time value")⟩

/-- The last two of three entries, asked for in every spelling. -/
def askTwo : Asked where
  n := 2
  w := { quietWorld 0 with auditLog := .ok threeEntries }
  env := numericDates
  raw := threeEntries
  log := rfl
  query := [(js "tail", js "2")]
  args := .obj [(js "tail", .num (.finite 2))]
  cmd := parseArgs [js "audit", js "--tail", js "2"]
  query_tail := ⟨js "2", by decide, by decide +kernel⟩
  args_tail := rfl
  cmd_tail := ⟨js "2", by decide, by decide +kernel⟩
  cmd_help := by decide

theorem two_asked : ∃ http mcp cli, askTwo.Returns http mcp cli ∧ Tails 2 askTwo.all http mcp cli ∧
    askTwo.all.all (printable numericDates.dateParse) = true := by
  obtain ⟨http, mcp, cli, hreturns, htails⟩ := readers_tail askTwo
  exact ⟨http, mcp, cli, hreturns, htails, by decide +kernel⟩

/-- To the command two and a half is no number of entries: all three are shown. -/
theorem fraction_default : toNumber (js "2.5") = .finite (5 / 2) ∧ max 0 (5 / 2 : Rat).floor = 2 ∧
    flagString (parseArgs [js "audit", js "--tail=2.5"]) [js "tail"] = some (js "2.5") ∧
    (cliEntries (auditCmd numericDates (js "/audit.jsonl") (.ok threeEntries)
      (parseArgs [js "audit", js "--tail=2.5"]))).map List.length = some 3 :=
  ⟨by decide +kernel, by decide +kernel, by decide, by decide +kernel⟩

end Conductor.Cli.AuditReaders
