import Mathlib.Logic.Function.Basic
import Conductor.Js.ToNumber

/-! # The argv parser

The flags are kept in a plain object, so a flag that was not set is looked up
among the members that every object has, and a flag called `__proto__` sets the
prototype. -/
namespace Conductor.Cli.Args
open Conductor.Js Conductor.Js.Text Conductor.Js.Number Conductor.Js.ToNumber

inductive FlagValue where
  | bool (b : Bool)
  | str (s : JsString)
  | arr (xs : List JsString)
  deriving DecidableEq

/-- What `flags[key]` can be. A value of any other type counts by its `String` only. -/
inductive Member where
  | flag (v : FlagValue)
  | other (text : JsString)
  deriving DecidableEq

/-- `String(v)`; of an array it is never taken. -/
def FlagValue.text : FlagValue → JsString
  | .bool b => js (if b then "true" else "false")
  | .str s => s
  | .arr xs => [0x2C].intercalate xs

def Member.text : Member → JsString
  | .flag v => v.text
  | .other text => text

/-- `flags`: its own members, and the array that `__proto__` has made its
prototype, if any. -/
structure FlagObject where
  own : JsString → Option FlagValue
  proto : Option (List JsString)

structure ParsedArgs where
  positional : List JsString
  flags : FlagObject

/-! ## The members of an object -/

def objectMethods : List JsString :=
  [js "__defineGetter__", js "__defineSetter__", js "hasOwnProperty", js "__lookupGetter__",
    js "__lookupSetter__", js "isPrototypeOf", js "propertyIsEnumerable", js "toString", js "valueOf",
    js "toLocaleString"]

def arrayMethods : List JsString :=
  [js "at", js "concat", js "copyWithin", js "fill", js "find", js "findIndex", js "findLast",
    js "findLastIndex", js "lastIndexOf", js "pop", js "push", js "reverse", js "shift", js "unshift",
    js "slice", js "sort", js "splice", js "includes", js "indexOf", js "join", js "keys", js "entries",
    js "values", js "forEach", js "filter", js "flat", js "flatMap", js "map", js "every", js "some",
    js "reduce", js "reduceRight", js "toReversed", js "toSorted", js "toSpliced", js "with"]

def functionText (name : JsString) : JsString := js "function " ++ name ++ js "() \x7b [native code] \x7d"

/-- The members of `Object.prototype`. -/
def inObject (key : JsString) : Option Member :=
  if key = js "__proto__" then some (.other (js "[object Object]"))
  else if key = js "constructor" then some (.other (functionText (js "Object")))
  else if objectMethods.contains key then some (.other (functionText key))
  else none

/-- The element of an array that a key is the index of. -/
def element (xs : List JsString) (key : JsString) : Option JsString :=
  ((List.range xs.length).find? fun i => decide (js (toString i) = key)).bind (xs[·]?)

/-- The members of an object whose prototype is an array. -/
def inArray (xs : List JsString) (key : JsString) : Option Member :=
  if key = js "__proto__" then some (.flag (.arr xs))
  else if key = js "length" then some (.other (Text.ofInt xs.length))
  else match element xs key with
    | some x => some (.flag (.str x))
    | none =>
      if key = js "constructor" then some (.other (functionText (js "Array")))
      else if arrayMethods.contains key then some (.other (functionText key))
      else inObject key

/-- `flags[key]`. -/
def FlagObject.get (o : FlagObject) (key : JsString) : Option Member :=
  match o.own key with
  | some v => some (.flag v)
  | none => match o.proto with
    | some xs => inArray xs key
    | none => inObject key

/-- `flags[key] = v`. The setter of `__proto__` takes no primitive. -/
def FlagObject.assign (o : FlagObject) (key : JsString) (v : FlagValue) : FlagObject :=
  if key = js "__proto__" then
    match v with
    | .arr xs => { o with proto := some xs }
    | _ => o
  else { o with own := Function.update o.own key (some v) }

/-- `set`; an array is extended where it stands. -/
def FlagObject.set (o : FlagObject) (key : JsString) (value : FlagValue) : FlagObject :=
  match o.get key with
  | none => o.assign key value
  | some (.flag (.arr xs)) => o.assign key (.arr (xs ++ [value.text]))
  | some existing => o.assign key (.arr [existing.text, value.text])

def FlagObject.empty : FlagObject := ⟨fun _ => none, none⟩

/-! ## The parser -/

/-- `s.startsWith("-")`. -/
def dashed (s : JsString) : Bool := s.head? = some 0x2D

inductive Token where
  | terminator
  /-- `--key=value` or `-kvalue`. -/
  | valued (key value : JsString)
  /-- `--key` or `-k`: the next token may be its value. -/
  | bare (key : JsString)
  | word (w : JsString)

def readToken (tok : JsString) : Token :=
  if tok = js "--" then .terminator
  else if (js "--").isPrefixOf tok then
    match tok.findIdx? (· == 0x3D) with
    | some eq => .valued ((tok.take eq).drop 2) (tok.drop (eq + 1))
    | none => .bare (tok.drop 2)
  else if dashed tok ∧ 1 < tok.length then
    if (tok.drop 2).isEmpty then .bare ((tok.take 2).drop 1)
    else .valued ((tok.take 2).drop 1) (tok.drop 2)
  else .word tok

def ParsedArgs.set (args : ParsedArgs) (key : JsString) (value : FlagValue) : ParsedArgs :=
  { args with flags := args.flags.set key value }

/-- The loop over `argv`, from the arguments read so far. -/
def parseFrom (args : ParsedArgs) : List JsString → ParsedArgs
  | [] => args
  | tok :: rest => match readToken tok with
    | .terminator => { args with positional := args.positional ++ rest }
    | .valued key value => parseFrom (args.set key (.str value)) rest
    | .bare key => match rest with
      | [] => args.set key (.bool true)
      | next :: rest' =>
        if dashed next then parseFrom (args.set key (.bool true)) (next :: rest')
        else parseFrom (args.set key (.str next)) rest'
    | .word w => parseFrom { args with positional := args.positional ++ [w] } rest

def parseArgs (argv : List JsString) : ParsedArgs := parseFrom ⟨[], FlagObject.empty⟩ argv

/-! ## The readers -/

def flagString (args : ParsedArgs) : List JsString → Option JsString
  | [] => none
  | n :: names => match args.flags.get n with
    | some (.flag (.str s)) => some s
    | some (.flag (.arr xs)) => xs.head?
    | _ => flagString args names

def flagBool (args : ParsedArgs) : List JsString → Bool
  | [] => false
  | n :: names => match args.flags.get n with
    | some (.flag (.bool b)) => b
    | some (.flag (.str s)) => decide (s ≠ js "false" ∧ s ≠ js "0")
    | _ => flagBool args names

def flagInt (args : ParsedArgs) (names : List JsString) : Option Int :=
  match flagString args names with
  | none => none
  | some s => match toNumber s with
    | .finite q => if q.den = 1 then some q.num else none
    | _ => none

end Conductor.Cli.Args
