import Conductor.Cli.RepeatedFlags

/-! # Flags written out and parsed

`--key=value` for every pair, `--` and the positional arguments. What comes back
depends on the keys: the members of `Object.prototype` are there before a flag
of their name is. -/
namespace Conductor.Cli.FlagRoundTrip
open Conductor.Js.Text Conductor.Cli.Args Conductor.Cli.RepeatedFlags

/-- A flag as it is written. -/
structure KeyValue where
  key : JsString
  value : JsString
  key_ne : key ≠ []
  key_plain : 0x3D ∉ key

/-- `--key=value`. -/
def KeyValue.token (p : KeyValue) : JsString := js "--" ++ (p.key ++ 0x3D :: p.value)

def argvOf (pairs : List KeyValue) (positional : List JsString) : List JsString :=
  pairs.map KeyValue.token ++ js "--" :: positional

/-- The values that are given for a key, in order. -/
def valuesOf (pairs : List KeyValue) (key : JsString) : List JsString :=
  (pairs.filter fun p => decide (p.key = key)).map KeyValue.value

/-- A value by itself, several as an array. -/
def flagOf : List JsString → Option FlagValue
  | [] => none
  | [v] => some (.str v)
  | vs => some (.arr vs)

/-- The parser returns what was written. -/
structure RoundTrip (pairs : List KeyValue) (positional : List JsString) : Prop where
  positional_eq : (parseArgs (argvOf pairs positional)).positional = positional
  flags_eq : ∀ key, (parseArgs (argvOf pairs positional)).flags.own key = flagOf (valuesOf pairs key)

/-! ## The loop over the tokens -/

def setAll (pairs : List KeyValue) : FlagObject :=
  applyAll FlagObject.empty (pairs.map fun p => (p.key, .str p.value))

theorem setAll_append (pairs more : List KeyValue) : setAll (pairs ++ more) =
    applyAll (setAll pairs) (more.map fun p => (p.key, .str p.value)) := by
  rw [setAll, setAll, List.map_append, applyAll, List.foldl_append]
  rfl

theorem parseFrom_argvOf (args : ParsedArgs) (pairs : List KeyValue) (positional : List JsString) :
    parseFrom args (argvOf pairs positional) =
      ⟨args.positional ++ positional, applyAll args.flags (pairs.map fun p => (p.key, .str p.value))⟩ := by
  induction pairs generalizing args with
  | nil =>
    have hend : readToken (js "--") = .terminator := rfl
    rw [argvOf, List.map_nil, List.nil_append, parseFrom, hend]
    rfl
  | cons p pairs ih =>
    have htok : readToken p.token = .valued p.key p.value := readToken_valued p.key_plain p.value
    rw [argvOf, List.map_cons, List.cons_append, parseFrom, htok]
    exact ih (args.set p.key (.str p.value))

theorem parseArgs_argvOf (pairs : List KeyValue) (positional : List JsString) :
    parseArgs (argvOf pairs positional) = ⟨positional, setAll pairs⟩ :=
  parseFrom_argvOf ⟨[], FlagObject.empty⟩ pairs positional

theorem valuesOf_append (pairs more : List KeyValue) (key : JsString) :
    valuesOf (pairs ++ more) key = valuesOf pairs key ++ valuesOf more key := by
  rw [valuesOf, List.filter_append, List.map_append]
  rfl

theorem valuesOf_cons_self (p : KeyValue) (pairs : List KeyValue) :
    valuesOf (p :: pairs) p.key = p.value :: valuesOf pairs p.key := by
  simp [valuesOf]

theorem valuesOf_cons_of_ne {p : KeyValue} {key : JsString} (h : p.key ≠ key) (pairs : List KeyValue) :
    valuesOf (p :: pairs) key = valuesOf pairs key := by
  simp [valuesOf, h]

theorem valuesOf_eq_nil {pairs : List KeyValue} {key : JsString} (h : ∀ p ∈ pairs, p.key ≠ key) :
    valuesOf pairs key = [] := by
  rw [valuesOf, List.filter_eq_nil_iff.mpr fun p hp => by simpa using h p hp, List.map_nil]

/-! ## Keys that are no members -/

theorem proto_setAll {pairs : List KeyValue} (h : ∀ p ∈ pairs, p.key ∉ objectMembers) :
    (setAll pairs).proto = none := by
  rcases proto_applyAll (o := FlagObject.empty) rfl rfl (pairs.map fun p => (p.key, .str p.value)) with
    ⟨-, hproto⟩ | ⟨hpos, -⟩
  · exact hproto
  · obtain ⟨s, hs, hkey⟩ := List.countP_pos_iff.mp hpos
    obtain ⟨p, hp, rfl⟩ := List.mem_map.mp hs
    have hname : p.key = js "__proto__" := of_decide_eq_true hkey
    refine absurd ?_ (h p hp)
    rw [hname]
    exact List.mem_cons_self

/-- One more value for a key. -/
theorem own_set_str {o : FlagObject} {key : JsString} (hproto : key ≠ js "__proto__") {vs : List JsString}
    (hown : o.own key = flagOf vs) (hget : vs = [] → o.get key = none) (v : JsString) :
    (o.set key (.str v)).own key = flagOf (vs ++ [v]) := by
  match vs, hown, hget with
  | [], _, hget =>
    rw [set_none (hget rfl), own_assign_self hproto]
    rfl
  | [w], hown, _ =>
    rw [FlagObject.set, get_of_own hown]
    exact own_assign_self hproto o _
  | w :: w' :: ws, hown, _ =>
    rw [FlagObject.set, get_of_own hown]
    exact own_assign_self hproto o _

theorem own_setAll {pairs : List KeyValue} (h : ∀ p ∈ pairs, p.key ∉ objectMembers) (key : JsString) :
    (setAll pairs).own key = flagOf (valuesOf pairs key) := by
  induction pairs using List.reverseRecOn with
  | nil => rfl
  | append_singleton pairs p ih =>
    have hbefore : ∀ q ∈ pairs, q.key ∉ objectMembers := fun q hq => h q (by simp [hq])
    have hp := h p (by simp)
    have hproto : p.key ≠ js "__proto__" := fun he => hp (he.symm ▸ List.mem_cons_self)
    rw [setAll_append, valuesOf_append]
    rcases eq_or_ne p.key key with rfl | hne
    · rw [valuesOf_cons_self]
      refine own_set_str hproto (ih hbefore) (fun hnil => ?_) p.value
      rw [FlagObject.get, ih hbefore, hnil, proto_setAll hbefore]
      exact (inObject_eq_none p.key).mpr hp
    · rw [valuesOf_cons_of_ne hne]
      exact (own_set_of_ne hne.symm (setAll pairs) (.str p.value)).trans ((ih hbefore).trans (by simp [valuesOf]))

/-! ## Members -/

/-- An array takes every further value. -/
theorem own_applyAll_arr {key : JsString} (hproto : key ≠ js "__proto__") {o : FlagObject} {xs : List JsString}
    (h : o.own key = some (.arr xs)) (pairs : List KeyValue) :
    (applyAll o (pairs.map fun p => (p.key, .str p.value))).own key =
      some (.arr (xs ++ valuesOf pairs key)) := by
  induction pairs generalizing o xs with
  | nil => simpa [applyAll, valuesOf] using h
  | cons p pairs ih =>
    rw [List.map_cons, applyAll_cons]
    rcases eq_or_ne p.key key with rfl | hne
    · have hset : (o.set p.key (.str p.value)).own p.key = some (.arr (xs ++ [p.value])) := by
        rw [FlagObject.set, get_of_own h]
        exact own_assign_self hproto o _
      rw [ih hset, valuesOf_cons_self, List.append_assoc, List.singleton_append]
    · rw [ih ((own_set_of_ne hne.symm o _).trans h), valuesOf_cons_of_ne hne]

theorem inObject_text {key : JsString} (h : key ∈ objectMembers) : ∃ text, inObject key = some (.other text) := by
  have hne : inObject key ≠ none := fun hnone => (inObject_eq_none key).mp hnone h
  unfold inObject at hne ⊢
  split_ifs at hne ⊢
  · exact ⟨_, rfl⟩
  · exact ⟨_, rfl⟩
  · exact ⟨_, rfl⟩
  · exact absurd rfl hne

theorem flagOf_ne_nil {vs : List JsString} (h : vs ≠ []) : flagOf vs ≠ none := by
  match vs, h with
  | [v], _ => exact fun he => by cases he
  | v :: w :: vs, _ => exact fun he => by cases he

/-- The text of the member is kept in front of the first value. -/
theorem not_own_setAll {before after : List KeyValue} {p : KeyValue} (hbefore : ∀ q ∈ before, q.key ∉ objectMembers)
    (hp : p.key ∈ objectMembers) :
    (setAll (before ++ p :: after)).own p.key ≠ flagOf (valuesOf (before ++ p :: after) p.key) := by
  have hfirst : ∀ q ∈ before, q.key ≠ p.key := fun q hq he => hbefore q hq (he ▸ hp)
  have hvalues : valuesOf (before ++ p :: after) p.key = p.value :: valuesOf after p.key := by
    rw [valuesOf_append, valuesOf_eq_nil hfirst, List.nil_append, valuesOf_cons_self]
  rw [hvalues, setAll_append, List.map_cons, applyAll_cons]
  by_cases hproto : p.key = js "__proto__"
  · rw [hproto, own_applyAll_proto, own_set_proto, own_setAll hbefore,
      valuesOf_eq_nil fun q hq => hproto ▸ hfirst q hq]
    exact (flagOf_ne_nil (List.cons_ne_nil _ _)).symm
  · obtain ⟨text, htext⟩ := inObject_text hp
    have hget : (setAll before).get p.key = some (.other text) := by
      rw [FlagObject.get, own_setAll hbefore, valuesOf_eq_nil hfirst, proto_setAll hbefore]
      exact htext
    have hset : ((setAll before).set p.key (.str p.value)).own p.key = some (.arr [text, p.value]) := by
      rw [FlagObject.set, hget]
      exact own_assign_self hproto (setAll before) _
    rw [own_applyAll_arr hproto hset]
    cases valuesOf after p.key with
    | nil =>
      intro h
      cases h
    | cons v vs =>
      intro h
      have hlength := congrArg List.length (FlagValue.arr.inj (Option.some.inj h))
      simp at hlength

/-- Keys and values come back unless a key is the name of a member of `Object.prototype`. -/
theorem roundTrip_iff (pairs : List KeyValue) (positional : List JsString) :
    RoundTrip pairs positional ↔ ∀ p ∈ pairs, p.key ∉ objectMembers := by
  constructor
  · intro h
    by_contra hsome
    -- the first of the keys that are members
    obtain ⟨p, hfind⟩ : ∃ p, pairs.find? (fun q => decide (q.key ∈ objectMembers)) = some p := by
      simp only [not_forall, not_not] at hsome
      obtain ⟨q, hq, hmember⟩ := hsome
      exact Option.isSome_iff_exists.mp (List.find?_isSome.mpr ⟨q, hq, by simpa using hmember⟩)
    obtain ⟨hmember, before, after, rfl, hnot⟩ := List.find?_eq_some_iff_append.mp hfind
    have hp : p.key ∈ objectMembers := of_decide_eq_true hmember
    have hbefore : ∀ q ∈ before, q.key ∉ objectMembers := fun q hq => by simpa using hnot q hq
    refine @not_own_setAll before after p hbefore hp ?_
    have hflags := h.flags_eq p.key
    rwa [parseArgs_argvOf] at hflags
  · intro h
    refine ⟨by rw [parseArgs_argvOf], fun key => ?_⟩
    rw [parseArgs_argvOf]
    exact own_setAll h key

def constructorFlag : KeyValue := ⟨js "constructor", js "x", by decide, by decide⟩

/-- `--constructor=x --` gives an array of two, the function `Object` among them. -/
theorem constructor_array : argvOf [constructorFlag] [] = [js "--constructor=x", js "--"] ∧
    (parseArgs (argvOf [constructorFlag] [])).flags.own (js "constructor") =
      some (.arr [js "function Object() \x7b [native code] \x7d", js "x"]) ∧
    ¬ RoundTrip [constructorFlag] [] := by
  have hread : (parseArgs (argvOf [constructorFlag] [])).flags.own (js "constructor") =
      some (.arr [js "function Object() \x7b [native code] \x7d", js "x"]) := by decide
  refine ⟨by decide, hread, fun h => ?_⟩
  have hflags := h.flags_eq (js "constructor")
  rw [hread] at hflags
  revert hflags
  decide

end Conductor.Cli.FlagRoundTrip
