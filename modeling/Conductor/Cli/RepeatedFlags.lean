import Conductor.Cli.Args
import Conductor.Cli.InjectCmd

/-! # Presence flags

A flag that is given twice becomes an array, and `flagBool` knows no arrays.
The same happens to the first occurrence of a flag whose name every object
has a member of. -/
namespace Conductor.Cli.RepeatedFlags
open Conductor.Js Conductor.Js.Text Conductor.Cli.Args Conductor.Cli.InjectCmd

/-! ## The settings of an argv -/

/-- What the loop sets, in order. -/
def settings : List JsString → List (JsString × FlagValue)
  | [] => []
  | tok :: rest => match readToken tok with
    | .terminator => []
    | .valued key value => (key, .str value) :: settings rest
    | .bare key => match rest with
      | [] => [(key, .bool true)]
      | next :: rest' =>
        if dashed next then (key, .bool true) :: settings (next :: rest')
        else (key, .str next) :: settings rest'
    | .word _ => settings rest

section
variable {tok : JsString} (rest : List JsString)

theorem settings_terminator (h : readToken tok = .terminator) : settings (tok :: rest) = [] := by
  rw [settings, h]

theorem settings_valued {key value : JsString} (h : readToken tok = .valued key value) :
    settings (tok :: rest) = (key, .str value) :: settings rest := by
  rw [settings, h]

theorem settings_word {w : JsString} (h : readToken tok = .word w) :
    settings (tok :: rest) = settings rest := by
  rw [settings, h]

theorem settings_last {key : JsString} (h : readToken tok = .bare key) :
    settings [tok] = [(key, .bool true)] := by
  rw [settings, h]

theorem settings_bare {key next : JsString} (h : readToken tok = .bare key)
    (hnext : dashed next = true) :
    settings (tok :: next :: rest) = (key, .bool true) :: settings (next :: rest) := by
  rw [settings, h]
  exact if_pos hnext

theorem settings_next {key next : JsString} (h : readToken tok = .bare key)
    (hnext : ¬ dashed next = true) :
    settings (tok :: next :: rest) = (key, .str next) :: settings rest := by
  rw [settings, h]
  exact if_neg hnext

end

def applyAll (o : FlagObject) (sets : List (JsString × FlagValue)) : FlagObject :=
  sets.foldl (fun o s => o.set s.1 s.2) o

theorem applyAll_cons (o : FlagObject) (s : JsString × FlagValue) (sets : List (JsString × FlagValue)) :
    applyAll o (s :: sets) = applyAll (o.set s.1 s.2) sets := rfl

/-- The flags depend on the settings only. -/
theorem flags_parseFrom (args : ParsedArgs) (argv : List JsString) :
    (parseFrom args argv).flags = applyAll args.flags (settings argv) := by
  induction argv using settings.induct generalizing args with
  | case1 => rfl
  | case2 tok rest htok =>
    rw [parseFrom, htok, settings_terminator rest htok]
    rfl
  | case3 tok rest key value htok ih =>
    rw [parseFrom, htok, settings_valued rest htok, applyAll_cons]
    exact ih _
  | case4 tok key htok =>
    rw [parseFrom, htok, settings_last htok]
    rfl
  | case5 tok key htok next rest hnext ih =>
    rw [settings_bare rest htok hnext, applyAll_cons, parseFrom, htok]
    simp only [hnext, if_true]
    exact ih _
  | case6 tok key htok next rest hnext ih =>
    rw [settings_next rest htok hnext, applyAll_cons, parseFrom, htok]
    simp only [hnext]
    exact ih _
  | case7 tok rest w htok ih =>
    rw [parseFrom, htok, settings_word rest htok]
    exact ih _

/-! ## The tokens that set a flag -/

/-- The tokens before the terminator. -/
def options (argv : List JsString) : List JsString := argv.takeWhile fun tok => decide (tok ≠ js "--")

theorem options_of_not_mem {l : List JsString} (h : js "--" ∉ l) : options l = l := by
  rw [options, List.takeWhile_eq_self_iff]
  intro tok htok
  simpa using fun he : tok = js "--" => h (he ▸ htok)

/-- `--f` or `--f=value`. -/
def isFlag (f tok : JsString) : Bool :=
  decide (tok = js "--" ++ f) || (js "--" ++ f ++ js "=").isPrefixOf tok

/-- The name that a token sets. -/
def keyOf : Token → Option JsString
  | .bare key => some key
  | .valued key _ => some key
  | .terminator => none
  | .word _ => none

theorem findIdx?_equals {s : JsString} (h : 0x3D ∉ s) : s.findIdx? (· == 0x3D) = none := by
  rw [List.findIdx?_eq_none_iff]
  intro u hu
  rw [beq_eq_false_iff_ne]
  rintro rfl
  exact h hu

theorem readToken_valued {a : JsString} (ha : 0x3D ∉ a) (b : JsString) :
    readToken (js "--" ++ (a ++ 0x3D :: b)) = .valued a b := by
  have hidx : (js "--" ++ (a ++ 0x3D :: b)).findIdx? (· == 0x3D) = some (a.length + 2) := by
    have htwo : (js "--").findIdx? (· == 0x3D) = none := rfl
    rw [List.findIdx?_append, List.findIdx?_append, htwo, findIdx?_equals ha]
    simp [List.findIdx?_cons]
    rfl
  have hne : js "--" ++ (a ++ 0x3D :: b) ≠ js "--" := by simp
  have hlen : (js "--").length = 2 := rfl
  have htake : (js "--" ++ (a ++ 0x3D :: b)).take (a.length + 2) = js "--" ++ a := by
    rw [← List.append_assoc]
    refine List.take_left' ?_
    simp only [List.length_append, hlen]
    omega
  have hdrop : (js "--" ++ (a ++ 0x3D :: b)).drop (a.length + 2 + 1) = b := by
    have hassoc : js "--" ++ (a ++ 0x3D :: b) = js "--" ++ a ++ [0x3D] ++ b := by simp
    rw [hassoc]
    refine List.drop_left' ?_
    simp only [List.length_append, hlen, List.length_singleton]
    omega
  rw [readToken, if_neg hne, if_pos (by simp), hidx]
  simp only [htake, hdrop]
  rfl

theorem readToken_bare {a : JsString} (ha : 0x3D ∉ a) (hne : a ≠ []) :
    readToken (js "--" ++ a) = .bare a := by
  have hmem : 0x3D ∉ js "--" ++ a := by
    rw [List.mem_append, not_or]
    exact ⟨by decide, ha⟩
  have hself : js "--" ++ a ≠ js "--" := by simpa using hne
  rw [readToken, if_neg hself, if_pos (by simp), findIdx?_equals hmem]
  rfl

theorem key_unique {f a b t : JsString} (hf : 0x3D ∉ f) (ha : 0x3D ∉ a)
    (h : f ++ 0x3D :: t = a ++ 0x3D :: b) : f = a := by
  have hkey : ∀ {x : JsString} (y : JsString), 0x3D ∉ x →
      (x ++ 0x3D :: y).takeWhile (fun u => decide (u ≠ 0x3D)) = x := by
    intro x y hx
    rw [List.takeWhile_append_of_pos]
    · simp
    · intro u hu
      simpa using fun h : u = 0x3D => hx (h ▸ hu)
  rw [← hkey t hf, h, hkey b ha]

/-- A long name is set by the tokens that spell it. -/
theorem keyOf_eq_iff {f : JsString} (hf : 2 ≤ f.length) (heq : 0x3D ∉ f) (tok : JsString) :
    keyOf (readToken tok) = some f ↔ isFlag f tok = true := by
  by_cases hlong : (js "--").isPrefixOf tok = true
  · obtain ⟨s, rfl⟩ := List.isPrefixOf_iff_prefix.mp hlong
    have hflag : isFlag f (js "--" ++ s) = true ↔ s = f ∨ f ++ [0x3D] <+: s := by
      have hequals : js "=" = [0x3D] := rfl
      simp only [isFlag, Bool.or_eq_true, decide_eq_true_eq, List.append_cancel_left_eq,
        List.isPrefixOf_iff_prefix, List.append_assoc, List.prefix_append_right_inj, hequals]
    rw [hflag]
    by_cases hmem : (0x3D : UInt16) ∈ s
    · obtain ⟨a, b, rfl, ha⟩ := List.eq_append_cons_of_mem hmem
      rw [readToken_valued ha, keyOf, Option.some.injEq]
      constructor
      · rintro rfl
        exact .inr ⟨b, by simp⟩
      · rintro (h | ⟨t, h⟩)
        · exact absurd (h ▸ hmem) heq
        · exact (key_unique heq ha (by simpa using h)).symm
    · have hno : ¬ f ++ [0x3D] <+: s := fun h => hmem (h.subset (by simp))
      rw [or_iff_left hno]
      rcases eq_or_ne s [] with rfl | hne
      · have hnil : ([] : JsString) ≠ f := by
          rintro rfl
          simp at hf
        simp [readToken, keyOf, hnil]
      · rw [readToken_bare hmem hne, keyOf, Option.some.injEq]
  · have hflag : isFlag f tok = false := by
      rw [isFlag, Bool.or_eq_false_iff, decide_eq_false_iff_not, Bool.eq_false_iff]
      refine ⟨fun h => hlong ?_, fun h => hlong ?_⟩
      · rw [h, List.isPrefixOf_iff_prefix]
        exact List.prefix_append _ _
      · rw [List.isPrefixOf_iff_prefix] at h ⊢
        exact ((List.prefix_append _ _).trans (List.prefix_append _ _)).trans h
    have hne : tok ≠ js "--" := by
      rintro rfl
      exact hlong rfl
    -- a short option has a name of one unit
    have hshort : ((tok.take 2).drop 1).length < f.length := by
      simp only [List.length_drop, List.length_take]
      omega
    have hshort' : (tok.take 2).drop 1 ≠ f := fun h => absurd (congrArg List.length h) (by omega)
    rw [hflag, readToken, if_neg hne, if_neg hlong]
    split
    · split
      · simpa [keyOf] using hshort'
      · simpa [keyOf] using hshort'
    · simp [keyOf]

theorem readToken_terminator {tok : JsString} (h : readToken tok = .terminator) : tok = js "--" := by
  unfold readToken at h
  split at h
  · assumption
  · split at h
    · split at h
      · cases h
      · cases h
    · split at h
      · split at h
        · cases h
        · cases h
      · cases h

/-- A dashed token is nobody's value, so the settings before it stand by themselves. -/
theorem settings_append {a : List JsString} (ha : js "--" ∉ a) {tok : JsString} (ht : dashed tok = true)
    (b : List JsString) : settings (a ++ tok :: b) = settings a ++ settings (tok :: b) := by
  induction a using settings.induct with
  | case1 => rfl
  | case2 t rest h => exact absurd (readToken_terminator h ▸ List.mem_cons_self) ha
  | case3 t rest key value h ih =>
    rw [List.cons_append, settings_valued _ h, settings_valued _ h, ih (fun hm => ha (by simp [hm]))]
    rfl
  | case4 t key h =>
    rw [List.cons_append, List.nil_append, settings_bare _ h ht, settings_last h]
    rfl
  | case5 t key h next rest hnext ih =>
    rw [List.cons_append, List.cons_append, settings_bare _ h hnext, settings_bare _ h hnext,
      ← List.cons_append, ih (fun hm => ha (List.mem_cons_of_mem _ hm))]
    rfl
  | case6 t key h next rest hnext ih =>
    rw [List.cons_append, List.cons_append, settings_next _ h hnext, settings_next _ h hnext,
      ih (fun hm => ha (List.mem_cons_of_mem _ (List.mem_cons_of_mem _ hm)))]
    rfl
  | case7 t rest w h ih =>
    rw [List.cons_append, settings_word _ h, settings_word _ h, ih (fun hm => ha (by simp [hm]))]

theorem dashed_of_isFlag {f tok : JsString} (h : isFlag f tok = true) : dashed tok = true := by
  rw [isFlag, Bool.or_eq_true, decide_eq_true_eq, List.isPrefixOf_iff_prefix] at h
  rcases h with rfl | ⟨t, rfl⟩
  · rfl
  · rfl

/-- Each of these tokens is one setting. -/
theorem countP_settings {f : JsString} (hf : 2 ≤ f.length) (heq : 0x3D ∉ f) (argv : List JsString) :
    (settings argv).countP (fun s => decide (s.1 = f)) = (options argv).countP (isFlag f) := by
  have hkey : ∀ {tok key}, keyOf (readToken tok) = some key → decide (key = f) = isFlag f tok := by
    intro tok key h
    have hiff := keyOf_eq_iff hf heq tok
    rw [h, Option.some.injEq] at hiff
    cases hflag : isFlag f tok with
    | true => simpa using hiff.mpr hflag
    | false => simpa [hflag] using hiff
  have hnone : ∀ {tok}, keyOf (readToken tok) = none → isFlag f tok = false := by
    intro tok h
    have hiff := keyOf_eq_iff hf heq tok
    rw [h] at hiff
    simpa using hiff
  have hopt : ∀ {tok} (rest), readToken tok ≠ .terminator → options (tok :: rest) = tok :: options rest := by
    intro tok rest h
    have hne : tok ≠ js "--" := by
      rintro rfl
      exact h rfl
    simp [options, hne]
  induction argv using settings.induct with
  | case1 => rfl
  | case2 t rest h =>
    rw [settings_terminator _ h, readToken_terminator h]
    rfl
  | case3 t rest key value h ih =>
    rw [settings_valued _ h, hopt _ (by simp [h]), List.countP_cons, List.countP_cons, ih,
      hkey (by rw [h]; rfl)]
  | case4 t key h =>
    rw [settings_last h, hopt _ (by simp [h]), List.countP_cons, List.countP_cons, hkey (by rw [h]; rfl)]
    rfl
  | case5 t key h next rest hnext ih =>
    rw [settings_bare _ h hnext, hopt _ (by simp [h]), List.countP_cons, List.countP_cons, ih,
      hkey (by rw [h]; rfl)]
  | case6 t key h next rest hnext ih =>
    have hvalue : isFlag f next = false := by
      rw [Bool.eq_false_iff]
      exact fun hflag => hnext (dashed_of_isFlag hflag)
    have hne : readToken next ≠ .terminator := by
      intro hterm
      rw [readToken_terminator hterm] at hnext
      exact hnext rfl
    rw [settings_next _ h hnext, hopt _ (by simp [h]), hopt _ hne, List.countP_cons, List.countP_cons,
      List.countP_cons, ih, hkey (by rw [h]; rfl), hvalue]
    rfl
  | case7 t rest w h ih =>
    rw [settings_word _ h, hopt _ (by simp [h]), List.countP_cons, ih, hnone (by rw [h]; rfl)]
    rfl

/-! ## What a setting does -/

theorem set_none {o : FlagObject} {key : JsString} (h : o.get key = none) (v : FlagValue) :
    o.set key v = o.assign key v := by
  rw [FlagObject.set, h]

/-- A second value makes an array. -/
theorem set_some {o : FlagObject} {key : JsString} {m : Member} (h : o.get key = some m)
    (v : FlagValue) : ∃ xs, o.set key v = o.assign key (.arr xs) := by
  rw [FlagObject.set, h]
  split
  · next hnone => cases hnone
  · exact ⟨_, rfl⟩
  · exact ⟨_, rfl⟩

theorem set_assigns (o : FlagObject) (key : JsString) (v : FlagValue) :
    ∃ w, o.set key v = o.assign key w := by
  cases h : o.get key with
  | none => exact ⟨v, set_none h v⟩
  | some m =>
    obtain ⟨xs, hxs⟩ := set_some h v
    exact ⟨.arr xs, hxs⟩

theorem assign_of_ne {key : JsString} (h : key ≠ js "__proto__") (o : FlagObject) (v : FlagValue) :
    o.assign key v = { o with own := Function.update o.own key (some v) } := by
  unfold FlagObject.assign
  exact if_neg h

theorem own_assign_proto (o : FlagObject) (v : FlagValue) : (o.assign (js "__proto__") v).own = o.own := by
  cases v with
  | bool b => rfl
  | str s => rfl
  | arr xs => rfl

theorem own_assign_self {key : JsString} (h : key ≠ js "__proto__") (o : FlagObject) (v : FlagValue) :
    (o.assign key v).own key = some v := by
  simp [assign_of_ne h]

theorem own_set_of_ne {f key : JsString} (h : f ≠ key) (o : FlagObject) (v : FlagValue) :
    (o.set key v).own f = o.own f := by
  obtain ⟨w, hw⟩ := set_assigns o key v
  rw [hw]
  rcases eq_or_ne key (js "__proto__") with rfl | hkey
  · rw [own_assign_proto]
  · rw [assign_of_ne hkey]
    exact Function.update_of_ne h _ _

theorem own_set_proto (o : FlagObject) (key : JsString) (v : FlagValue) :
    (o.set key v).own (js "__proto__") = o.own (js "__proto__") := by
  rcases eq_or_ne (js "__proto__") key with rfl | h
  · obtain ⟨w, hw⟩ := set_assigns o (js "__proto__") v
    rw [hw, own_assign_proto]
  · exact own_set_of_ne h o v

theorem proto_set_of_ne {key : JsString} (h : key ≠ js "__proto__") (o : FlagObject) (v : FlagValue) :
    (o.set key v).proto = o.proto := by
  obtain ⟨w, hw⟩ := set_assigns o key v
  rw [hw, assign_of_ne h]

/-- The first `__proto__` flag makes an array of two, each further one adds an element. -/
theorem proto_set {o : FlagObject} (h : o.own (js "__proto__") = none) (v : FlagValue) :
    ∃ xs, (o.set (js "__proto__") v).proto = some xs ∧
      xs.length = (match o.proto with | some ys => ys.length | none => 1) + 1 := by
  cases hproto : o.proto with
  | none =>
    have hget : o.get (js "__proto__") = some (.other (js "[object Object]")) := by
      rw [FlagObject.get, h, hproto]
      rfl
    refine ⟨[js "[object Object]", v.text], ?_, rfl⟩
    rw [FlagObject.set, hget]
    rfl
  | some ys =>
    have hget : o.get (js "__proto__") = some (.flag (.arr ys)) := by
      rw [FlagObject.get, h, hproto]
      rfl
    refine ⟨ys ++ [v.text], ?_, by simp⟩
    rw [FlagObject.set, hget]
    rfl

/-! ## Many settings -/

theorem own_applyAll_of_not_mem {f : JsString} {sets : List (JsString × FlagValue)}
    (h : ∀ s ∈ sets, s.1 ≠ f) (o : FlagObject) : (applyAll o sets).own f = o.own f := by
  induction sets generalizing o with
  | nil => rfl
  | cons s sets ih =>
    rw [applyAll_cons, ih fun s' hs' => h s' (by simp [hs'])]
    exact own_set_of_ne (h s (by simp)).symm o s.2

theorem own_applyAll_proto (sets : List (JsString × FlagValue)) (o : FlagObject) :
    (applyAll o sets).own (js "__proto__") = o.own (js "__proto__") := by
  induction sets generalizing o with
  | nil => rfl
  | cons s sets ih => rw [applyAll_cons, ih, own_set_proto]

theorem proto_applyAll_some {o : FlagObject} (h : o.own (js "__proto__") = none) {xs : List JsString}
    (hxs : o.proto = some xs) (sets : List (JsString × FlagValue)) :
    ∃ ys, (applyAll o sets).proto = some ys ∧
      ys.length = xs.length + sets.countP fun s => decide (s.1 = js "__proto__") := by
  induction sets generalizing o xs with
  | nil => exact ⟨xs, hxs, rfl⟩
  | cons s sets ih =>
    obtain ⟨key, v⟩ := s
    have hown : (o.set key v).own (js "__proto__") = none := (own_set_proto o key v).trans h
    rw [applyAll_cons, List.countP_cons]
    rcases eq_or_ne key (js "__proto__") with rfl | hkey
    · obtain ⟨ys, hys, hlen⟩ := proto_set h v
      simp only [hxs] at hlen
      obtain ⟨zs, hzs, hlen'⟩ := ih hown hys
      refine ⟨zs, hzs, ?_⟩
      simp only [decide_true, if_true]
      omega
    · obtain ⟨zs, hzs, hlen⟩ := ih hown ((proto_set_of_ne hkey o v).trans hxs)
      refine ⟨zs, hzs, ?_⟩
      simpa [hkey] using hlen

/-- The prototype is an array of one element more than there were such flags, once there was one. -/
theorem proto_applyAll {o : FlagObject} (h : o.own (js "__proto__") = none) (hnone : o.proto = none)
    (sets : List (JsString × FlagValue)) :
    let n := sets.countP fun s => decide (s.1 = js "__proto__")
    (n = 0 ∧ (applyAll o sets).proto = none) ∨
      (0 < n ∧ ∃ xs, (applyAll o sets).proto = some xs ∧ xs.length = n + 1) := by
  induction sets generalizing o with
  | nil => exact .inl ⟨rfl, hnone⟩
  | cons s sets ih =>
    obtain ⟨key, v⟩ := s
    have hown : (o.set key v).own (js "__proto__") = none := (own_set_proto o key v).trans h
    rw [applyAll_cons, List.countP_cons]
    rcases eq_or_ne key (js "__proto__") with rfl | hkey
    · obtain ⟨ys, hys, hlen⟩ := proto_set h v
      simp only [hnone] at hlen
      obtain ⟨zs, hzs, hlen'⟩ := proto_applyAll_some hown hys sets
      refine .inr ⟨by simp, zs, hzs, ?_⟩
      simp only [decide_true, if_true]
      omega
    · simpa [hkey] using ih hown ((proto_set_of_ne hkey o v).trans hnone)

def HasArray (f : JsString) (o : FlagObject) : Prop := ∃ xs, o.own f = some (.arr xs)

theorem hasArray_set {f : JsString} (hf : f ≠ js "__proto__") {o : FlagObject} {m : Member}
    (h : o.get f = some m) (v : FlagValue) : HasArray f (o.set f v) := by
  obtain ⟨xs, hxs⟩ := set_some h v
  exact ⟨xs, hxs ▸ own_assign_self hf o _⟩

theorem get_of_own {f : JsString} {o : FlagObject} {v : FlagValue} (h : o.own f = some v) :
    o.get f = some (.flag v) := by
  rw [FlagObject.get, h]

/-- What is an array stays one. -/
theorem hasArray_applyAll {f : JsString} (hf : f ≠ js "__proto__") {o : FlagObject} (h : HasArray f o)
    (sets : List (JsString × FlagValue)) : HasArray f (applyAll o sets) := by
  induction sets generalizing o with
  | nil => exact h
  | cons s sets ih =>
    refine ih ?_
    obtain ⟨xs, hxs⟩ := h
    rcases eq_or_ne f s.1 with rfl | hne
    · exact hasArray_set hf (get_of_own hxs) s.2
    · exact ⟨xs, (own_set_of_ne hne o s.2).trans hxs⟩

/-- A flag that has a value and is set again becomes an array. -/
theorem hasArray_of_mem {f : JsString} (hf : f ≠ js "__proto__") {sets : List (JsString × FlagValue)}
    (h : ∃ s ∈ sets, s.1 = f) {o : FlagObject} {v : FlagValue} (ho : o.own f = some v) :
    HasArray f (applyAll o sets) := by
  induction sets generalizing o with
  | nil =>
    obtain ⟨s, hs, _⟩ := h
    cases hs
  | cons s sets ih =>
    rw [applyAll_cons]
    rcases eq_or_ne f s.1 with rfl | hne
    · exact hasArray_applyAll hf (hasArray_set hf (get_of_own ho) s.2) sets
    · refine ih ?_ ((own_set_of_ne hne o s.2).trans ho)
      obtain ⟨s', hs', hf'⟩ := h
      rcases List.mem_cons.mp hs' with rfl | htail
      · exact absurd hf'.symm hne
      · exact ⟨s', htail, hf'⟩

/-! ## Inherited members -/

def objectMembers : List JsString := js "__proto__" :: js "constructor" :: objectMethods

/-- The members of an array of `n` elements. -/
def arrayMembers (n : Nat) : List JsString :=
  js "length" :: js "constructor" :: arrayMethods ++ (List.range n).map fun i => js (toString i)

/-- `flags` has a member of that name after these tokens, though none of them sets it. -/
def Inherited (f : JsString) (before : List JsString) : Prop :=
  let n := before.countP (isFlag (js "__proto__"))
  f ∈ objectMembers ∨ (0 < n ∧ f ∈ arrayMembers (n + 1))

instance (f : JsString) (before : List JsString) : Decidable (Inherited f before) :=
  inferInstanceAs (Decidable (_ ∨ _))

theorem inObject_eq_none (key : JsString) : inObject key = none ↔ key ∉ objectMembers := by
  unfold inObject objectMembers
  simp only [List.mem_cons, List.contains_iff_mem]
  split
  · simp [*]
  · split
    · simp [*]
    · split
      · simp [*]
      · simp [*]

theorem element_eq_none (xs : List JsString) (key : JsString) :
    element xs key = none ↔ key ∉ (List.range xs.length).map fun i => js (toString i) := by
  have hmem : (key ∉ (List.range xs.length).map fun i => js (toString i)) ↔
      ∀ i ∈ List.range xs.length, js (toString i) ≠ key := by
    simp only [List.mem_map, not_exists, not_and, ne_eq]
  rw [hmem, element]
  cases hfind : (List.range xs.length).find? fun i => decide (js (toString i) = key) with
  | none =>
    have hall := List.find?_eq_none.mp hfind
    simpa using hall
  | some i =>
    have hi : i ∈ List.range xs.length := List.mem_of_find?_eq_some hfind
    have hkey : js (toString i) = key := by simpa using List.find?_some hfind
    have hlt : i < xs.length := List.mem_range.mp hi
    rw [Option.bind_some, List.getElem?_eq_getElem hlt]
    constructor
    · intro h
      cases h
    · exact fun h => absurd hkey (h i hi)

theorem inArray_eq_none (xs : List JsString) (key : JsString) :
    inArray xs key = none ↔ key ∉ objectMembers ∧ key ∉ arrayMembers xs.length := by
  have hobject := inObject_eq_none key
  have harray : key ∉ arrayMembers xs.length ↔ key ≠ js "length" ∧ key ≠ js "constructor" ∧
      key ∉ arrayMethods ∧ element xs key = none := by
    rw [element_eq_none]
    simp only [arrayMembers, List.cons_append, List.mem_cons, List.mem_append, not_or, ne_eq]
  have hproto : key = js "__proto__" → key ∈ objectMembers := by
    rintro rfl
    exact List.mem_cons_self
  rw [harray, ← hobject]
  unfold inArray
  simp only [List.contains_iff_mem]
  split
  · next h =>
    have : inObject key ≠ none := fun hn => hobject.mp hn (hproto h)
    simp [this]
  · split
    · simp [*]
    · cases element xs key with
      | some x => simp
      | none =>
        simp only
        split
        · simp [*]
        · split
          · simp [*]
          · simp [*]

theorem proto_length : 2 ≤ (js "__proto__").length := by decide

theorem equals_not_mem_proto : 0x3D ∉ js "__proto__" := by decide

theorem get_eq_none_iff {f : JsString} {before : List JsString} (hb : js "--" ∉ before)
    (hf : ∀ s ∈ settings before, s.1 ≠ f) :
    (applyAll FlagObject.empty (settings before)).get f = none ↔ ¬ Inherited f before := by
  have hcount := countP_settings proto_length equals_not_mem_proto before
  rw [options_of_not_mem hb] at hcount
  have hown : (applyAll FlagObject.empty (settings before)).own f = none :=
    own_applyAll_of_not_mem hf FlagObject.empty
  unfold Inherited
  rw [FlagObject.get, hown, ← hcount]
  rcases proto_applyAll (o := FlagObject.empty) rfl rfl (settings before) with
    ⟨hzero, hproto⟩ | ⟨hpos, xs, hproto, hlen⟩
  · simp [hproto, hzero, inObject_eq_none]
  · simp [hproto, hpos, inArray_eq_none, hlen]

/-! ## Presence flags -/

/-- `--f` occurs, and no occurrence has a value: no `--f=value`, and what
follows one is no word. -/
structure Bare (f : JsString) (argv : List JsString) : Prop where
  occurs : js "--" ++ f ∈ options argv
  no_inline : ∀ tok ∈ options argv, (js "--" ++ f ++ js "=").isPrefixOf tok = false
  no_next : ∀ i < (options argv).length, argv[i]? = some (js "--" ++ f) →
    ∀ next ∈ argv[i + 1]?, dashed next = true

section
variable {f : JsString} {argv : List JsString}

theorem Bare.settings_eq (h : Bare f argv) (hf : 2 ≤ f.length) (heq : 0x3D ∉ f) :
    ∃ before rest, options argv = before ++ (js "--" ++ f) :: options rest ∧ js "--" ∉ before ∧
      js "--" ++ f ∉ before ∧ settings argv = settings before ++ (f, .bool true) :: settings rest := by
  have hne : f ≠ [] := by
    rintro rfl
    simp at hf
  have hread := readToken_bare heq hne
  have hflag : js "--" ++ f ≠ js "--" := by simpa using hne
  obtain ⟨before, after, hopts, hfirst⟩ := List.eq_append_cons_of_mem h.occurs
  have hargv : argv = before ++ (js "--" ++ f) :: (after ++ argv.dropWhile fun tok => decide (tok ≠ js "--")) := by
    rw [← List.cons_append, ← List.append_assoc, ← hopts]
    exact List.takeWhile_append_dropWhile.symm
  generalize after ++ argv.dropWhile (fun tok => decide (tok ≠ js "--")) = rest at hargv
  have hbefore : js "--" ∉ before := by
    intro hmem
    have hin : js "--" ∈ options argv := hopts ▸ List.mem_append_left _ hmem
    simpa using List.mem_takeWhile_imp hin
  refine ⟨before, rest, ?_, hbefore, hfirst, ?_⟩
  · rw [hargv, options, List.takeWhile_append_of_pos, List.takeWhile_cons_of_pos (by simpa using hflag)]
    · rfl
    · intro tok htok
      simpa using fun he : tok = js "--" => hbefore (he ▸ htok)
  · have hlast : settings ((js "--" ++ f) :: rest) = (f, .bool true) :: settings rest := by
      cases rest with
      | nil => exact settings_last hread
      | cons next rest =>
        refine settings_bare rest hread (h.no_next before.length ?_ ?_ next ?_)
        · rw [hopts]
          simp
        · rw [hargv]
          simp
        · rw [hargv]
          simp
    rw [hargv, settings_append hbefore rfl, hlast]

theorem countP_isFlag {l : List JsString}
    (h : ∀ tok ∈ l, (js "--" ++ f ++ js "=").isPrefixOf tok = false) :
    l.countP (isFlag f) = l.count (js "--" ++ f) := by
  refine List.countP_congr fun tok htok => ?_
  rw [isFlag, h tok htok, Bool.or_false, decide_eq_true_eq, beq_iff_eq]

theorem flagBool_of_own {args : ParsedArgs} {b : Bool} (h : args.flags.own f = some (.bool b)) :
    flagBool args [f] = b := by
  rw [flagBool, get_of_own h]

/-- `flagBool` passes an array over. -/
theorem flagBool_of_hasArray {args : ParsedArgs} (h : HasArray f args.flags) :
    flagBool args [f] = false := by
  obtain ⟨xs, hxs⟩ := h
  rw [flagBool, get_of_own hxs]
  rfl

theorem flagBool_proto (h : ∃ s ∈ settings argv, s.1 = js "__proto__") :
    flagBool (parseArgs argv) [js "__proto__"] = false := by
  have hflags : (parseArgs argv).flags = applyAll FlagObject.empty (settings argv) :=
    flags_parseFrom _ argv
  have hown : (parseArgs argv).flags.own (js "__proto__") = none := by
    rw [hflags, own_applyAll_proto]
    rfl
  rcases proto_applyAll (o := FlagObject.empty) rfl rfl (settings argv) with
    ⟨hzero, _⟩ | ⟨_, xs, hproto, _⟩
  · obtain ⟨s, hs, hkey⟩ := h
    have := List.countP_eq_zero.mp hzero s hs
    simp [hkey] at this
  · rw [flagBool, FlagObject.get, hown, hflags, hproto]
    rfl

/-- The flag is read as given when it occurs once and no member of that name
was there before. -/
theorem flagBool_iff (hf : 2 ≤ f.length) (heq : 0x3D ∉ f) (h : Bare f argv) :
    flagBool (parseArgs argv) [f] = true ↔ (options argv).count (js "--" ++ f) = 1 ∧
      ¬ Inherited f ((options argv).takeWhile fun tok => decide (tok ≠ js "--" ++ f)) := by
  obtain ⟨before, rest, hopts, hbefore, hfirst, hsets⟩ := h.settings_eq hf heq
  have hflags : (parseArgs argv).flags = applyAll ((applyAll FlagObject.empty (settings before)).set
      f (.bool true)) (settings rest) := by
    rw [parseArgs, flags_parseFrom, hsets, applyAll, List.foldl_append]
    rfl
  have hwhile : (options argv).takeWhile (fun tok => decide (tok ≠ js "--" ++ f)) = before := by
    rw [hopts, List.takeWhile_append_of_pos, List.takeWhile_cons_of_neg (by simp), List.append_nil]
    intro tok htok
    simpa using fun he : tok = js "--" ++ f => hfirst (he ▸ htok)
  have hinline : ∀ tok ∈ before ++ options rest, (js "--" ++ f ++ js "=").isPrefixOf tok = false := by
    intro tok htok
    refine h.no_inline tok (hopts ▸ ?_)
    rcases List.mem_append.mp htok with hin | hin
    · exact List.mem_append_left _ hin
    · exact List.mem_append_right _ (List.mem_cons_of_mem _ hin)
  have hnone : ∀ s ∈ settings before, s.1 ≠ f := by
    have hzero := countP_settings hf heq before
    rw [options_of_not_mem hbefore, countP_isFlag fun tok htok => hinline tok (by simp [htok]),
      List.count_eq_zero_of_not_mem hfirst] at hzero
    intro s hs
    simpa using List.countP_eq_zero.mp hzero s hs
  have hcount : (options argv).count (js "--" ++ f) = 1 ↔ ∀ s ∈ settings rest, s.1 ≠ f := by
    have hrest := countP_settings hf heq rest
    rw [countP_isFlag fun tok htok => hinline tok (by simp [htok])] at hrest
    rw [hopts, List.count_append, List.count_eq_zero_of_not_mem hfirst, List.count_cons_self, ← hrest,
      Nat.zero_add, Nat.add_eq_right, List.countP_eq_zero]
    simp
  rw [hwhile, hcount]
  rcases eq_or_ne f (js "__proto__") with rfl | hproto
  · -- `__proto__` is a member of every object
    have hin : Inherited (js "__proto__") before := .inl List.mem_cons_self
    have hmem : ∃ s ∈ settings argv, s.1 = js "__proto__" := by
      rw [hsets]
      exact ⟨_, List.mem_append_right _ List.mem_cons_self, rfl⟩
    simp [flagBool_proto hmem, hin]
  have hget := get_eq_none_iff hbefore hnone
  by_cases hmore : ∀ s ∈ settings rest, s.1 ≠ f
  · cases hmember : (applyAll FlagObject.empty (settings before)).get f with
    | none =>
      have hown : (parseArgs argv).flags.own f = some (.bool true) := by
        rw [hflags, own_applyAll_of_not_mem hmore, set_none hmember, own_assign_self hproto]
      rw [flagBool_of_own hown]
      exact ⟨fun _ => ⟨hmore, hget.mp hmember⟩, fun _ => rfl⟩
    | some m =>
      have harray : HasArray f (parseArgs argv).flags := by
        rw [hflags]
        exact hasArray_applyAll hproto (hasArray_set hproto hmember _) _
      have hin : Inherited f before := by
        by_contra hno
        rw [hget.mpr hno] at hmember
        cases hmember
      rw [flagBool_of_hasArray harray]
      exact ⟨fun hfalse => absurd hfalse Bool.false_ne_true, fun hboth => absurd hin hboth.2⟩
  · -- set again
    have hagain : ∃ s ∈ settings rest, s.1 = f := by simpa using hmore
    obtain ⟨v, hv⟩ : ∃ v, ((applyAll FlagObject.empty (settings before)).set f (.bool true)).own f = some v := by
      obtain ⟨w, hw⟩ := set_assigns (applyAll FlagObject.empty (settings before)) f (.bool true)
      exact ⟨w, hw ▸ own_assign_self hproto _ _⟩
    have harray : HasArray f (parseArgs argv).flags := by
      rw [hflags]
      exact hasArray_of_mem hproto hagain hv
    rw [flagBool_of_hasArray harray]
    exact ⟨fun hfalse => absurd hfalse Bool.false_ne_true, fun hboth => absurd hboth.1 hmore⟩

end

/-! ## The flags of `inject` -/

/-- What `injectCmd` reads. -/
def injectFlags (args : ParsedArgs) : InjectFlags :=
  { help := flagBool args [js "h", js "help"]
    pid := flagInt args [js "pid"]
    text := flagString args [js "text"]
    source := flagString args [js "source"]
    force := flagBool args [js "force"]
    dryRun := flagBool args [js "dry-run", js "n"]
    json := flagBool args [js "json"] }

def injectOnce : List JsString := [js "inject", js "--pid", js "7", js "--text", js "y", js "--dry-run"]

def injectTwice : List JsString := injectOnce ++ [js "--dry-run"]

theorem bare_once : Bare (js "dry-run") injectOnce where
  occurs := by decide
  no_inline := by decide
  no_next := by decide

theorem bare_twice : Bare (js "dry-run") injectTwice where
  occurs := by decide
  no_inline := by decide
  no_next := by decide

theorem once_read : flagBool (parseArgs injectOnce) [js "dry-run"] = true :=
  (flagBool_iff (by decide) (by decide) bare_once).mpr (by decide)

/-- A dry run that is asked for twice is none, and help neither. -/
theorem twice_lost : Bare (js "dry-run") injectTwice ∧
    flagBool (parseArgs injectTwice) [js "dry-run"] = false ∧
    (injectFlags (parseArgs injectTwice)).dryRun = false ∧
    flagBool (parseArgs [js "--help", js "--help"]) [js "help"] = false :=
  ⟨bare_twice, by decide, by decide, by decide⟩

end Conductor.Cli.RepeatedFlags
