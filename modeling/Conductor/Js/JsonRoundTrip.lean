import Conductor.Js.JsonAccepts
import Conductor.Js.JsonCut

/-! # JSON texts in files

A value that is written with indentation and read back from its bytes is the
value it stood for, and what the parser returns can always be written. -/
namespace Conductor.Js.JsonRoundTrip
open Conductor.Js.Text Conductor.Js.Number Conductor.Js.Values Conductor.Js.JsonText
open Conductor.Js.Utf8 Conductor.Js.Utf8Cut Conductor.Js.JsonCut Conductor.Js.Doubles
open Conductor.Js.Numerals Conductor.Js.JsonAccepts

/-! ## Indentation -/

theorem space_newline (depth : Nat) : Space (newline depth) := by
  intro u hu
  rcases List.mem_cons.mp hu with rfl | hu
  · rfl
  · rw [List.eq_of_mem_replicate hu]
    rfl

/-- The printed elements without the brackets around them. -/
def row (depth : Nat) : List JsString → JsString
  | [] => []
  | s :: ss => s ++ ss.flatMap fun t => js "," ++ newline depth ++ t

theorem row_cons (depth : Nat) (s t : JsString) (ss : List JsString) :
    row depth (s :: t :: ss) = s ++ js "," ++ newline depth ++ row depth (t :: ss) := by
  simp [row]

theorem block_cons (opening closing : JsString) (depth : Nat) (s : JsString) (ss : List JsString) :
    block opening closing depth (s :: ss) =
      opening ++ newline (depth + 1) ++ (row (depth + 1) (s :: ss) ++ newline depth ++ closing) := by
  simp [block, row]

mutual

theorem writes_indented : ∀ (v : Json) (depth : Nat), Doubles v →
    Writes (.value v) (stringifyIndented depth v)
  | .null, _, _ => .null
  | .bool b, _, _ => .bool b
  | .num _, _, hv => .num hv
  | .str s, _, _ => .str s
  | .arr [], _, _ => .emptyArray
  | .arr (x :: xs), depth, hv => by
    rw [stringifyIndented, stringifyIndentedAll, block_cons, ← stringifyIndentedAll]
    exact .array (space_newline _) (writes_indentedAll (x :: xs) depth (by simp) hv)
  | .obj [], _, _ => .emptyObject
  | .obj ((key, v) :: ms), depth, hv => by
    rw [stringifyIndented, stringifyIndentedMembers, block_cons, ← stringifyIndentedMembers]
    exact .object (space_newline _) (writes_indentedMembers ((key, v) :: ms) depth (by simp) hv)

theorem writes_indentedAll : ∀ (xs : List Json) (depth : Nat), xs ≠ [] → DoublesAll xs →
    Writes (.elements xs)
      (row (depth + 1) (stringifyIndentedAll (depth + 1) xs) ++ newline depth ++ js "]")
  | [], _, hne, _ => absurd rfl hne
  | [x], depth, _, hv => by
    have h := Writes.lastElement (writes_indented x (depth + 1) hv.1) (space_newline depth)
    simpa [stringifyIndentedAll, row] using h
  | x :: y :: ys, depth, _, hv => by
    have hr := writes_indentedAll (y :: ys) depth (by simp) hv.2
    have h := Writes.element (writes_indented x (depth + 1) hv.1) (space_newline (depth + 1)) hr
    simp only [stringifyIndentedAll, row_cons, List.append_assoc] at h ⊢
    exact h

theorem writes_indentedMembers : ∀ (ms : List (JsString × Json)) (depth : Nat), ms ≠ [] →
    DoublesMembers ms → Writes (.members ms)
      (row (depth + 1) (stringifyIndentedMembers (depth + 1) ms) ++ newline depth ++ js "\x7d")
  | [], _, hne, _ => absurd rfl hne
  | [(key, v)], depth, _, hv => by
    have hspace : Space [0x20] := by simp [Space, isJsonSpace]
    have h := Writes.lastMember key hspace (writes_indented v (depth + 1) hv.1) (space_newline depth)
    have hcolon : js ": " = js ":" ++ [0x20] := rfl
    simpa [stringifyIndentedMembers, row, hcolon] using h
  | (key, v) :: (key', v') :: ms, depth, _, hv => by
    have hspace : Space [0x20] := by simp [Space, isJsonSpace]
    have hr := writes_indentedMembers ((key', v') :: ms) depth (by simp) hv.2
    have h := Writes.member key hspace (writes_indented v (depth + 1) hv.1)
      (space_newline (depth + 1)) hr
    have hcolon : js ": " = js ":" ++ [0x20] := rfl
    simp only [stringifyIndentedMembers, row_cons, hcolon, List.append_assoc] at h ⊢
    exact h

end

/-! ## Bytes -/

theorem isText_space {w : JsString} (hw : Space w) : IsText w := by
  refine isText_ascii fun u hu => ?_
  rcases eq_of_isJsonSpace (hw u hu) with rfl | rfl | rfl | rfl
  · decide
  · decide
  · decide
  · decide

theorem isText_of_writes {p : Part} {s : JsString} (h : Writes p s) : IsText s := by
  have hcode : IsText (js ",") ∧ IsText (js ":") ∧ IsText (js "[") ∧ IsText (js "]") ∧
      IsText (js "\x7b") ∧ IsText (js "\x7d") :=
    ⟨isText_of_all (by decide), isText_of_all (by decide), isText_of_all (by decide),
      isText_of_all (by decide), isText_of_all (by decide), isText_of_all (by decide)⟩
  obtain ⟨hcomma, hcolon, hopen, hclose, hopen', hclose'⟩ := hcode
  induction h with
  | null => exact isText_of_all (by decide)
  | bool b => cases b with
    | true => exact isText_of_all (by decide)
    | false => exact isText_of_all (by decide)
  | num _ => exact isText_numberText _
  | str s => exact isText_quote s
  | emptyArray => exact isText_of_all (by decide)
  | array hw _ ih => exact (hopen.append (isText_space hw)).append ih
  | emptyObject => exact isText_of_all (by decide)
  | object hw _ ih => exact (hopen'.append (isText_space hw)).append ih
  | lastElement _ hw ih => exact (ih.append (isText_space hw)).append hclose
  | element _ hw _ ih ihr => exact ((ih.append hcomma).append (isText_space hw)).append ihr
  | lastMember key hw _ hw' ih =>
    have hkey := ((isText_quote key).append hcolon).append (isText_space hw)
    exact ((hkey.append ih).append (isText_space hw')).append hclose'
  | member key hw _ hw' _ ih ihr =>
    have hkey := ((isText_quote key).append hcolon).append (isText_space hw)
    exact (((hkey.append ih).append hcomma).append (isText_space hw')).append ihr

/-- A value that was written to a file and read from it. -/
theorem parse_decode_encode {v : Json} {s : JsString} (h : Writes (.value v) s) :
    parse (decode (encode s)) = some (readBack v) := by
  rw [(isText_of_writes h).decode_encode, parse_of_writes h]

/-! ## What the parser returns -/

/-- A property of values that holds of whatever the parser builds. -/
structure Built (P : Json → Prop) : Prop where
  null : P .null
  bool : ∀ b, P (.bool b)
  number : ∀ q, P (.num (nearestDouble q))
  string : ∀ s, P (.str s)
  array : ∀ {xs}, (∀ x ∈ xs, P x) → P (.arr xs)
  object : ∀ {ms : List (JsString × Json)}, (∀ m ∈ ms, P m.2) → P (mkObject ms)

section

variable {P : Json → Prop} {fuel : Nat} (value : ∀ s v out, parseValue fuel s = some (v, out) → P v)
include value

theorem built_elements_succ
    (elements : ∀ s xs out, parseElements fuel s = some (xs, out) → ∀ x ∈ xs, P x)
    {s out : JsString} {xs : List Json} (h : parseElements (fuel + 1) s = some (xs, out)) :
    ∀ x ∈ xs, P x := by
  obtain ⟨x, s₁, hx, h⟩ := parseElements_cases h
  rcases h with ⟨s₂, ys, _, hy, rfl⟩ | ⟨_, rfl⟩
  · exact List.forall_mem_cons.mpr ⟨value s x s₁ hx, elements s₂ ys out hy⟩
  · exact List.forall_mem_singleton.mpr (value s x s₁ hx)

theorem built_members_succ
    (members : ∀ s ms out, parseMembers fuel s = some (ms, out) → ∀ m ∈ ms, P m.2)
    {s out : JsString} {ms : List (JsString × Json)}
    (h : parseMembers (fuel + 1) s = some (ms, out)) : ∀ m ∈ ms, P m.2 := by
  obtain ⟨rest, key, s₁, s₂, v, s₃, _, _, _, hv, h⟩ := parseMembers_cases h
  rcases h with ⟨s₄, ms', _, hm, rfl⟩ | ⟨_, rfl⟩
  · exact List.forall_mem_cons.mpr ⟨value s₂ v s₃ hv, members s₄ ms' out hm⟩
  · exact List.forall_mem_singleton.mpr (value s₂ v s₃ hv)

end

theorem exists_nearestDouble {s out : JsString} {n : JsNumber} (h : parseNumber s = some (n, out)) :
    ∃ q, n = nearestDouble q := by
  unfold parseNumber at h
  obtain ⟨⟨w, s₁⟩, _, h⟩ := Option.bind_eq_some_iff.mp h
  obtain ⟨⟨ds, s₂⟩, _, h⟩ := Option.bind_eq_some_iff.mp h
  obtain ⟨⟨e, s₃⟩, _, h⟩ := Option.bind_eq_some_iff.mp h
  cases h
  exact ⟨_, rfl⟩

theorem built_value_succ {P : Json → Prop} (hP : Built P) {fuel : Nat}
    (elements : ∀ s xs out, parseElements fuel s = some (xs, out) → ∀ x ∈ xs, P x)
    (members : ∀ s ms out, parseMembers fuel s = some (ms, out) → ∀ m ∈ ms, P m.2)
    {s out : JsString} {v : Json} (h : parseValue (fuel + 1) s = some (v, out)) : P v := by
  cases readsValue_of_parseValue h with
  | emptyObject _ _ =>
    have hempty : P (mkObject []) := hP.object (by simp)
    exact hempty
  | object _ hm => exact hP.object (members _ _ out hm)
  | emptyArray _ _ => exact hP.array (by simp)
  | array _ hx => exact hP.array (elements _ _ out hx)
  | string _ _ => exact hP.string _
  | null _ => exact hP.null
  | bool _ => exact hP.bool _
  | number hn =>
    obtain ⟨q, rfl⟩ := exists_nearestDouble hn
    exact hP.number q

theorem built_parseValue {P : Json → Prop} (hP : Built P) (fuel : Nat) :
    (∀ s v out, parseValue fuel s = some (v, out) → P v) ∧
    (∀ s xs out, parseElements fuel s = some (xs, out) → ∀ x ∈ xs, P x) ∧
    (∀ s ms out, parseMembers fuel s = some (ms, out) → ∀ m ∈ ms, P m.2) := by
  induction fuel with
  | zero =>
    refine ⟨fun _ _ _ h => ?_, fun _ _ _ h => ?_, fun _ _ _ h => ?_⟩
    · cases h
    · cases h
    · cases h
  | succ fuel ih =>
    obtain ⟨value, elements, members⟩ := ih
    exact ⟨fun _ _ _ h => built_value_succ hP elements members h,
      fun _ _ _ h => built_elements_succ value elements h,
      fun _ _ _ h => built_members_succ value members h⟩

theorem built_parse {P : Json → Prop} (hP : Built P) {text : JsString} {v : Json}
    (h : parse text = some v) : P v := by
  obtain ⟨out, hp, _⟩ := parse_cases h
  exact (built_parseValue hP _).1 text v out hp

/-! ## Objects with each key once -/

def keys (ms : List (JsString × Json)) : List JsString := ms.map Prod.fst

theorem any_key {ms : List (JsString × Json)} {key : JsString} :
    ms.any (·.1 == key) = true ↔ key ∈ keys ms := by
  simp [keys]

theorem setMember_of_notMem {ms : List (JsString × Json)} {key : JsString} (h : key ∉ keys ms)
    (v : Json) : setMember ms key v = ms ++ [(key, v)] := by
  rw [setMember, if_neg (by rwa [any_key])]

theorem setMember_of_mem {ms : List (JsString × Json)} {key : JsString} (h : key ∈ keys ms)
    (v : Json) : setMember ms key v = ms.map fun m => if m.1 == key then (key, v) else m := by
  rw [setMember, if_pos (by rwa [any_key])]

theorem keys_replace (ms : List (JsString × Json)) (key : JsString) (v : Json) :
    keys (ms.map fun m => if m.1 == key then (key, v) else m) = keys ms := by
  rw [keys, List.map_map]
  refine List.map_congr_left fun m _ => ?_
  by_cases hm : m.1 = key
  · simp [hm]
  · simp [hm]

@[simp] theorem mem_keys_setMember {ms : List (JsString × Json)} {key k : JsString} {v : Json} :
    k ∈ keys (setMember ms key v) ↔ k = key ∨ k ∈ keys ms := by
  by_cases hk : key ∈ keys ms
  · rw [setMember_of_mem hk, keys_replace]
    exact ⟨.inr, fun h => h.elim (fun he => he ▸ hk) id⟩
  · rw [setMember_of_notMem hk, keys, List.map_append, List.mem_append, or_comm]
    simp [keys]

/-- Setting a member once more changes nothing. -/
theorem setMember_setMember (ms : List (JsString × Json)) (key : JsString) (v : Json) :
    setMember (setMember ms key v) key v = setMember ms key v := by
  rw [setMember_of_mem (mem_keys_setMember.mpr (.inl rfl))]
  refine (List.map_congr_left fun m hm => ?_).trans (List.map_id _)
  by_cases hkey : m.1 = key
  · have hmem : m = (key, v) := by
      by_cases hk : key ∈ keys ms
      · rw [setMember_of_mem hk] at hm
        obtain ⟨m', _, rfl⟩ := List.mem_map.mp hm
        split at hkey
        · rename_i h
          rw [if_pos h]
        · rename_i h
          exact absurd (beq_iff_eq.mpr hkey) h
      · rw [setMember_of_notMem hk] at hm
        rcases List.mem_append.mp hm with hm | hm
        · exact absurd (List.mem_map.mpr ⟨m, hm, hkey⟩) hk
        · exact List.mem_singleton.mp hm
    simp [hmem]
  · simp [hkey]

theorem lookup_setMember_of_ne {key k : JsString} (h : k ≠ key) (ms : List (JsString × Json))
    (v : Json) : (setMember ms key v).lookup k = ms.lookup k := by
  have hb : (k == key) = false := beq_eq_false_iff_ne.mpr h
  have hreplace : ∀ ms : List (JsString × Json),
      (ms.map fun m => if m.1 == key then (key, v) else m).lookup k = ms.lookup k := by
    intro ms
    induction ms with
    | nil => rfl
    | cons m ms ih =>
      rw [List.map_cons, List.lookup_cons, List.lookup_cons, ih]
      by_cases hm : m.1 = key
      · simp [hm, hb]
      · simp [hm]
  by_cases hk : key ∈ keys ms
  · rw [setMember_of_mem hk, hreplace]
  · rw [setMember_of_notMem hk, List.lookup_append]
    simp [List.lookup_cons, hb]

theorem nodup_setMember {ms : List (JsString × Json)} (h : (keys ms).Nodup) (key : JsString)
    (v : Json) : (keys (setMember ms key v)).Nodup := by
  by_cases hk : key ∈ keys ms
  · rwa [setMember_of_mem hk, keys_replace]
  · rw [setMember_of_notMem hk, keys, List.map_append]
    refine h.append (by simp) ?_
    simpa [keys] using hk

theorem mem_setMember {ms : List (JsString × Json)} {key : JsString} {v : Json}
    {m : JsString × Json} (h : m ∈ setMember ms key v) : m = (key, v) ∨ m ∈ ms := by
  by_cases hk : key ∈ keys ms
  · rw [setMember_of_mem hk] at h
    obtain ⟨m', hm', rfl⟩ := List.mem_map.mp h
    split
    · exact .inl rfl
    · exact .inr hm'
  · rw [setMember_of_notMem hk] at h
    exact (List.mem_append.mp h).symm.imp List.mem_singleton.mp id

/-- Members whose keys are distinct are the members of the object. -/
theorem mkObject_of_nodup {ms : List (JsString × Json)} (h : (keys ms).Nodup) :
    mkObject ms = .obj ms := by
  have hfold : ∀ (ms acc : List (JsString × Json)), (keys (acc ++ ms)).Nodup →
      ms.foldl (fun acc m => setMember acc m.1 m.2) acc = acc ++ ms := by
    intro ms
    induction ms with
    | nil => intro acc _; simp
    | cons m ms ih =>
      intro acc h
      have hnot : m.1 ∉ keys acc := by
        rw [keys, List.map_append, List.nodup_append] at h
        exact fun hm => h.2.2 m.1 hm m.1 (by simp) rfl
      have hnext : acc ++ m :: ms = (acc ++ [m]) ++ ms := by simp
      rw [List.foldl_cons, setMember_of_notMem hnot, hnext]
      exact ih (acc ++ [m]) (by rwa [← hnext])
  rw [mkObject, hfold ms [] h, List.nil_append]

/-- The members of an object that the parser builds. -/
theorem exists_members (ms : List (JsString × Json)) :
    ∃ ms', mkObject ms = .obj ms' ∧ (keys ms').Nodup ∧ ∀ m ∈ ms', m ∈ ms := by
  have hfold : ∀ (ms acc all : List (JsString × Json)), (keys acc).Nodup → (∀ m ∈ acc, m ∈ all) →
      (∀ m ∈ ms, m ∈ all) → (keys (ms.foldl (fun acc m => setMember acc m.1 m.2) acc)).Nodup ∧
        ∀ m ∈ ms.foldl (fun acc m => setMember acc m.1 m.2) acc, m ∈ all := by
    intro ms
    induction ms with
    | nil => intro acc all hnodup hacc _; exact ⟨hnodup, hacc⟩
    | cons m ms ih =>
      intro acc all hnodup hacc hms
      refine ih _ all (nodup_setMember hnodup m.1 m.2) (fun m' hm' => ?_)
        fun m' hm' => hms m' (by simp [hm'])
      rcases mem_setMember hm' with rfl | hm'
      · exact hms m (by simp)
      · exact hacc m' hm'
  exact ⟨_, rfl, hfold ms [] ms (by simp [keys]) (by simp) fun _ hm => hm⟩

mutual

/-- Every number is a double and every object has each key once. -/
def Sound : Json → Prop
  | .num n => IsDouble n
  | .arr xs => SoundAll xs
  | .obj ms => (keys ms).Nodup ∧ SoundMembers ms
  | _ => True

def SoundAll : List Json → Prop
  | [] => True
  | x :: xs => Sound x ∧ SoundAll xs

def SoundMembers : List (JsString × Json) → Prop
  | [] => True
  | (_, v) :: ms => Sound v ∧ SoundMembers ms

end

theorem soundAll_iff {xs : List Json} : SoundAll xs ↔ ∀ x ∈ xs, Sound x := by
  induction xs with
  | nil => simp [SoundAll]
  | cons x xs ih => simp [SoundAll, ih]

theorem soundMembers_iff {ms : List (JsString × Json)} : SoundMembers ms ↔ ∀ m ∈ ms, Sound m.2 := by
  induction ms with
  | nil => simp [SoundMembers]
  | cons m ms ih => simp [SoundMembers, ih]

theorem isDouble_nearest (q : Rat) : IsDouble (nearestDouble q) := by
  cases h : nearestDouble q with
  | nan => trivial
  | infinity negative => trivial
  | finite v => exact nearestDouble_idem h

theorem built_sound : Built Sound where
  null := trivial
  bool := fun _ => trivial
  number := isDouble_nearest
  string := fun _ => trivial
  array := fun h => soundAll_iff.mpr h
  object := fun {ms} h => by
    obtain ⟨ms', he, hnodup, hmem⟩ := exists_members ms
    rw [he]
    exact ⟨hnodup, soundMembers_iff.mpr fun m hm => h m (hmem m hm)⟩

theorem sound_parse {text : JsString} {v : Json} (h : parse text = some v) : Sound v :=
  built_parse built_sound h

mutual

theorem Sound.doubles : ∀ {v : Json}, Sound v → Doubles v
  | .null, _ => trivial
  | .bool _, _ => trivial
  | .num _, h => h
  | .str _, _ => trivial
  | .arr _, h => soundAll_doubles h
  | .obj _, h => soundMembers_doubles h.2

theorem soundAll_doubles : ∀ {xs : List Json}, SoundAll xs → DoublesAll xs
  | [], _ => trivial
  | _ :: _, h => ⟨h.1.doubles, soundAll_doubles h.2⟩

theorem soundMembers_doubles : ∀ {ms : List (JsString × Json)}, SoundMembers ms → DoublesMembers ms
  | [], _ => trivial
  | (_, _) :: _, h => ⟨Sound.doubles h.1, soundMembers_doubles h.2⟩

end

theorem readBackMembers_eq (ms : List (JsString × Json)) :
    readBackMembers ms = ms.map fun m => (m.1, readBack m.2) := by
  induction ms with
  | nil => rfl
  | cons m ms ih => rw [readBackMembers, ih, List.map_cons]

theorem readBackAll_eq (xs : List Json) : readBackAll xs = xs.map readBack := by
  induction xs with
  | nil => rfl
  | cons x xs ih => rw [readBackAll, ih, List.map_cons]

@[simp] theorem keys_readBack (ms : List (JsString × Json)) : keys (readBackMembers ms) = keys ms := by
  rw [readBackMembers_eq, keys, keys, List.map_map]
  rfl

theorem readBack_setMember (ms : List (JsString × Json)) (key : JsString) (v : Json) :
    readBackMembers (setMember ms key v) = setMember (readBackMembers ms) key (readBack v) := by
  by_cases hk : key ∈ keys ms
  · rw [setMember_of_mem hk, setMember_of_mem (by rwa [keys_readBack]), readBackMembers_eq,
      readBackMembers_eq, List.map_map, List.map_map]
    refine List.map_congr_left fun m _ => ?_
    by_cases hm : m.1 = key
    · simp [hm]
    · simp [hm]
  · rw [setMember_of_notMem hk, setMember_of_notMem (by rwa [keys_readBack]), readBackMembers_eq,
      readBackMembers_eq, List.map_append]
    rfl

theorem lookup_readBack (ms : List (JsString × Json)) (key : JsString) :
    (readBackMembers ms).lookup key = (ms.lookup key).map readBack := by
  induction ms with
  | nil => rfl
  | cons m ms ih =>
    obtain ⟨k, v⟩ := m
    rw [readBackMembers, List.lookup_cons, List.lookup_cons, ih]
    cases key == k with
    | true => rfl
    | false => rfl

theorem readBack_obj {ms : List (JsString × Json)} (h : (keys ms).Nodup) :
    readBack (.obj ms) = .obj (readBackMembers ms) := by
  rw [readBack, mkObject_of_nodup (by rwa [keys_readBack])]

mutual

/-- What was read back once stays as it is. -/
theorem readBack_readBack : ∀ {v : Json}, Sound v → readBack (readBack v) = readBack v
  | .null, _ => rfl
  | .bool _, _ => rfl
  | .num n, _ => by cases n <;> rfl
  | .str _, _ => rfl
  | .arr xs, h => by rw [readBack, readBack, readBackAll_readBack h]
  | .obj ms, h => by
    rw [readBack_obj h.1, readBack_obj (by rw [keys_readBack]; exact h.1), readBackMembers_readBack h.2]

theorem readBackAll_readBack : ∀ {xs : List Json}, SoundAll xs →
    readBackAll (readBackAll xs) = readBackAll xs
  | [], _ => rfl
  | x :: xs, h => by
    rw [readBackAll, readBackAll, readBack_readBack h.1, readBackAll_readBack h.2]

theorem readBackMembers_readBack : ∀ {ms : List (JsString × Json)}, SoundMembers ms →
    readBackMembers (readBackMembers ms) = readBackMembers ms
  | [], _ => rfl
  | (key, v) :: ms, h => by
    rw [readBackMembers, readBackMembers, readBack_readBack h.1, readBackMembers_readBack h.2]

end

end Conductor.Js.JsonRoundTrip
