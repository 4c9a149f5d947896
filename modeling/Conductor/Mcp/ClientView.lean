import Conductor.Js.JsonRoundTrip
import Conductor.Js.ToNumber
import Conductor.Mcp.Serial

/-! # What the client reads

The client decodes the bytes of standard output, cuts them at the newlines and
parses each piece. It gets one value for each response, whatever the ids, texts
and payloads that the responses carry. -/
namespace Conductor.Mcp.ClientView
open Conductor.Lib.Framing Conductor.Lib.Runs Conductor.Js.Text Conductor.Js.Number Conductor.Js.Utf8
open Conductor.Js.Utf8Cut Conductor.Js.Values Conductor.Js.JsonText Conductor.Js.JsonAccepts
open Conductor.Js.JsonRoundTrip Conductor.Js.ToNumber Conductor.Js.Doubles Conductor.Mcp.Protocol Conductor.Mcp.Registry Conductor.Mcp.Server
open Conductor.Mcp.Stdio Conductor.Mcp.Serial

variable {p : Platform} {s t : State} {id : Json}

/-! ## Every response is sound JSON -/

theorem sound_orElse {v : Option Json} (h : ∀ w, v = some w → Sound w) : Sound (orElse v .null) := by
  cases v with
  | none => trivial
  | some v => rw [orElse_some_null]; exact h v rfl

theorem sound_of_lookup {ms : List (JsString × Json)} {key : JsString} {v : Json}
    (hs : SoundMembers ms) (h : ms.lookup key = some v) : Sound v := by
  obtain ⟨l₁, l₂, rfl, -⟩ := List.lookup_eq_some_iff.mp h
  exact soundMembers_iff.mp hs (key, v) (by simp)

theorem sound_prop {req : Json} {key : JsString} {v : Option Json} (hs : Sound req)
    (h : prop req key = .ok v) : Sound (orElse v .null) := by
  refine sound_orElse fun w hw => ?_
  rw [hw] at h
  cases req with
  | null => cases h
  | obj ms =>
    obtain ⟨-, hms⟩ := hs
    exact sound_of_lookup hms (Except.ok.inj h)
  | bool b | num n | str s | arr xs => cases Except.ok.inj h

/-- A text block, with or without its text. -/
theorem sound_content (text : Option JsString) (isError : Bool) :
    Sound (ToolsCallResult.toJson ⟨text, isError⟩) := by
  have hblock : ∀ ms : List (JsString × Json), Sound (.obj ms) →
      Sound (.obj [(js "content", .arr [.obj ms])]) ∧
        Sound (.obj [(js "isError", .bool true), (js "content", .arr [.obj ms])]) := by
    intro ms hms
    have hkeys : [js "isError", js "content"].Nodup := by decide
    exact ⟨⟨List.nodup_singleton _, ⟨hms, trivial⟩, trivial⟩,
      hkeys, trivial, ⟨hms, trivial⟩, trivial⟩
  have hkeys : [js "type", js "text"].Nodup := by decide
  cases text with
  | none =>
    obtain ⟨hplain, herror⟩ := hblock [(js "type", .str (js "text"))]
      ⟨List.nodup_singleton _, trivial, trivial⟩
    cases isError with
    | false => exact hplain
    | true => exact herror
  | some text =>
    obtain ⟨hplain, herror⟩ := hblock [(js "type", .str (js "text")), (js "text", .str text)]
      ⟨hkeys, trivial, trivial, trivial⟩
    cases isError with
    | false => exact hplain
    | true => exact herror

theorem sound_strings (ss : List JsString) : Sound (.arr (ss.map .str)) :=
  soundAll_iff.mpr fun v hv => by
    obtain ⟨s, -, rfl⟩ := List.mem_map.mp hv
    trivial

theorem sound_properties {ps : List ArgProperty} (h : (ps.map (·.name)).Nodup) :
    Sound (.obj (ps.map (·.toJson))) := by
  have hkeys : [js "type", js "description"].Nodup := by decide
  refine ⟨?_, soundMembers_iff.mpr fun m hm => ?_⟩
  · rw [keys, List.map_map]
    exact h
  · obtain ⟨q, -, rfl⟩ := List.mem_map.mp hm
    exact ⟨hkeys, trivial, trivial, trivial⟩

/-- A descriptor whose arguments have distinct names. -/
theorem sound_descriptor {d : McpToolDescriptor} (h : (d.properties.map (·.name)).Nodup) :
    Sound d.toJson := by
  have hkeys : [js "name", js "description", js "inputSchema"].Nodup := by decide
  have hschema : [js "type", js "properties", js "required", js "additionalProperties"].Nodup := by
    decide
  refine ⟨hkeys, trivial, trivial, ?_, trivial⟩
  have hshort : [js "type", js "properties", js "additionalProperties"].Nodup := by decide
  cases d.required with
  | nil => exact ⟨hshort, trivial, sound_properties h, trivial, trivial⟩
  | cons name names =>
    exact ⟨hschema, trivial, sound_properties h, sound_strings (name :: names), trivial, trivial⟩

/-- No tool declares an argument twice. -/
theorem properties_nodup (tool : McpTool) : (tool.descriptor.properties.map (·.name)).Nodup := by
  cases tool with
  | snapshot | sessions | transcript | todosList | todosAdd | todosComplete | inject | auditTail =>
    decide

theorem sound_toolsList : SoundAll allToolDescriptors :=
  soundAll_iff.mpr fun v hv => by
    obtain ⟨tool, -, rfl⟩ := List.mem_map.mp hv
    exact sound_descriptor (properties_nodup tool)

/-- A result that the server answers with. -/
def Honest : JsonRpcResponse → Prop
  | .success id result => Sound id ∧ Sound result.toJson
  | .error id _ _ => Sound id

theorem Honest.sound {r : JsonRpcResponse} (h : Honest r) : Sound r.toJson := by
  cases r with
  | success id result =>
    have hkeys : [js "jsonrpc", js "id", js "result"].Nodup := by decide
    exact ⟨hkeys, trivial, h.1, h.2, trivial⟩
  | error id code message =>
    have hkeys : [js "jsonrpc", js "id", js "error"].Nodup := by decide
    have hinner : [js "code", js "message"].Nodup := by decide
    have hcode : code.code.natAbs < 2 ^ 53 := by
      cases code <;> decide
    exact ⟨hkeys, trivial, h, ⟨hinner, isDouble_ofInt hcode, trivial, trivial⟩, trivial⟩

theorem honest_startMethod {serverVersion method : JsString} {params : Option Json}
    {isNotification : Bool} {handler : McpTool → Json → HandlerOutcome} (hid : Sound id)
    {r : JsonRpcResponse}
    (h : (startMethod serverVersion method params id isNotification).response handler = some r) :
    Honest r := by
  have hcall : (startCall id params).response handler = some r → Honest r := by
    intro h
    unfold startCall at h
    split at h
    · split at h
      · cases Option.some.inj h
        cases handler _ _ with
        | ok payload => exact ⟨hid, sound_content _ _⟩
        | error message => exact ⟨hid, sound_content _ _⟩
      · cases h
        exact hid
    · cases h
      exact hid
  have hserver : [js "protocolVersion", js "capabilities", js "serverInfo"].Nodup := by decide
  have hinfo : [js "name", js "version"].Nodup := by decide
  unfold startMethod at h
  split at h
  · cases isNotification with
    | true => cases h
    | false =>
      cases h
      exact ⟨hid, hserver, trivial, ⟨List.nodup_singleton _, ⟨List.nodup_nil, trivial⟩, trivial⟩,
        ⟨hinfo, trivial, trivial, trivial⟩, trivial⟩
  · split at h
    · cases h
    · split at h
      · cases isNotification with
        | true => cases h
        | false =>
          cases h
          exact ⟨hid, List.nodup_nil, trivial⟩
      · split at h
        · cases h
          exact ⟨hid, List.nodup_singleton _, sound_toolsList, trivial⟩
        · split at h
          · exact hcall h
          · cases h
            exact hid

theorem envelope_id {req : Json} {m : Envelope} (h : envelope req = some m) :
    m.id = optProp (some req) (js "id") := by
  unfold envelope at h
  split at h
  · cases h
    rfl
  · cases h

theorem honest_dispatch {serverVersion : JsString} {handler : McpTool → Json → HandlerOutcome}
    {req : Json} (hreq : Sound req) {r : JsonRpcResponse}
    (h : dispatch serverVersion handler req = .ok (some r)) : Honest r := by
  cases hn : isNull req with
  | true =>
    cases req with
    | null => cases h
    | _ => cases hn
  | false =>
    have hid := sound_prop hreq (prop_of_ne_null hn (js "id"))
    cases henv : envelope req with
    | none =>
      rw [dispatch, dispatchStart_refused serverVersion hn henv] at h
      cases h
      exact hid
    | some m =>
      rw [dispatch, dispatchStart_envelope serverVersion henv, envelope_id henv] at h
      exact honest_startMethod hid (Except.ok.inj h)

theorem honest_answerLine {outcome : HandlerOutcome} {text : JsString} {r : JsonRpcResponse}
    (h : answerLine p outcome text = some r) : Honest r := by
  unfold answerLine at h
  split at h
  · cases h
  · cases h
    trivial
  · rename_i req hread
    have hreq : Sound req := by
      simp only [readInput] at hread
      split at hread
      · cases hread
      · split at hread
        · cases hread
        · rename_i v hparse
          cases hread
          exact sound_parse hparse
    split at h
    · unfold crashResponse at h
      split at h
      · cases h
      · rename_i id hid
        cases h
        exact sound_prop hreq hid
    · rename_i response hd
      rw [h] at hd
      exact honest_dispatch hreq hd

/-! ## Every response has the id of its request -/

/-- The id that a response to the line is to carry: that of the value on it. A text that
is no JSON has none, as has a value without that property; both are null. -/
def requestId (text : JsString) : Json :=
  match readInput text with
  | .parsed req => orElse (optProp (some req) (js "id")) .null
  | .blank | .malformed _ => .null

theorem prop_eq_optProp {req : Json} {key : JsString} {v : Option Json} (h : prop req key = .ok v) :
    v = optProp (some req) key := by
  cases hn : isNull req with
  | true =>
    cases req with
    | null => cases h
    | _ => cases hn
  | false => exact (Except.ok.inj ((prop_of_ne_null hn key).symm.trans h)).symm

theorem startMethod_id {serverVersion method : JsString} {handler : McpTool → Json → HandlerOutcome}
    {params : Option Json} {isNotification : Bool} {r : JsonRpcResponse}
    (h : (startMethod serverVersion method params id isNotification).response handler = some r) : r.id = id := by
  by_cases hquiet : method ∈ silentMethods ∨ (isNotification = true ∧ method ∈ quietMethods)
  · rw [startMethod_silent hquiet] at h
    cases h
  · obtain ⟨hs, hq⟩ := not_or.mp hquiet
    obtain ⟨r', hr', hid⟩ := startMethod_answers serverVersion handler isNotification params id hs
      fun hn hm => hq ⟨hn, hm⟩
    cases h.symm.trans hr'
    exact hid

theorem dispatch_id {serverVersion : JsString} {handler : McpTool → Json → HandlerOutcome} {req : Json}
    {r : JsonRpcResponse} (h : dispatch serverVersion handler req = .ok (some r)) :
    r.id = orElse (optProp (some req) (js "id")) .null := by
  cases hn : isNull req with
  | true =>
    cases req with
    | null => cases h
    | _ => cases hn
  | false =>
    cases henv : envelope req with
    | none =>
      rw [dispatch, dispatchStart_refused serverVersion hn henv] at h
      cases h
      rfl
    | some m =>
      rw [dispatch, dispatchStart_envelope serverVersion henv, envelope_id henv] at h
      exact startMethod_id (Except.ok.inj h)

/-- On each of its exits the callback answers with the id of its own line. -/
theorem answerLine_id {outcome : HandlerOutcome} {text : JsString} {r : JsonRpcResponse}
    (h : answerLine p outcome text = some r) : r.id = requestId text := by
  unfold answerLine at h
  unfold requestId
  split at h
  · cases h
  · rename_i hread
    rw [hread]
    cases h
    rfl
  · rename_i req hread
    rw [hread]
    split at h
    · unfold crashResponse at h
      split at h
      · cases h
      · rename_i v hv
        cases h
        exact congrArg (orElse · .null) (prop_eq_optProp hv)
    · rename_i response hd
      rw [h] at hd
      exact dispatch_id hd

/-- What a run has written answers lines that have come, each with the id on it, and can be
read back. -/
theorem honest_run {es : List Event} (h : exec (step p) init es = some t) :
    ∀ w ∈ t.out, Honest w.2 ∧ ∃ text, t.lines[w.1]? = some text ∧ w.2.id = requestId text := by
  intro w hw
  obtain ⟨F, -, hsame⟩ := sameAnswers_run h
  obtain ⟨k, text, hk, hline, hr⟩ := mem_answersFrom (hsame.out_subperm.subset hw)
  rw [Nat.zero_add] at hline
  exact ⟨honest_answerLine hr, text, by rw [hline]; exact hk, answerLine_id hr⟩

/-! ## The bytes -/

/-- What a client makes of the bytes on standard output. -/
def readStdout (bytes : List UInt8) : List (Option Json) := (records 10 (decode bytes)).map parse

theorem isText_stringify {v : Json} (h : Doubles v) : IsText (stringify v) :=
  isText_of_writes (writes_stringify v h)

theorem isText_frame {rs : List JsString} (h : ∀ r ∈ rs, IsText r) : IsText (frame 10 rs) := by
  induction rs with
  | nil => exact isText_nil
  | cons r rs ih =>
    have hnewline : IsText [10] := isText_of_all (by decide)
    have hr := (h r List.mem_cons_self).append hnewline
    exact hr.append (ih fun r' hr' => h r' (List.mem_cons_of_mem r hr'))

/-- What a client reads as a response to a line. -/
structure ReadsResponse (text : JsString) (r : JsonRpcResponse) (v : Json) : Prop where
  version : optProp (some v) (js "jsonrpc") = some (.str (js "2.0"))
  id : optProp (some v) (js "id") = some (readBack (requestId text))
  error : (optProp (some v) (js "error")).isSome = r.isError
  result : (optProp (some v) (js "result")).isSome = !r.isError

theorem optProp_readBack {ms : List (JsString × Json)} (h : (keys ms).Nodup) (key : JsString) :
    optProp (some (readBack (.obj ms))) key = (optProp (some (.obj ms)) key).map readBack := by
  rw [readBack_obj h]
  exact lookup_readBack ms key

theorem readsResponse {text : JsString} {r : JsonRpcResponse} (h : Honest r) (hid : r.id = requestId text) :
    ReadsResponse text r (readBack r.toJson) := by
  obtain ⟨hversion, hown, herror, hresult⟩ := toJson_envelope r
  have hread : ∀ key, optProp (some (readBack r.toJson)) key = (optProp (some r.toJson) key).map readBack := by
    have hsound := h.sound
    cases r with
    | success id result => exact optProp_readBack hsound.1
    | error id code message => exact optProp_readBack hsound.1
  refine ⟨?_, ?_, ?_, ?_⟩
  · rw [hread, isText_iff.mp hversion]
    rfl
  · rw [hread, hown, hid]
    rfl
  · rw [hread, Option.isSome_map, herror]
  · rw [hread, Option.isSome_map, hresult]

/-- In every state of every run the client reads one value for each response that was
written, in their order: each line of the bytes parses, and its value carries the version,
the id on the line that it answers, and either an error or a result. -/
theorem client_reads_responses (p : Platform) {es : List Event} {t : State}
    (h : exec (step p) init es = some t) :
    List.Forall₂ (fun w v => ∃ text u, t.lines[w.1]? = some text ∧ v = some u ∧ ReadsResponse text w.2 u) t.out
      (readStdout (encode (stdoutText t))) := by
  have hall := honest_run h
  have htext : IsText (stdoutText t) := isText_frame fun r hr => by
    obtain ⟨w, hw, rfl⟩ := List.mem_map.mp hr
    exact isText_stringify (hall w hw).1.sound.doubles
  rw [readStdout, htext.decode_encode, records_stdoutText, List.map_map, List.forall₂_map_right_iff]
  refine List.forall₂_same.mpr fun w hw => ?_
  obtain ⟨hhonest, text, hline, hid⟩ := hall w hw
  refine ⟨text, readBack w.2.toJson, hline, ?_, readsResponse hhonest hid⟩
  exact parse_of_writes (writes_stringify _ hhonest.sound.doubles)

/-- A call of the tool `sessions` with a text for its id. -/
def namedCall (id : String) : JsString :=
  js "\x7b\"jsonrpc\":\"2.0\",\"id\":\"" ++ js id ++
    js "\",\"method\":\"tools/call\",\"params\":\x7b\"name\":\"sessions\"\x7d\x7d"

def namedRun : List Event :=
  [.line (namedCall "a"), .line (namedCall "b"), .settle 1 (.ok none), .settle 0 (.error []),
    .job, .job, .job, .job]

/-- Two responses, the later call's first: the ids tell which is which. -/
theorem client_reads_overtaking :
    ∃ t, exec (step somePlatform) init namedRun = some t ∧
      (readStdout (encode (stdoutText t))).map (fun v => optProp v (js "id")) =
        [some (.str (js "b")), some (.str (js "a"))] := by
  have hrun : ∃ t ∈ exec (step somePlatform) init namedRun,
      t.out.map (·.1) = [1, 0] ∧ t.lines = [namedCall "a", namedCall "b"] := by decide +kernel
  have hnamed : isText (some (requestId (namedCall "a"))) (js "a") = true ∧
      isText (some (requestId (namedCall "b"))) (js "b") = true := by decide +kernel
  obtain ⟨t, ht, hout, hlines⟩ := hrun
  have hread := client_reads_responses somePlatform ht
  have hids : (readStdout (encode (stdoutText t))).map (fun v => optProp v (js "id")) =
      (t.out.map (·.1)).map fun i => (t.lines[i]?).map fun text => readBack (requestId text) := by
    rw [List.map_map, ← List.forall₂_eq_eq_eq, List.forall₂_map_left_iff, List.forall₂_map_right_iff]
    refine hread.flip.imp fun v w hw => ?_
    obtain ⟨text, u, hline, rfl, hreads⟩ := hw
    rw [hreads.id, Function.comp_apply, hline]
    rfl
  refine ⟨t, ht, ?_⟩
  rw [hids, hout, hlines]
  show [some (readBack (requestId (namedCall "b"))), some (readBack (requestId (namedCall "a")))] = _
  rw [Option.some.inj (isText_iff.mp hnamed.1), Option.some.inj (isText_iff.mp hnamed.2)]
  rfl

end Conductor.Mcp.ClientView
