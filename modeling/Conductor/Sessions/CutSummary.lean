import Conductor.Sessions.Isolation

/-! # The cut summary and the whole text

A snapshot asks the suggestion table about the first 200 units of a text. Where
the cut falls right after a prompt word or a question, the table approves what
it would not approve in the whole text. -/
namespace Conductor.Sessions.CutSummary
open Conductor.Js.Text Conductor.Js.Values Conductor.Sessions.Types Conductor.Sessions.RefinedStatus
open Conductor.Sessions.Suggest Conductor.Sessions.Snapshot Conductor.Sessions.Isolation

/-- The table approves a value of the text block unattended. -/
def Approves (text : Json) : Prop :=
  ∃ sug, suggestNext .awaiting_user_input text = .ok sug ∧ autoApproves sug.action sug.confidence = true

/-- What the entry has approved is approved in the uncut text too. -/
def Honest (e : SnapshotEntry) (text : Option Json) : Prop :=
  autoApproves e.action e.confidence = true → Approves (text.getD .null)

/-- The text is an approval prompt, or its cut does not end where one could. -/
def CutHarmless (text : Option Json) : Prop :=
  ∀ t, text = some (.str t) → approvalPrompt t = true ∨ cutAsks (t.take 200) = false

theorem approves_str {t : JsString} : Approves (.str t) ↔ approvalPrompt t = true := by
  obtain ⟨sug, hsug⟩ : ∃ sug, suggestNext .awaiting_user_input (.str t) = .ok sug := by
    by_cases ha : approvalPrompt t = true
    · exact ⟨_, if_pos ha⟩
    · exact ⟨_, if_neg ha⟩
  have hiff := suggestNext_autoApproves hsug
  refine ⟨fun h => ?_, fun h => ⟨sug, hsug, hiff.mpr ⟨rfl, t, rfl, h⟩⟩⟩
  obtain ⟨sug', hsug', hauto⟩ := h
  obtain ⟨-, s, hs, ha⟩ := (suggestNext_autoApproves hsug').mp hauto
  cases hs
  exact ha

/-- The entry of an awaiting session approves what its summary asks for. -/
theorem entry_autoApproves {env : Env} {disk : Disk} {sessions : List LocalSession}
    {s : LocalSession} {e : SnapshotEntry} (he : EntryOf env disk sessions s e)
    (hstatus : e.status = .awaiting_user_input) :
    ∃ t, summaryText e.last_assistant_summary = .ok t ∧
      (autoApproves e.action e.confidence = true ↔ approvalPrompt t = true) := by
  obtain ⟨sug, hsug, -, hact, hconf⟩ := he.suggestion
  have hiff := suggestNext_autoApproves hsug
  rw [hstatus] at hsug
  cases ht : summaryText e.last_assistant_summary with
  | error x =>
    simp only [suggestNext, ht] at hsug
    cases hsug
  | ok t =>
    refine ⟨t, rfl, ?_⟩
    rw [hact, hconf, hiff]
    refine ⟨fun h => ?_, fun h => ⟨hstatus, t, ht, h⟩⟩
    obtain ⟨-, t', ht', ha⟩ := h
    rw [ht] at ht'
    cases ht'
    exact ha

theorem summary_of_text {env : Env} {disk : Disk} {sessions : List LocalSession}
    {s o : LocalSession} {e : SnapshotEntry} {text : Option Json}
    (he : EntryOf env disk sessions s e) (ho : owner sessions s.pid = some o)
    (ht : firstText (lastTurnOf disk o) = .ok text) :
    slice200 text = .ok e.last_assistant_summary := by
  have hw := he.summary
  have hsum : summaryOf (lastTurnOf disk o) = slice200 text := by
    unfold summaryOf
    rw [ht]
    rfl
  rw [summaryAt, ho, Option.bind_some, hsum] at hw
  cases hsl : slice200 text with
  | error x => rw [hsl] at hw; cases hw
  | ok w => rw [hsl] at hw; cases hw; rfl

/-- An awaiting session is approved by its cut text only if its whole text
approves, exactly when the cut is harmless. -/
theorem cut_summary_honest_iff {env : Env} {disk : Disk} {sessions : List LocalSession}
    {E : List SnapshotEntry} (h : buildSnapshot env disk sessions = .ok E) {i : Nat}
    {s o : LocalSession} {e : SnapshotEntry} {text : Option Json} (hs : sessions[i]? = some s)
    (hi : E[i]? = some e) (hstatus : e.status = .awaiting_user_input)
    (ho : owner sessions s.pid = some o) (ht : firstText (lastTurnOf disk o) = .ok text) :
    Honest e text ↔ CutHarmless text := by
  obtain ⟨e', hi', he⟩ := entries_at h hs
  have hee : e' = e := by
    rw [hi] at hi'
    exact (Option.some.inj hi').symm
  rw [hee] at he
  have hsummary := summary_of_text he ho ht
  obtain ⟨t, htext, hauto⟩ := entry_autoApproves he hstatus
  -- no text: an empty summary approves nothing
  have empty : approvalPrompt [] = false := by decide
  unfold Honest CutHarmless
  rw [hauto]
  cases text with
  | none =>
    have hnull : Json.null = e.last_assistant_summary := Except.ok.inj hsummary
    rw [← hnull] at htext
    cases htext
    simp [empty]
  | some v =>
    cases v with
    | null =>
      have hnull : Json.null = e.last_assistant_summary := Except.ok.inj hsummary
      rw [← hnull] at htext
      cases htext
      simp [empty]
    | str full =>
      have hcut : Json.str (full.take 200) = e.last_assistant_summary := Except.ok.inj hsummary
      rw [← hcut] at htext
      cases htext
      rw [Option.getD_some, approves_str]
      cases hf : approvalPrompt full with
      | true => simp [hf]
      | false =>
        rw [approvalPrompt_take 200 hf]
        simp [hf]
    | arr xs =>
      have hlist : Json.arr (xs.take 200) = e.last_assistant_summary := Except.ok.inj hsummary
      rw [← hlist] at htext
      cases htext
    | bool b => cases hsummary
    | num n => cases hsummary
    | obj ms => cases hsummary

/-! ## A cut right after a question mark -/

/-- The first session of two whose only text block holds `text`. -/
def withText (text : JsString) : Disk :=
  replaced twoTranscripts (js "/a.jsonl") (some (oneRow (.arr [textBlock (.str text)]) 0))

/-- The 200th unit is a question mark. -/
def rhetorical : JsString := List.replicate 199 0x61 ++ js "? No: it is done."

theorem firstText_of_beq {r : Except JsError (Option Json)} {t : JsString}
    (h : (r.toOption.map fun v => isText v t) = some true) : r = .ok (some (.str t)) := by
  cases r with
  | error e => cases h
  | ok v =>
    have hv : isText v t = true := by simpa [Except.toOption] using h
    rw [isText_iff.mp hv]

theorem first_entry (text : JsString)
    (hok : (buildSnapshot quietEnv (withText text) twoSessions).toBool = true)
    (hstatus : statusAt quietEnv (withText text) twoSessions 100 = .awaiting_user_input) :
    ∃ E e, buildSnapshot quietEnv (withText text) twoSessions = .ok E ∧ E[0]? = some e ∧
      e.status = .awaiting_user_input ∧ EntryOf quietEnv (withText text) twoSessions sessionA e := by
  obtain ⟨E, hE⟩ := exists_of_toBool hok
  have hfirst : twoSessions[0]? = some sessionA := rfl
  obtain ⟨e, hi, he⟩ := entries_at hE hfirst
  exact ⟨E, e, hE, hi, he.status.trans hstatus, he⟩

/-- The prompt stands behind the cut. -/
def longPrompt : JsString := List.replicate 199 0x61 ++ js ". Deployed. Continue?"

theorem cut_summary_honest_done :
    ∃ E e, buildSnapshot quietEnv (withText longPrompt) twoSessions = .ok E ∧ E[0]? = some e ∧
      (Honest e (some (.str longPrompt)) ↔ CutHarmless (some (.str longPrompt))) ∧
      Honest e (some (.str longPrompt)) := by
  obtain ⟨E, e, hE, hi, hstatus, -⟩ := first_entry longPrompt (by decide +kernel) (by decide +kernel)
  have hfirst : twoSessions[0]? = some sessionA := rfl
  have ho : owner twoSessions sessionA.pid = some sessionA := by decide +kernel
  have hiff : Honest e (some (.str longPrompt)) ↔ CutHarmless (some (.str longPrompt)) :=
    cut_summary_honest_iff hE hfirst hi hstatus ho (firstText_of_beq (by decide +kernel))
  have happroves : approvalPrompt longPrompt = true := by decide +kernel
  refine ⟨E, e, hE, hi, hiff, hiff.mpr fun t ht => ?_⟩
  cases ht
  exact .inl happroves

/-- The entry says `y` with high confidence; the whole text would have got an
`ok` with low confidence. -/
theorem cut_approves_rhetorical_question :
    ∃ E e, buildSnapshot quietEnv (withText rhetorical) twoSessions = .ok E ∧ E[0]? = some e ∧
      e.status = .awaiting_user_input ∧ autoApproves e.action e.confidence = true ∧
      firstText (lastTurnOf (withText rhetorical) sessionA) = .ok (some (.str rhetorical)) ∧
      ¬ Approves (.str rhetorical) := by
  have hread : firstText (lastTurnOf (withText rhetorical) sessionA) = .ok (some (.str rhetorical)) :=
    firstText_of_beq (by decide +kernel)
  obtain ⟨E, e, hE, hi, hstatus, he⟩ := first_entry rhetorical (by decide +kernel) (by decide +kernel)
  have ho : owner twoSessions sessionA.pid = some sessionA := by decide +kernel
  obtain ⟨t, htext, hauto⟩ := entry_autoApproves he hstatus
  rw [← Except.ok.inj (summary_of_text he ho hread)] at htext
  cases htext
  refine ⟨E, e, hE, hi, hstatus, hauto.mpr (by decide +kernel), hread, fun h => ?_⟩
  have hwhole := approves_str.mp h
  revert hwhole
  decide +kernel

end Conductor.Sessions.CutSummary
