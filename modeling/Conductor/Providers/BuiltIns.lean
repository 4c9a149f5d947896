import Conductor.Cli.ShownEntries
import Conductor.Sessions.Transcript

/-! # The methods of the built-in providers

A provider derives a status, suggests and injects on its own, for one session at a
time. About a session that it discovered it says what the entry of the snapshot
says; but its inject does what a forced one does, whatever conflict is shown. -/
namespace Conductor.Providers.BuiltIns
open Conductor.Js.Text Conductor.Js.Number Conductor.Js.Values Conductor.Js.Utf8 Conductor.Jsonl.Parser
open Conductor.Sessions.Types Conductor.Sessions.RefinedStatus Conductor.Sessions.Snapshot
open Conductor.Sessions.Transcript
open Conductor.Discovery.Providers Conductor.Tmux.TmuxMap Conductor.Tmux.Effects
open Conductor.Mcp.Tools Conductor.Cli.InjectCmd Conductor.Cli.InjectAgreement Conductor.Cli.ShownEntries

/-! ## The methods -/

structure InjectAudit where
  ts : JsNumber
  pid : Int
  text : JsString
  method : JsString
  deriving DecidableEq

structure InjectResult where
  ok : Bool
  reason : Option JsString
  audit : Option InjectAudit
  deriving DecidableEq

/-- The methods take what they read as their first arguments. -/
structure ProviderMethods extends AgentProvider where
  readTranscript : (JsString → Option Bytes) → LocalSession → JsNumber → Option (List TranscriptTurn)
  deriveStatus : Disk → Int → LocalSession → RefinedStatus
  suggestNext : LocalSession → Json → RefinedStatus → Except JsError Suggestion
  inject : World → LocalSession → JsString → Outcome InjectResult

/-- The `inject` that the three providers have in common. -/
def injectAs (caller : Tmux.Audit.Caller) (w : World) (session : LocalSession) (text : JsString) :
    Outcome InjectResult :=
  match findPaneForPid w.tmux session.pid none with
  | none => ⟨[], .ok ⟨false, some (js "no_tmux"), none⟩⟩
  | some pane =>
    let send := Effect.sendKeys (sendKeys pane.pane text)
    match w.sendFailure with
    | some message => ⟨[send], .error (.error message)⟩
    | none =>
      let ts := .finite w.now
      let entry : AuditEntry :=
        { ts, pid := .finite session.pid, repo := session.repoName, action := .inject, text := some text
          source := .userApproved, confidence := none, reason := none }
      ⟨[send, .appendAudit ⟨caller, entry⟩],
        .ok ⟨true, none, some ⟨ts, session.pid, text, js "tmux:send-keys"⟩⟩⟩

def claudeCodeProvider : ProviderMethods where
  name := js "claude-code"
  discover := claudeCodeDiscover
  readTranscript := Sessions.Transcript.readTranscript
  deriveStatus disk now session := deriveRefinedStatus disk now session none
  suggestNext _ lastAssistantSummary refinedStatus :=
    Sessions.Suggest.suggestNext refinedStatus lastAssistantSummary
  inject := injectAs .claudeCode

/-- The methods that a provider without a transcript parser has, with its texts. -/
def stubProvider (provider : AgentProvider) (caller : Tmux.Audit.Caller) (text actionReason reason : JsString) :
    ProviderMethods where
  toAgentProvider := provider
  readTranscript _ _ _ := none
  deriveStatus _ _ _ := .idle
  suggestNext _ _ _ := pure { text, action := .none (some actionReason), confidence := .low, reason }
  inject := injectAs caller

def aiderProvider : ProviderMethods :=
  stubProvider ⟨js "aider", aiderDiscover⟩ .aider
    (js "Switch to the aider terminal and continue the conversation.")
    (js "aider provider transcript parser ships in v0.5")
    (js "aider provider is a stub in v0.4 — discovery works, transcript+status do not")

def cursorCliProvider : ProviderMethods :=
  stubProvider ⟨js "cursor-cli", cursorCliDiscover⟩ .cursorCli
    (js "Switch to Cursor and continue the conversation.")
    (js "cursor-cli provider stub — full impl in v0.5")
    (js "cursor-cli provider is a stub in v0.4")

/-- The registered providers, with their methods. -/
def builtIns : List ProviderMethods := [claudeCodeProvider, aiderProvider, cursorCliProvider]

example : builtIns.map (·.toAgentProvider) = allProviders := rfl

/-! ## What a method and an entry say -/

/-- An action, whatever it gives as its reason. -/
def withoutReason : Action → Action
  | .none _ => .none none
  | action => action

/-- How the inject of a provider ended; a result that reports success names the entry
of the log. -/
def ProviderEnds (o : Outcome InjectResult) : Ending → Prop
  | .noPane => o = ⟨[], .ok ⟨false, some (js "no_tmux"), none⟩⟩
  | .collision _ | .dryRun => False
  | .sendFailed => ∃ args message, o = ⟨[.sendKeys args], .error (.error message)⟩
  | .sent => ∃ args i audit, o = ⟨[.sendKeys args, .appendAudit i], .ok ⟨true, none, some audit⟩⟩ ∧
      audit.ts = i.entry.ts ∧ .finite audit.pid = i.entry.pid ∧ some audit.text = i.entry.text

/-- A forced inject, approved by the user. -/
def forced (pid : Int) (text : JsString) : Ask := ⟨pid, text, .userApproved, true, false⟩

/-- The methods of `p` and the entry `e` say the same about the session `s`. -/
structure Agrees (p : ProviderMethods) (w : World) (env : Env) (disk : Disk) (s : LocalSession)
    (e : SnapshotEntry) : Prop where
  status : p.deriveStatus disk env.now s = e.status
  unread : (∃ limit, p.readTranscript disk.bytes s limit = none) → e.last_assistant_summary = .null
  suggestion : ∃ sug, p.suggestNext s e.last_assistant_summary e.status = .ok sug ∧
    withoutReason sug.action = withoutReason e.action ∧ sug.confidence = e.confidence
  inject : ∀ text, ProviderEnds (p.inject w s text) (promised w.sendFailure.isSome e (forced s.pid text)).1 ∧
    traces (p.inject w s text).effects = (promised w.sendFailure.isSome e (forced s.pid text)).2

variable {w : World} {env : Env} {disk : Disk} {E : List SnapshotEntry} {e : SnapshotEntry}
variable {sessions : List LocalSession} {s : LocalSession} {h : Host}

/-! ## Discovery -/

/-- What a scan reports of a process is decided by its pid. -/
theorem discoverBy_eq_of_pid {m : JsString → Bool} {enrich : JsString → Option JsString × Option JsString}
    {s o : LocalSession} (hs : s ∈ discoverBy m enrich h) (ho : o ∈ discoverBy m enrich h)
    (hpid : o.pid = s.pid) : o = s := by
  obtain ⟨p, -, rfl⟩ := List.mem_map.mp hs
  obtain ⟨q, -, rfl⟩ := List.mem_map.mp ho
  have hsame : q.pid = p.pid := hpid
  simp only [hsame]

/-- A scan that looks for no transcripts finds none. -/
theorem discoverBy_unread {m : JsString → Bool}
    (hs : s ∈ discoverBy m (fun _ => (none, none)) h) : s.transcriptPath = none := by
  obtain ⟨p, -, rfl⟩ := List.mem_map.mp hs
  rfl

/-- Every session has the pid of one process, so it owns the maps that are keyed by pid. -/
def OwnsPid (sessions : List LocalSession) (s : LocalSession) : Prop := owner sessions s.pid = some s

theorem ownsPid_discoverBy {m : JsString → Bool} {enrich : JsString → Option JsString × Option JsString}
    (hs : s ∈ discoverBy m enrich h) : OwnsPid (discoverBy m enrich h) s := by
  obtain ⟨o, ho⟩ := owner_isSome hs
  obtain ⟨hmem, hpid⟩ := owner_mem ho
  unfold OwnsPid
  rw [ho, discoverBy_eq_of_pid hs hmem hpid]

/-! ## Statuses and summaries -/

theorem statusAt_eq (hfresh : fresh env.cache env.now = none) (howns : OwnsPid sessions s) :
    statusAt env disk sessions s.pid = deriveRefinedStatus disk env.now s none := by
  unfold statusAt refinedStatusFor
  rw [hfresh]
  simp only
  rw [PidMap.get?_map, show sessions.reverse.find? (fun b => b.pid == s.pid) = some s from howns,
    Option.map_some, Option.getD_some]

/-- A session without a transcript has no summary. -/
theorem summary_null (hentry : EntryOf env disk sessions s e) (howns : OwnsPid sessions s)
    (hpath : transcriptOf s = none) : e.last_assistant_summary = .null := by
  have hsummary := hentry.summary
  have hturn : lastTurnOf disk s = none := by
    unfold lastTurnOf
    rw [hpath]
    rfl
  unfold summaryAt at hsummary
  rw [show owner sessions s.pid = some s from howns, Option.bind_some, hturn] at hsummary
  exact (Option.some.inj hsummary).symm

theorem transcriptOf_of_unread {read : JsString → Option Bytes} {limit : JsNumber}
    (h : Sessions.Transcript.readTranscript read s limit = none) : transcriptOf s = none := by
  unfold Sessions.Transcript.readTranscript at h
  unfold transcriptOf
  cases hpath : s.transcriptPath with
  | none => rfl
  | some path => cases path with
    | nil => rfl
    | cons u path =>
      rw [hpath] at h
      cases h

/-! ## Injects -/

/-- An inject for a session of the snapshot does what its entry promises of a forced one. -/
theorem injectAs_promised (hsame : SameMachine w env) (hs : s ∈ sessions)
    (hentry : EntryOf env disk sessions s e) (hone : OnePane w.tmux s.pid) (hpid : 1 < s.pid)
    (caller : Tmux.Audit.Caller) (text : JsString) :
    ProviderEnds (injectAs caller w s text) (promised w.sendFailure.isSome e (forced s.pid text)).1 ∧
      traces (injectAs caller w s text).effects = (promised w.sendFailure.isSome e (forced s.pid text)).2 := by
  have hpane : findPaneForPid w.tmux s.pid none = e.tmux := by
    rw [← hentry.pid, ← hsame.tmux] at hone
    rw [← hentry.pid, ← hsame.tmux]
    exact (entry_pane hs hentry hone (by rw [hentry.pid]; exact hpid)).symm
  unfold injectAs promised forced
  rw [hpane, hentry.repo, hentry.pid]
  cases e.tmux with
  | none => exact ⟨rfl, rfl⟩
  | some pane =>
    cases w.sendFailure with
    | some message => exact ⟨⟨_, message, rfl⟩, rfl⟩
    | none => exact ⟨⟨_, _, _, rfl, rfl, rfl, rfl⟩, rfl⟩

/-! ## The providers -/

theorem claudeCode_agrees (hsame : SameMachine w env) (hfresh : fresh env.cache env.now = none)
    (hs : s ∈ claudeCodeDiscover w.host) (hentry : EntryOf env disk (claudeCodeDiscover w.host) s e)
    (hone : OnePane w.tmux s.pid) (hpid : 1 < s.pid) : Agrees claudeCodeProvider w env disk s e := by
  have howns : OwnsPid (claudeCodeDiscover w.host) s := ownsPid_discoverBy hs
  refine ⟨?_, ?_, ?_, injectAs_promised hsame hs hentry hone hpid .claudeCode⟩
  · rw [hentry.status, statusAt_eq hfresh howns]
    rfl
  · intro hunread
    obtain ⟨limit, hunread⟩ := hunread
    exact summary_null hentry howns (transcriptOf_of_unread hunread)
  · obtain ⟨sug, hsug, -, haction, hconfidence⟩ := hentry.suggestion
    exact ⟨sug, hsug, by rw [haction], hconfidence.symm⟩

/-- A stub knows nothing of a session, and there is nothing to know. -/
theorem stub_agrees {m : JsString → Bool} {provider : AgentProvider} {caller : Tmux.Audit.Caller}
    {text actionReason reason : JsString} (hsame : SameMachine w env)
    (hfresh : fresh env.cache env.now = none) (hs : s ∈ discoverBy m (fun _ => (none, none)) w.host)
    (hentry : EntryOf env disk (discoverBy m (fun _ => (none, none)) w.host) s e)
    (hone : OnePane w.tmux s.pid) (hpid : 1 < s.pid) :
    Agrees (stubProvider provider caller text actionReason reason) w env disk s e := by
  have howns := ownsPid_discoverBy hs
  have hpath : transcriptOf s = none := by
    unfold transcriptOf
    rw [discoverBy_unread hs]
    rfl
  have hidle : e.status = .idle := by
    rw [hentry.status, statusAt_eq hfresh howns, deriveRefinedStatus, hpath]
  refine ⟨hidle.symm, fun _ => summary_null hentry howns hpath, ?_,
    injectAs_promised hsame hs hentry hone hpid caller⟩
  obtain ⟨sug, hsug, -, haction, hconfidence⟩ := hentry.suggestion
  rw [hidle] at hsug
  cases Except.ok.inj hsug
  exact ⟨_, rfl, by rw [haction]; rfl, hconfidence.symm⟩

/-- The first of two sessions in one directory. -/
def firstShared : LocalSession := ⟨100, js "/w", js "w", none, none⟩

end Conductor.Providers.BuiltIns
