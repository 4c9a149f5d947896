import Conductor.Cli.ConflictAgreement
import Conductor.Cli.InjectAgreement
import Conductor.Sessions.NestedDirs

/-! # Conflicts of sessions whose directory is not known

Discovery puts the daemon's own directory where `lsof` finds none, and the lock
compares what discovery put there. -/
namespace Conductor.Cli.UnknownCwd
open Conductor.Lib.Paths Conductor.Js Conductor.Js.Text Conductor.Js.Number Conductor.Js.Values
open Conductor.Sessions.Types Conductor.Sessions.Lock Conductor.Sessions.NestedDirs
open Conductor.Sessions.RefinedStatus Conductor.Sessions.Snapshot
open Conductor.Discovery.Providers Conductor.Tmux.TmuxMap Conductor.Tmux.Effects
open Conductor.Mcp.Tools Conductor.Cli.InjectCmd Conductor.Cli.ConflictAgreement
open Conductor.Cli.InjectAgreement (ToolEnds CmdEnds Ending toolEnds_unique cmdEnds_unique)

/-! ## What the claims of a conflict mean -/

def Known (h : Host) (pid : Int) : Prop := (cwdOf h pid).isSome = true

/-- Where the directory found for a process resolves, the process is there. -/
def Reported (w : World) (actual : Int → Path) : Prop :=
  ∀ pid dir r, cwdOf w.host pid = some dir → w.fs.realpath dir = some r → r = (actual pid).text

/-- A snapshot of some provider's sessions shows `i` in conflict with `j`. -/
def Marked (w : World) (i j : Int) : Prop :=
  ∃ name sessions env disk E, discoverSessions w.host name = .ok sessions ∧ env.fs = w.fs ∧
    buildSnapshot env disk sessions = .ok E ∧ ∃ e ∈ E, e.pid = i ∧ e.conflict = some j

/-- Some inject into `i` without force is refused for `j`. -/
def Refused (w : World) (i j : Int) : Prop :=
  ∃ r path, r.target = some ((i : Rat), false) ∧ RefusedFor w j path r

/-- Both directories are known, and one process works inside the directory of the other. -/
structure Justified (w : World) (actual : Int → Path) (i j : Int) : Prop where
  known : Known w.host i ∧ Known w.host j
  nested : actual i ≤ actual j ∨ actual j ≤ actual i

/-- If two sessions are in conflict, their directories are known. -/
def KnownIfConflict (w : World) (s o : LocalSession) : Prop :=
  detectConflict w.fs s.cwd o.cwd = true → Known w.host s.pid ∧ Known w.host o.pid

/-- Every session that some provider discovers; a process may be there more than once. -/
def allSessions (h : Host) : List LocalSession := allProviders.flatMap fun p => p.discover h

/-! ## The lock on directories that are known -/

theorem detectConflict_nested {fs : Fs} {a b : JsString} (h : detectConflict fs a b = true) :
    ∃ ra rb, fs.realpath a = some ra ∧ fs.realpath b = some rb ∧
      (ra = rb ∨ rb ++ js "/" <+: ra ∨ ra ++ js "/" <+: rb) := by
  unfold detectConflict at h
  cases ha : fs.realpath a with
  | none =>
    rw [ha] at h
    cases h
  | some ra =>
    cases hb : fs.realpath b with
    | none =>
      rw [ha, hb] at h
      cases h
    | some rb =>
      refine ⟨ra, rb, rfl, rfl, ?_⟩
      rw [ha, hb] at h
      simp only at h
      by_cases heq : ra = rb
      · exact .inl heq
      · rw [if_neg heq] at h
        by_cases hover : ((rb ++ js "/").isPrefixOf ra || (ra ++ js "/").isPrefixOf rb) = true
        · rw [Bool.or_eq_true, List.isPrefixOf_iff_prefix, List.isPrefixOf_iff_prefix] at hover
          exact .inr hover
        · rw [if_neg hover] at h
          cases h

variable {w : World} {actual : Int → Path}

/-- A conflict between directories that are known is one of the processes. -/
theorem justified_of_known (hactual : Reported w actual) {s o : LocalSession}
    (hs : s.cwd = sessionCwd w.host s.pid) (ho : o.cwd = sessionCwd w.host o.pid)
    (hc : detectConflict w.fs s.cwd o.cwd = true) (hknown : Known w.host s.pid ∧ Known w.host o.pid) :
    Justified w actual s.pid o.pid := by
  refine ⟨hknown, ?_⟩
  obtain ⟨hsKnown, hoKnown⟩ := hknown
  obtain ⟨sdir, hsdir⟩ := Option.isSome_iff_exists.mp hsKnown
  obtain ⟨odir, hodir⟩ := Option.isSome_iff_exists.mp hoKnown
  rw [hs, ho, sessionCwd, sessionCwd, hsdir, hodir] at hc
  obtain ⟨ra, rb, ha, hb, hrel⟩ := detectConflict_nested hc
  rw [hactual _ _ _ hsdir ha, hactual _ _ _ hodir hb] at hrel
  have hsep : js "/" = [0x2F] := rfl
  rw [hsep, text_prefix_iff, text_prefix_iff] at hrel
  rcases hrel with heq | hbelow | hbelow
  · exact .inl (text_injective heq).le
  · exact .inr hbelow.2.le
  · exact .inl hbelow.2.le

/-! ## Snapshots -/

theorem conflictOf_some {fs : Fs} {sessions : List LocalSession} {s : LocalSession} {i : Nat} {j : Int}
    (h : conflictOf fs sessions s i = some j) :
    ∃ k o, sessions[k]? = some o ∧ k ≠ i ∧ detectConflict fs s.cwd o.cwd = true ∧ o.pid = j := by
  obtain ⟨⟨o, k⟩, hfind, hpid⟩ := Option.map_eq_some_iff.mp h
  have hmem := List.mem_of_find?_eq_some hfind
  have htest := List.find?_some hfind
  simp only [Bool.and_eq_true, bne_iff_ne] at htest
  exact ⟨k, o, List.mem_zipIdx_iff_getElem?.mp hmem, htest.1, htest.2, hpid⟩

theorem conflictOf_isSome {fs : Fs} {sessions : List LocalSession} {s o : LocalSession} {i k : Nat}
    (hk : sessions[k]? = some o) (hne : k ≠ i) (hc : detectConflict fs s.cwd o.cwd = true) :
    ∃ j, conflictOf fs sessions s i = some j := by
  have hfind : (sessions.zipIdx.find? fun p => p.2 != i && detectConflict fs s.cwd p.1.cwd).isSome = true := by
    refine List.find?_isSome.mpr ⟨(o, k), List.mem_zipIdx_iff_getElem?.mpr hk, ?_⟩
    simp only [Bool.and_eq_true, bne_iff_ne]
    exact ⟨hne, hc⟩
  obtain ⟨p, hp⟩ := Option.isSome_iff_exists.mp hfind
  exact ⟨p.1.pid, by rw [conflictOf, hp]; rfl⟩

/-- The map has the conflict of the last session with the pid. -/
theorem conflictMap_last (fs : Fs) {sessions : List LocalSession} {s : LocalSession} (hs : s ∈ sessions) :
    ∃ i m, sessions[i]? = some m ∧ m.pid = s.pid ∧
      (conflictMapOf fs sessions).get? s.pid = some (conflictOf fs sessions m i) := by
  have hsome : ((conflictMapOf fs sessions).get? s.pid).isSome = true := by
    rw [PidMap.get?_isSome]
    unfold conflictMapOf
    rw [List.map_map]
    obtain ⟨i, hi⟩ := List.mem_iff_getElem?.mp hs
    exact List.mem_map.mpr ⟨(s, i), List.mem_zipIdx_iff_getElem?.mpr hi, rfl⟩
  obtain ⟨v, hv⟩ := Option.isSome_iff_exists.mp hsome
  obtain ⟨⟨m, i⟩, hmem, hpair⟩ := List.mem_map.mp (PidMap.mem_of_get? hv)
  obtain ⟨hpid, hval⟩ := Prod.mk.inj hpair
  exact ⟨i, m, List.mem_zipIdx_iff_getElem?.mp hmem, hpid, by rw [hv, ← hval]⟩

section Marks

variable {env : Env} {disk : Disk} {sessions : List LocalSession} {E : List SnapshotEntry}

/-- What an entry is marked with is a session in conflict, at another position. -/
theorem conflict_of_mark (hE : buildSnapshot env disk sessions = .ok E) {e : SnapshotEntry} (he : e ∈ E)
    {j : Int} (hj : e.conflict = some j) :
    ∃ (i k : Nat) (s o : LocalSession), sessions[i]? = some s ∧ sessions[k]? = some o ∧ k ≠ i ∧
      s.pid = e.pid ∧ o.pid = j ∧ detectConflict env.fs s.cwd o.cwd = true := by
  obtain ⟨_, s, hs, hentry⟩ := session_of_entry hE he
  obtain ⟨i, m, hi, hpid, hget⟩ := conflictMap_last env.fs (List.mem_of_getElem? hs)
  have hconflict := hentry.conflict
  rw [hget, Option.join_some, hj] at hconflict
  obtain ⟨k, o, hk, hne, hc, hopid⟩ := conflictOf_some hconflict.symm
  exact ⟨i, k, m, o, hi, hk, hne, hpid.trans hentry.pid.symm, hopid, hc⟩

/-- Of two sessions in conflict, both are marked. -/
theorem mark_of_conflict {h : Host} (hcwd : ∀ s ∈ sessions, s.cwd = sessionCwd h s.pid)
    (hE : buildSnapshot env disk sessions = .ok E) {i k : Nat} {s o : LocalSession}
    (hi : sessions[i]? = some s) (hk : sessions[k]? = some o) (hne : i ≠ k)
    (hc : detectConflict env.fs s.cwd o.cwd = true) :
    ∃ e ∈ E, e.pid = s.pid ∧ ∃ j, e.conflict = some j := by
  have hs := List.mem_of_getElem? hi
  obtain ⟨e, he, hentry⟩ := entry_of_mem hE hs
  refine ⟨e, he, hentry.pid, ?_⟩
  obtain ⟨l, m, hl, hpid, hget⟩ := conflictMap_last env.fs hs
  have hsame : m.cwd = s.cwd := by
    rw [hcwd s hs, hcwd m (List.mem_of_getElem? hl), hpid]
  rw [hentry.conflict, hget, Option.join_some]
  -- the last session with the pid may be the other one of the two
  by_cases hkl : k = l
  · subst hkl
    cases hk.symm.trans hl
    refine conflictOf_isSome hi hne ?_
    rw [detectConflict_comm]
    exact hc
  · refine conflictOf_isSome hk hkl ?_
    rw [hsame]
    exact hc

theorem KnownIfConflict.symm {s o : LocalSession} (h : KnownIfConflict w s o) : KnownIfConflict w o s :=
  fun hc => (h (by rw [detectConflict_comm]; exact hc)).symm

instance : Std.Symm (KnownIfConflict w) := ⟨fun _ _ => KnownIfConflict.symm⟩

/-- All marks of a snapshot are between known directories, exactly when all conflicts are. -/
theorem marks_known_iff (hfs : env.fs = w.fs) (hcwd : ∀ s ∈ sessions, s.cwd = sessionCwd w.host s.pid)
    (hE : buildSnapshot env disk sessions = .ok E) :
    (∀ e ∈ E, ∀ j, e.conflict = some j → Known w.host e.pid ∧ Known w.host j) ↔
      sessions.Pairwise (KnownIfConflict w) := by
  rw [List.pairwise_iff_getElem]
  constructor
  · intro hmarks i k hi hk hlt hc
    have hone := List.getElem?_eq_getElem hi
    have htwo := List.getElem?_eq_getElem hk
    rw [← hfs] at hc
    obtain ⟨e, he, hpid, j, hj⟩ := mark_of_conflict hcwd hE hone htwo hlt.ne hc
    rw [detectConflict_comm] at hc
    obtain ⟨e', he', hpid', j', hj'⟩ := mark_of_conflict hcwd hE htwo hone hlt.ne' hc
    exact ⟨hpid ▸ (hmarks e he j hj).1, hpid' ▸ (hmarks e' he' j' hj').1⟩
  · intro hpairs e he j hj
    obtain ⟨i, k, s, o, hi, hk, hne, hpid, hopid, hc⟩ := conflict_of_mark hE he hj
    obtain ⟨hilt, rfl⟩ := List.getElem?_eq_some_iff.mp hi
    obtain ⟨hklt, rfl⟩ := List.getElem?_eq_some_iff.mp hk
    rw [hfs] at hc
    rw [← hpid, ← hopid]
    rcases Nat.lt_or_gt_of_ne hne with hlt | hlt
    · exact (KnownIfConflict.symm (hpairs k i hklt hilt hlt)) hc
    · exact hpairs i k hilt hklt hlt hc

end Marks

/-! ## Refusals -/

theorem readInjectArgs_error {args : Json} {e : JsError} (h : readInjectArgs args = .error e) :
    ∃ t, e = .error (js "missing required arg: " ++ t) := by
  unfold readInjectArgs at h
  split at h
  · cases h
    exact ⟨js "pid (number)", rfl⟩
  · split at h
    · cases h
      exact ⟨js "text (string)", rfl⟩
    · split at h
      · cases h
        exact ⟨js "approve === true (explicit safety gate)", rfl⟩
      · cases h

/-- The ending of the tool, past its arguments. -/
theorem injectWith_ends {a : InjectArgs} {i : Int} (hpid : a.pid = (i : Rat)) :
    ∃ e, ToolEnds i (injectWith w a) e ∧ ∀ j, e = .collision j →
      ∃ m o, lockConflict w a.force (targetSession w a.pid) = some (m, o) ∧ o.pid = j := by
  unfold injectWith
  cases findPaneForNumber w.tmux a.pid with
  | none => exact ⟨.noPane, by rw [hpid]; rfl, fun j h => by cases h⟩
  | some pane =>
    simp only
    cases hlock : lockConflict w a.force (targetSession w a.pid) with
    | some both =>
      obtain ⟨m, o⟩ := both
      refine ⟨.collision o.pid, ⟨m.cwd, rfl⟩, fun j h => ?_⟩
      cases h
      exact ⟨m, o, rfl, rfl⟩
    | none =>
      cases hdry : a.dryRun with
      | true => exact ⟨.dryRun, ⟨_, rfl, rfl⟩, fun j h => by cases h⟩
      | false =>
        cases w.sendFailure with
        | some message => exact ⟨.sendFailed, ⟨_, message, rfl⟩, fun j h => by cases h⟩
        | none => exact ⟨.sent, ⟨_, _, _, rfl, rfl⟩, fun j h => by cases h⟩

/-- The ending of the command, past its flags. -/
theorem injectPid_ends (f : InjectFlags) (pid : Int) (text : JsString) :
    ∃ e, CmdEnds pid (injectPid w f pid text) e ∧ ∀ j, e = .collision j →
      ∃ m o, lockConflict w f.force (targetSession w pid) = some (m, o) ∧ o.pid = j := by
  unfold injectPid
  cases findPaneForPid w.tmux pid none with
  | none => exact ⟨.noPane, rfl, fun j h => by cases h⟩
  | some pane =>
    simp only
    cases hlock : lockConflict w f.force (targetSession w pid) with
    | some both =>
      obtain ⟨m, o⟩ := both
      refine ⟨.collision o.pid, ⟨m.cwd, rfl⟩, fun j h => ?_⟩
      cases h
      exact ⟨m, o, rfl, rfl⟩
    | none =>
      cases hdry : f.dryRun with
      | true =>
        refine ⟨.dryRun, ⟨_, rfl, ?_⟩, fun j h => by cases h⟩
        cases f.json with
        | true => rfl
        | false => rfl
      | false =>
        cases w.sendFailure with
        | some message => exact ⟨.sendFailed, ⟨_, message, rfl⟩, fun j h => by cases h⟩
        | none =>
          refine ⟨.sent, ⟨_, _, _, rfl, ?_⟩, fun j h => by cases h⟩
          intro e he
          cases hjson : f.json with
          | true =>
            rw [hjson] at he
            rw [List.mem_singleton.mp he]
            rfl
          | false =>
            rw [hjson] at he
            rcases List.mem_cons.mp he with rfl | he
            · rfl
            · rw [List.mem_singleton.mp he]
              rfl

/-- A refusal for `j` is the lock's. -/
theorem lock_of_refusedFor {r : InjectRequest} {i j : Int} {path : JsString}
    (hr : r.target = some ((i : Rat), false)) (href : RefusedFor w j path r) :
    ∃ m o, lockConflict w false (targetSession w i) = some (m, o) ∧ o.pid = j := by
  cases r with
  | tool args =>
    simp only [RefusedFor, injectTool] at href
    cases ha : readInjectArgs args with
    | error e =>
      rw [ha] at href
      obtain ⟨t, rfl⟩ := readInjectArgs_error ha
      simp only [refuse, Outcome.mk.injEq, Except.error.injEq, JsError.error.injEq, true_and] at href
      -- `missing` against `precondition`
      have hunit : some (0x6D : UInt16) = some 0x70 := congrArg (·[0]?) href
      cases hunit
    | ok a =>
      rw [ha] at href
      obtain ⟨hpid, hforce⟩ := readInjectArgs_ok ha
      simp only [InjectRequest.target, hpid, Option.map_some, Option.some.injEq, Prod.mk.injEq] at hr
      obtain ⟨e, hends, hcollision⟩ := injectWith_ends (w := w) hr.1
      have he : e = .collision j := toolEnds_unique hends ⟨path, href⟩
      obtain ⟨m, o, hlock, hj⟩ := hcollision j he
      rw [hforce, hr.2, hr.1] at hlock
      exact ⟨m, o, hlock, hj⟩
  | cmd flags =>
    simp only [RefusedFor, injectCmd] at href
    -- the exit codes differ; the texts need not be looked at
    split at href
    · have hcode : (.ok 0 : Except JsError Nat) = .ok 3 := congrArg Outcome.result href
      cases hcode
    · split at href
      · rename_i pid text hpid htext
        simp only [InjectRequest.target, hpid, Option.map_some, Option.some.injEq, Prod.mk.injEq] at hr
        have hi : pid = i := by exact_mod_cast hr.1
        split at href
        · have hcode : (.ok 2 : Except JsError Nat) = .ok 3 := congrArg Outcome.result href
          cases hcode
        · obtain ⟨e, hends, hcollision⟩ := injectPid_ends (w := w) flags pid text
          have he : e = .collision j := cmdEnds_unique hends ⟨path, href⟩
          obtain ⟨m, o, hlock, hj⟩ := hcollision j he
          rw [hr.2, hi] at hlock
          exact ⟨m, o, hlock, hj⟩
      · have hcode : (.ok 2 : Except JsError Nat) = .ok 3 := congrArg Outcome.result href
        cases hcode

/-- A refusal is between two of the sessions that Claude Code's provider discovers. -/
theorem conflict_of_refused {i j : Int} (h : Refused w i j) :
    ∃ s ∈ claudeCodeDiscover w.host, ∃ o ∈ claudeCodeDiscover w.host, s.pid = i ∧ o.pid = j ∧ s ≠ o ∧
      detectConflict w.fs s.cwd o.cwd = true := by
  obtain ⟨r, path, hr, href⟩ := h
  obtain ⟨m, o, hlock, hj⟩ := lock_of_refusedFor hr href
  obtain ⟨s, hs, hbind⟩ := Option.bind_eq_some_iff.mp hlock
  obtain ⟨o', hfind, hpair⟩ := Option.map_eq_some_iff.mp hbind
  cases hpair
  have htest := List.find?_some hfind
  simp only [Bool.and_eq_true, bne_iff_ne] at htest
  have hi : m.pid = i := by
    have hfound := List.find?_some hs
    have hpid : ((m.pid : Rat) == (i : Rat)) = true := hfound
    have heq : (m.pid : Rat) = (i : Rat) := by simpa using hpid
    exact_mod_cast heq
  refine ⟨m, List.mem_of_find?_eq_some hs, o, List.mem_of_find?_eq_some hfind, hi, hj, ?_, htest.2⟩
  rintro rfl
  exact htest.1 rfl

/-! ## All providers -/

theorem allSessions_cwd {h : Host} {s : LocalSession} (hs : s ∈ allSessions h) :
    s.cwd = sessionCwd h s.pid := by
  obtain ⟨p, hp, hmem⟩ := List.mem_flatMap.mp hs
  exact discovered_cwd hp hmem

theorem sublist_allSessions {h : Host} {p : AgentProvider} (hp : p ∈ allProviders) :
    (p.discover h).Sublist (allSessions h) :=
  List.sublist_flatten_of_mem (List.mem_map.mpr ⟨p, hp, rfl⟩)

/-- What any name discovers is part of what there is to discover. -/
theorem discoverSessions_sublist {h : Host} {name : JsString} {sessions : List LocalSession}
    (hd : discoverSessions h name = .ok sessions) : sessions.Sublist (allSessions h) := by
  unfold discoverSessions at hd
  split at hd
  · cases hd
    exact List.Sublist.refl _
  · split at hd
    · rename_i p hp
      cases hd
      exact sublist_allSessions (List.mem_of_find?_eq_some hp)
    · cases hd

/-- A snapshot can be built where no transcript can be read. -/
theorem snapshot_without_transcripts (env : Env) (sessions : List LocalSession) :
    ∃ E, buildSnapshot env (fun _ => none) sessions = .ok E := by
  have hnone : ∀ s, lastTurnOf (fun _ => none) s = none := by
    intro s
    unfold lastTurnOf
    cases transcriptOf s with
    | none => rfl
    | some path => rfl
  refine buildSnapshot_ok_iff.mpr ⟨fun s _ => ?_, fun s _ o _ _ => ?_⟩
  · rw [hnone]
    rfl
  · rw [hnone]
    rfl

/-- For every process table: all conflicts that a snapshot shows or an inject is refused
for are justified, exactly when no two discovered sessions, at least one of them in a
directory that could not be determined, conflict where discovery puts them. -/
theorem conflicts_justified_iff (hactual : Reported w actual) :
    (∀ i j, Marked w i j ∨ Refused w i j → Justified w actual i j) ↔
      (allSessions w.host).Pairwise (KnownIfConflict w) := by
  constructor
  · intro hall
    let env : Env := ⟨w.fs, w.tmux, w.now, none⟩
    obtain ⟨E, hE⟩ := snapshot_without_transcripts env (allSessions w.host)
    refine (marks_known_iff rfl (fun s => allSessions_cwd) hE).mp fun e he j hj => ?_
    exact (hall e.pid j (.inl ⟨js "all", _, env, _, E, rfl, rfl, hE, e, he, rfl, hj⟩)).known
  · intro hpairs i j hconflict
    rcases hconflict with hmarked | hrefused
    · obtain ⟨name, sessions, env, disk, E, hname, hfs, hE, e, he, rfl, hj⟩ := hmarked
      have hsub := discoverSessions_sublist hname
      have hcwd : ∀ s ∈ sessions, s.cwd = sessionCwd w.host s.pid :=
        fun s hs => allSessions_cwd (hsub.subset hs)
      have hknown := (marks_known_iff hfs hcwd hE).mpr (hpairs.sublist hsub) e he j hj
      obtain ⟨i, k, s, o, hi, hk, -, hpid, rfl, hc⟩ := conflict_of_mark hE he hj
      rw [hfs] at hc
      rw [← hpid] at hknown ⊢
      exact justified_of_known hactual (hcwd s (List.mem_of_getElem? hi))
        (hcwd o (List.mem_of_getElem? hk)) hc hknown
    · obtain ⟨s, hs, o, ho, rfl, rfl, hne, hc⟩ := conflict_of_refused hrefused
      have hsub : (claudeCodeDiscover w.host).Sublist (allSessions w.host) :=
        sublist_allSessions (p := ⟨js "claude-code", claudeCodeDiscover⟩) (.head _)
      have hknown : KnownIfConflict w s o := (hpairs.sublist hsub).forall hs ho hne
      exact justified_of_known hactual (claudeCode_cwd hs) (claudeCode_cwd ho) hc (hknown hc)

def dirW : Path := ⟨[js "w"], by decide⟩

def dirV : Path := ⟨[js "v"], by decide⟩

/-- Two sessions in one known directory, and the refusal that follows from it. -/
theorem shared_directory_justified :
    Refused (twoProcesses claudeCommand claudeCommand (js "/w")) 100 200 ∧
      Justified (twoProcesses claudeCommand claudeCommand (js "/w")) (fun _ => dirW) 100 200 := by
  have hcwd : ∀ pid, cwdOf (twoProcesses claudeCommand claudeCommand (js "/w")).host pid = some (js "/w") := by
    intro pid
    have hlsof : (twoProcesses claudeCommand claudeCommand (js "/w")).host.lsof pid = some (js "fcwd\nn/w") := by
      simp only [twoProcesses, ite_self]
      rfl
    unfold cwdOf
    rw [hlsof]
    rfl
  have hreported : Reported (twoProcesses claudeCommand claudeCommand (js "/w")) fun _ => dirW := by
    intro pid dir r hdir hr
    rw [hcwd] at hdir
    cases hdir
    cases hr
    rfl
  have hall : allSessions (twoProcesses claudeCommand claudeCommand (js "/w")).host =
      [⟨100, js "/w", js "w", none, none⟩, ⟨200, js "/w", js "w", none, none⟩] := by decide +kernel
  have hknown : ∀ pid, Known (twoProcesses claudeCommand claudeCommand (js "/w")).host pid := by
    intro pid
    unfold Known
    rw [hcwd]
    rfl
  have hrefused : Refused (twoProcesses claudeCommand claudeCommand (js "/w")) 100 200 :=
    ⟨.tool approveArgs, js "/w", by decide +kernel, by rfl⟩
  refine ⟨hrefused, (conflicts_justified_iff hreported).mpr ?_ 100 200 (.inr hrefused)⟩
  rw [hall, List.pairwise_pair]
  exact fun _ => ⟨hknown 100, hknown 200⟩

/-- The same two processes in `/w` and `/v`, when `lsof` fails. -/
def unknownDirs : World :=
  let w := twoProcesses claudeCommand claudeCommand (js "/v")
  { w with host := { w.host with lsof := fun _ => none } }

/-- Sessions in unrelated directories are both taken to work where the daemon does: the
snapshot shows a conflict, and the inject is refused for it. -/
theorem daemon_directory_shared :
    ∃ actual, Reported unknownDirs actual ∧ Marked unknownDirs 100 200 ∧ Refused unknownDirs 100 200 ∧
      ¬ (actual 100 ≤ actual 200 ∨ actual 200 ≤ actual 100) := by
  refine ⟨fun pid => if pid = 100 then dirW else dirV, ?_, ?_, ?_, ?_⟩
  · intro pid dir r hdir
    cases hdir
  · obtain ⟨E, hE⟩ := snapshot_without_transcripts ⟨unknownDirs.fs, unknownDirs.tmux, 0, none⟩
      (claudeCodeDiscover unknownDirs.host)
    have hs : (⟨100, js "/", [], none, none⟩ : LocalSession) ∈ claudeCodeDiscover unknownDirs.host := by
      decide +kernel
    obtain ⟨e, he, hentry⟩ := entry_of_mem hE hs
    refine ⟨js "claude-code", _, _, _, E, by rfl, rfl, hE, e, he, hentry.pid, ?_⟩
    rw [hentry.conflict]
    decide +kernel
  · exact ⟨.tool approveArgs, js "/", by decide +kernel, by rfl⟩
  · show ¬ (dirW ≤ dirV ∨ dirV ≤ dirW)
    rw [le_def, le_def]
    decide

end Conductor.Cli.UnknownCwd
