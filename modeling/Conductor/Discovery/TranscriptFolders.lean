import Mathlib.Data.List.Forall2
import Conductor.Discovery.Providers
import Conductor.Sessions.RefinedStatus

/-! # The folders that sessions find their transcripts in

A working directory names its folder under `~/.claude/projects` by its path with
dashes for the slashes. The name does not say which dashes were slashes. -/
namespace Conductor.Discovery.TranscriptFolders
open Conductor.Js.Text Conductor.Sessions.Types Conductor.Discovery.Providers
open Conductor.Sessions.RefinedStatus

/-- `join(homedir(), ".claude", "projects", encodeProjectPath(cwd))`. -/
def folderOf (h : Host) (cwd : JsString) : JsString :=
  h.projectsRoot ++ js "/" ++ encodeProjectPath cwd

/-- One of the entries of the folder is a `.jsonl` file that `stat` finds. -/
def HasTranscript (h : Host) (folder : JsString) : Prop :=
  ∃ entries, h.readdir folder = some entries ∧ ∃ name ∈ entries,
    (js ".jsonl").isSuffixOf name = true ∧ (h.mtimeMs (folder ++ js "/" ++ name)).isSome = true

/-- Paths that differ only in which of their separators are slashes and which are dashes. -/
def Alike (a b : JsString) : Prop :=
  List.Forall₂ (fun u v => u = v ∨ ((u = 0x2F ∨ u = 0x2D) ∧ (v = 0x2F ∨ v = 0x2D))) a b

/-! ## The name of a folder -/

theorem encode_unit_iff (u v : UInt16) :
    (if u = 0x2F then (0x2D : UInt16) else u) = (if v = 0x2F then 0x2D else v) ↔
      u = v ∨ ((u = 0x2F ∨ u = 0x2D) ∧ (v = 0x2F ∨ v = 0x2D)) := by
  split_ifs with hu hv hv
  · simp [hu, hv]
  · simp only [hu, hv, true_or, true_and, false_or]
    exact ⟨fun h => .inr h.symm, fun h => (h.resolve_left fun h => hv h.symm).symm⟩
  · simp only [hu, hv, false_or, true_or, and_true]
  · simp only [hu, hv, false_or]
    exact ⟨.inl, fun h => h.elim id fun ⟨h, h'⟩ => h.trans h'.symm⟩

theorem encodeProjectPath_eq_iff {a b : JsString} :
    encodeProjectPath a = encodeProjectPath b ↔ Alike a b := by
  unfold encodeProjectPath Alike
  rw [← List.forall₂_eq_eq_eq, List.forall₂_map_left_iff, List.forall₂_map_right_iff]
  simp only [encode_unit_iff]

theorem slash_not_mem_encode (cwd : JsString) : 0x2F ∉ encodeProjectPath cwd := by
  intro h
  obtain ⟨u, -, hu⟩ := List.mem_map.mp h
  split at hu
  · cases hu
  · contradiction

/-- A path under the root says which folder it is in. -/
theorem folderOf_inj {h : Host} {a b name name' : JsString}
    (he : folderOf h a ++ js "/" ++ name = folderOf h b ++ js "/" ++ name') :
    encodeProjectPath a = encodeProjectPath b := by
  unfold folderOf at he
  simp only [List.append_assoc] at he
  have htail := List.append_cancel_left (List.append_cancel_left he)
  have hcut : ∀ c rest : JsString,
      (encodeProjectPath c ++ (js "/" ++ rest)).takeWhile (· != 0x2F) = encodeProjectPath c := by
    intro c rest
    rw [List.takeWhile_append_of_pos]
    · exact List.append_nil _
    · intro u hu
      simp only [bne_iff_ne]
      rintro rfl
      exact slash_not_mem_encode c hu
  rw [← hcut a name, ← hcut b name', htail]

/-! ## The newest file of a folder -/

theorem newestTranscript_snoc (h : Host) (root : JsString) (entries : List JsString)
    (name : JsString) : newestTranscript h root (entries ++ [name]) =
      if (js ".jsonl").isSuffixOf name then
        match h.mtimeMs (root ++ js "/" ++ name), newestTranscript h root entries with
        | some mtime, some (_, best) =>
          if best < mtime then some (root ++ js "/" ++ name, mtime) else newestTranscript h root entries
        | some mtime, none => some (root ++ js "/" ++ name, mtime)
        | none, _ => newestTranscript h root entries
      else newestTranscript h root entries := by
  rw [newestTranscript, List.foldl_append]
  rfl

/-- What is found is a file of the folder. -/
theorem newestTranscript_path {h : Host} {root : JsString} {entries : List JsString}
    {found : JsString × Rat} (hf : newestTranscript h root entries = some found) :
    ∃ name, found.1 = root ++ js "/" ++ name := by
  induction entries using List.reverseRecOn with
  | nil => cases hf
  | append_singleton entries name ih =>
    rw [newestTranscript_snoc] at hf
    split at hf
    · split at hf
      · split at hf
        · cases hf
          exact ⟨name, rfl⟩
        · exact ih hf
      · cases hf
        exact ⟨name, rfl⟩
      · exact ih hf
    · exact ih hf

theorem newestTranscript_isSome {h : Host} {root : JsString} {entries : List JsString} :
    (newestTranscript h root entries).isSome = true ↔ ∃ name ∈ entries,
      (js ".jsonl").isSuffixOf name = true ∧ (h.mtimeMs (root ++ js "/" ++ name)).isSome = true := by
  induction entries using List.reverseRecOn with
  | nil => simp [newestTranscript]
  | append_singleton entries name ih =>
    have hmem : (∃ n ∈ entries ++ [name], (js ".jsonl").isSuffixOf n = true ∧
          (h.mtimeMs (root ++ js "/" ++ n)).isSome = true) ↔
        (newestTranscript h root entries).isSome = true ∨ ((js ".jsonl").isSuffixOf name = true ∧
          (h.mtimeMs (root ++ js "/" ++ name)).isSome = true) := by
      rw [ih]
      simp only [List.mem_append, List.mem_singleton, or_and_right, exists_or, exists_eq_left]
    rw [hmem, newestTranscript_snoc]
    by_cases hsuffix : (js ".jsonl").isSuffixOf name = true
    · rw [if_pos hsuffix]
      cases hm : h.mtimeMs (root ++ js "/" ++ name) with
      | none => simp
      | some mtime =>
        cases hn : newestTranscript h root entries with
        | none => simp [hsuffix]
        | some best =>
          simp only [Option.isSome_some, true_or, iff_true]
          split
          · rfl
          · rfl
    · rw [if_neg hsuffix]
      simp [hsuffix]

theorem findTranscriptForCwd_eq (h : Host) (cwd : JsString) : findTranscriptForCwd h cwd =
    (h.readdir (folderOf h cwd)).bind fun entries =>
      (newestTranscript h (folderOf h cwd) entries).map Prod.fst := by
  unfold findTranscriptForCwd
  simp only [Option.bind_eq_bind, Option.pure_def]
  refine congrArg _ (funext fun entries => ?_)
  rw [Option.map_eq_bind]
  rfl

theorem findTranscriptForCwd_isSome {h : Host} {cwd : JsString} :
    (findTranscriptForCwd h cwd).isSome = true ↔ HasTranscript h (folderOf h cwd) := by
  rw [findTranscriptForCwd_eq]
  unfold HasTranscript
  cases h.readdir (folderOf h cwd) with
  | none => simp
  | some entries =>
    simp only [Option.bind_some, Option.isSome_map, newestTranscript_isSome, Option.some.injEq]
    exact ⟨fun hn => ⟨entries, rfl, hn⟩, fun ⟨_, he, hn⟩ => he ▸ hn⟩

theorem findTranscriptForCwd_path {h : Host} {cwd path : JsString}
    (hp : findTranscriptForCwd h cwd = some path) : ∃ name, path = folderOf h cwd ++ js "/" ++ name := by
  rw [findTranscriptForCwd_eq] at hp
  obtain ⟨entries, -, hp⟩ := Option.bind_eq_some_iff.mp hp
  obtain ⟨found, hf, rfl⟩ := Option.map_eq_some_iff.mp hp
  exact newestTranscript_path hf

/-- Directories with the same folder have the same transcript, and others have none in common. -/
theorem sharedTranscript_iff {h : Host} {a b : JsString} :
    (∃ path, findTranscriptForCwd h a = some path ∧ findTranscriptForCwd h b = some path) ↔
      Alike a b ∧ HasTranscript h (folderOf h a) := by
  rw [← encodeProjectPath_eq_iff, ← findTranscriptForCwd_isSome, Option.isSome_iff_exists]
  constructor
  · intro hshared
    obtain ⟨path, ha, hb⟩ := hshared
    obtain ⟨name, hname⟩ := findTranscriptForCwd_path ha
    obtain ⟨name', hname'⟩ := findTranscriptForCwd_path hb
    exact ⟨folderOf_inj (hname.symm.trans hname'), path, ha⟩
  · intro hsame
    obtain ⟨he, path, ha⟩ := hsame
    have hfolder : findTranscriptForCwd h b = findTranscriptForCwd h a := by
      simp only [findTranscriptForCwd_eq, folderOf, he]
    exact ⟨path, ha, hfolder.trans ha⟩

/-! ## The sessions -/

theorem discovered_transcript {h : Host} {s : LocalSession} (hs : s ∈ claudeCodeDiscover h) :
    s.transcriptPath = findTranscriptForCwd h s.cwd := by
  obtain ⟨p, -, rfl⟩ := List.mem_map.mp hs
  rfl

/-- No transcript is given to both sessions. -/
def Apart (s t : LocalSession) : Prop :=
  ∀ path, s.transcriptPath = some path → t.transcriptPath ≠ some path

/-- Two sessions are kept apart unless their paths are alike and their folder has
a transcript to give. -/
theorem transcripts_apart_iff {h : Host} {s t : LocalSession} (hs : s ∈ claudeCodeDiscover h)
    (ht : t ∈ claudeCodeDiscover h) :
    Apart s t ↔ ¬ Alike s.cwd t.cwd ∨ ¬ HasTranscript h (folderOf h s.cwd) := by
  unfold Apart
  rw [discovered_transcript hs, discovered_transcript ht, ← not_and_or, ← sharedTranscript_iff]
  simp only [not_exists, not_and, ne_eq]

/-- Two checkouts, `/w/my/app` and `/w/my-app`. Only one transcript was ever written. -/
def twoCheckouts (other : JsString) : Host :=
  { processes := [⟨100, 1, js "/usr/local/bin/claude"⟩, ⟨200, 1, js "/usr/local/bin/claude"⟩]
    lsof := fun pid => some (js "fcwd\nn" ++ if pid = 100 then js "/w/my/app" else other)
    processCwd := js "/", git := fun _ => none, projectsRoot := js "/home/.claude/projects"
    readdir := fun folder =>
      if folder = js "/home/.claude/projects/-w-my-app" then some [js "a.jsonl"] else none
    mtimeMs := fun _ => some 0 }

def appSession : LocalSession :=
  ⟨100, js "/w/my/app", js "app", none, some (js "/home/.claude/projects/-w-my-app/a.jsonl")⟩

def otherSession : LocalSession := ⟨200, js "/w/your-app", js "your-app", none, none⟩

theorem transcripts_apart_others : appSession ∈ claudeCodeDiscover (twoCheckouts (js "/w/your-app")) ∧
    otherSession ∈ claudeCodeDiscover (twoCheckouts (js "/w/your-app")) ∧ Apart appSession otherSession := by
  have happ : appSession ∈ claudeCodeDiscover (twoCheckouts (js "/w/your-app")) := by decide +kernel
  have hother : otherSession ∈ claudeCodeDiscover (twoCheckouts (js "/w/your-app")) := by decide +kernel
  refine ⟨happ, hother, (transcripts_apart_iff happ hother).mpr (.inl fun h => ?_)⟩
  have hlength : (js "/w/my/app").length = (js "/w/your-app").length := h.length_eq
  revert hlength
  decide

/-- The session in `/w/my-app` is given the transcript of the session in `/w/my/app`, and whatever
that file says, the status that it says for the other. -/
theorem transcript_shared : ∃ s ∈ claudeCodeDiscover (twoCheckouts (js "/w/my-app")),
    ∃ t ∈ claudeCodeDiscover (twoCheckouts (js "/w/my-app")),
      s.cwd = js "/w/my/app" ∧ t.cwd = js "/w/my-app" ∧
      s.transcriptPath = some (js "/home/.claude/projects/-w-my-app/a.jsonl") ∧
      t.transcriptPath = s.transcriptPath ∧
      ∀ disk now, deriveRefinedStatus disk now t none = deriveRefinedStatus disk now s none :=
  ⟨appSession, by decide +kernel,
    ⟨200, js "/w/my-app", js "my-app", none, some (js "/home/.claude/projects/-w-my-app/a.jsonl")⟩,
    by decide +kernel, rfl, rfl, rfl, rfl, fun _ _ => rfl⟩

end Conductor.Discovery.TranscriptFolders
