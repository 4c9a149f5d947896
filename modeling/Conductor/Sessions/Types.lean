import Mathlib.Data.List.Nodup
import Conductor.Js.Values

/-! # The records shared by discovery, snapshots and injection

`LocalSession` keeps the fields that discovery computes; the others are
constants of every built-in provider and no modelled function reads them. -/
namespace Conductor.Sessions.Types
open Conductor.Js.Text Conductor.Js.Number Conductor.Js.Values

structure LocalSession where
  pid : Int
  cwd : JsString
  repoName : JsString
  branch : Option JsString
  transcriptPath : Option JsString
  deriving DecidableEq

inductive RefinedStatus
  | awaiting_user_input
  | tool_pending
  | crashed
  | working
  | idle
  deriving DecidableEq

inductive Confidence
  | low
  | medium
  | high
  deriving DecidableEq

inductive Action
  | inject (text : JsString)
  | abort
  | restart
  | none (reason : Option JsString)
  deriving DecidableEq

structure Suggestion where
  text : JsString
  action : Action
  confidence : Confidence
  reason : JsString
  deriving DecidableEq

inductive AuditSource
  | userApproved
  | auto
  | skill
  deriving DecidableEq

inductive AuditAction
  | inject
  | abort
  | restart
  deriving DecidableEq

structure AuditEntry where
  ts : JsNumber
  pid : JsNumber
  repo : JsString
  action : AuditAction
  text : Option JsString
  source : AuditSource
  confidence : Option Confidence
  reason : Option JsString
  deriving DecidableEq

/-- A `Map` keyed by pid, filled by one `set` after another. -/
abbrev PidMap (α : Type) := List (Int × α)

/-- `map.get(pid)`: the last value set. -/
def PidMap.get? {α : Type} (m : PidMap α) (pid : Int) : Option α := m.reverse.lookup pid

/-- `map.entries()`: each key once, where it was first set, with its value. -/
def PidMap.entries {α : Type} (m : PidMap α) : List (Int × α) :=
  (m.map Prod.fst).eraseDups.filterMap fun pid => (m.get? pid).map fun v => (pid, v)

theorem PidMap.get?_nil {α : Type} (pid : Int) : PidMap.get? ([] : PidMap α) pid = none := rfl

theorem PidMap.get?_append {α : Type} (m n : PidMap α) (pid : Int) :
    PidMap.get? (m ++ n) pid = (PidMap.get? n pid).or (PidMap.get? m pid) := by
  unfold PidMap.get?
  rw [List.reverse_append, List.lookup_append]

theorem PidMap.get?_snoc {α : Type} (m : PidMap α) (key pid : Int) (v : α) :
    PidMap.get? (m ++ [(key, v)]) pid = if pid = key then some v else PidMap.get? m pid := by
  rw [PidMap.get?_append]
  by_cases h : pid = key
  · simp [PidMap.get?, h]
  · have hne : (pid == key) = false := by simpa using h
    simp [PidMap.get?, List.lookup_cons, hne, h]

/-- The last element with the given pid decides the lookup. -/
theorem PidMap.get?_map {α β : Type} (l : List β) (key : β → Int) (g : β → α) (pid : Int) :
    PidMap.get? (l.map fun b => (key b, g b)) pid = (l.reverse.find? fun b => key b == pid).map g := by
  induction l using List.reverseRecOn with
  | nil => rfl
  | append_singleton l b ih =>
    rw [List.map_append, List.map_singleton, PidMap.get?_snoc, ih, List.reverse_append,
      List.reverse_singleton, List.singleton_append, List.find?_cons]
    by_cases h : pid = key b
    · simp [h]
    · have hne : (key b == pid) = false := by
        rw [beq_eq_false_iff_ne]
        exact Ne.symm h
      rw [if_neg h, hne]

/-- A lookup finds a value that was set for the pid. -/
theorem PidMap.mem_of_get? {α : Type} {m : PidMap α} {pid : Int} {v : α}
    (h : PidMap.get? m pid = some v) : (pid, v) ∈ m := by
  induction m using List.reverseRecOn with
  | nil => simp [PidMap.get?] at h
  | append_singleton m p ih =>
    obtain ⟨key, w⟩ := p
    rw [PidMap.get?_snoc] at h
    split at h
    · rename_i hk
      cases h
      simp [hk]
    · simp [ih h]

/-- A pid that was set has a value. -/
theorem PidMap.get?_isSome {α : Type} {m : PidMap α} {pid : Int} :
    (PidMap.get? m pid).isSome = true ↔ pid ∈ m.map Prod.fst := by
  induction m using List.reverseRecOn with
  | nil => simp [PidMap.get?]
  | append_singleton m p ih =>
    obtain ⟨key, w⟩ := p
    rw [PidMap.get?_snoc]
    by_cases h : pid = key
    · simp [h]
    · simp [h, ih]

/-- A map whose pids were set once has every value that was set. -/
theorem PidMap.get?_of_mem {α : Type} {m : PidMap α} (h : (m.map Prod.fst).Nodup) {pid : Int} {v : α}
    (hm : (pid, v) ∈ m) : PidMap.get? m pid = some v := by
  have hkey : pid ∈ m.map Prod.fst := List.mem_map_of_mem hm
  obtain ⟨w, hw⟩ := Option.isSome_iff_exists.mp (PidMap.get?_isSome.mpr hkey)
  have hsame : (pid, w) = (pid, v) := List.inj_on_of_nodup_map h (PidMap.mem_of_get? hw) hm rfl
  cases hsame
  exact hw

theorem nodup_eraseDups {α : Type} [BEq α] [LawfulBEq α] (l : List α) : l.eraseDups.Nodup := by
  induction hn : l.length using Nat.strong_induction_on generalizing l with
  | _ n ih =>
    cases l with
    | nil => exact List.nodup_nil
    | cons a l =>
      rw [List.eraseDups_cons, List.nodup_cons, List.mem_eraseDups]
      refine ⟨by simp, ih _ ?_ _ rfl⟩
      rw [← hn, List.length_cons]
      exact Nat.lt_succ_of_le (List.length_filter_le _ _)

/-- The entries are the values that a lookup finds. -/
theorem PidMap.mem_entries {α : Type} {m : PidMap α} {e : Int × α} :
    e ∈ m.entries ↔ m.get? e.1 = some e.2 := by
  unfold PidMap.entries
  rw [List.mem_filterMap]
  constructor
  · intro h
    obtain ⟨pid, -, h⟩ := h
    obtain ⟨v, hv, rfl⟩ := Option.map_eq_some_iff.mp h
    exact hv
  · intro h
    refine ⟨e.1, ?_, by rw [h]; rfl⟩
    rw [List.mem_eraseDups, ← PidMap.get?_isSome, h]
    rfl

theorem PidMap.entries_keys {α : Type} (m : PidMap α) :
    m.entries.map Prod.fst = (m.map Prod.fst).eraseDups := by
  unfold PidMap.entries
  rw [List.map_filterMap]
  calc List.filterMap (fun pid => ((m.get? pid).map fun v => (pid, v)).map Prod.fst)
        (m.map Prod.fst).eraseDups
      = List.filterMap some (m.map Prod.fst).eraseDups := by
        refine List.filterMap_congr fun pid hpid => ?_
        rw [List.mem_eraseDups, ← PidMap.get?_isSome] at hpid
        obtain ⟨v, hv⟩ := Option.isSome_iff_exists.mp hpid
        rw [hv]
        rfl
    _ = (m.map Prod.fst).eraseDups := List.filterMap_some

/-! ## Sessions in directories of their own -/

def claudeSession : LocalSession := ⟨100, js "/a", js "a", none, none⟩
def aiderSession : LocalSession := ⟨200, js "/b", js "b", none, none⟩

/-- The first one with a transcript. -/
def sessionA : LocalSession := { claudeSession with transcriptPath := some (js "/a.jsonl") }

end Conductor.Sessions.Types
