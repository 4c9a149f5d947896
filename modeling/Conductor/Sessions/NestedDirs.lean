import Conductor.Lib.Paths
import Conductor.Sessions.Lock

/-! # What the cwd lock decides

The check as a statement about the directories between two canonical paths, and
the one place where the textual test for ancestry misses: the root directory. -/
namespace Conductor.Sessions.NestedDirs
open Conductor.Lib.Paths Conductor.Js.Text Conductor.Sessions.Lock

abbrev Path := AbsPath (0x2F : UInt16)

/-- `fs.realpath` delivers canonical paths, and leaves those alone. -/
structure Canonical (fs : Fs) : Prop where
  canonical : ∀ {a r}, fs.realpath a = some r → ∃ p : Path, r = p.text
  fixed : ∀ {a r}, fs.realpath a = some r → fs.realpath r = some r

/-- A directory that can be a git root. The filesystem root is none. -/
def GitDir (fs : Fs) (p : Path) : Prop := p ≠ ⊥ ∧ fs.stat (p.text ++ js "/.git") = true

def HasGitRoot (fs : Fs) (p : Path) : Prop := ∃ g, GitDir fs g ∧ g ≤ p

/-- `u` and `d` have git roots, and on the way from `u` down to `d` another one starts. -/
def Apart (fs : Fs) (u d : Path) : Prop :=
  HasGitRoot fs u ∧ HasGitRoot fs d ∧ ∃ g, u < g ∧ g ≤ d ∧ GitDir fs g

/-- The answers that the rules of the lock give for two directories. -/
structure Decides (fs : Fs) (a b : JsString) : Prop where
  symm : detectConflict fs a b = detectConflict fs b a
  unresolved : fs.realpath a = none ∨ fs.realpath b = none → detectConflict fs a b = false
  same : ∀ r, fs.realpath a = some r → fs.realpath b = some r → detectConflict fs a b = true
  beside : ∀ p q : Path, fs.realpath a = some p.text → fs.realpath b = some q.text →
    ¬ p ≤ q → ¬ q ≤ p → detectConflict fs a b = false
  below : ∀ u d : Path, u < d →
    fs.realpath a = some u.text ∧ fs.realpath b = some d.text ∨
      fs.realpath a = some d.text ∧ fs.realpath b = some u.text →
    (detectConflict fs a b = true ↔ ¬ Apart fs u d)

/-- One of the two is the filesystem root and the other is not. -/
def RootAndBelow (fs : Fs) (a b : JsString) : Prop :=
  ∃ d : Path, d ≠ ⊥ ∧ (fs.realpath a = some (js "/") ∧ fs.realpath b = some d.text ∨
    fs.realpath a = some d.text ∧ fs.realpath b = some (js "/"))

/-! ## The walk up -/

theorem text_root : (⊥ : Path).text = js "/" := rfl

/-- The last name of a path, seen from the end, is what `dirname` leaves behind. -/
theorem dropWhile_name {n : JsString} (hne : n ≠ []) (hsep : 0x2F ∉ n) (before : JsString) :
    ((n.reverse ++ before).dropWhile (· == 0x2F)).dropWhile (· != 0x2F) =
      before.dropWhile (· != 0x2F) := by
  have hrev : ∀ u ∈ n.reverse, (u != 0x2F) = true := by
    intro u hu
    rw [bne_iff_ne]
    intro he
    exact hsep (he ▸ List.mem_reverse.mp hu)
  have hfirst : (n.reverse ++ before).dropWhile (· == 0x2F) = n.reverse ++ before := by
    cases hr : n.reverse with
    | nil => exact absurd (List.reverse_eq_nil_iff.mp hr) hne
    | cons u s =>
      have hu := hrev u (by rw [hr]; exact List.mem_cons_self)
      rw [List.cons_append, List.dropWhile_cons_of_neg]
      simpa using hu
  rw [hfirst, List.dropWhile_append_of_pos hrev]

theorem dirname_text {p : Path} (h : p ≠ ⊥) : dirname p.text = p.parent.text := by
  obtain ⟨n, hn, hne, hsep⟩ := names_eq_concat h
  have htext : p.text = spell 0x2F p.parent.names ++ 0x2F :: n := by
    rw [text_of_ne_bot h, hn, spell_append, spell_cons]
    simp [spell]
  have hcons : p.text ≠ [] := by
    rw [htext]
    simp
  unfold dirname
  rw [if_neg hcons]
  by_cases hroot : p.parent = ⊥
  · have htail : p.text.tail = n := by
      rw [htext, hroot]
      rfl
    have hhead : p.text.head? = some 0x2F := by
      rw [htext, hroot]
      rfl
    have hdrop := dropWhile_name hne hsep []
    rw [List.append_nil] at hdrop
    rw [htail, hdrop, List.dropWhile_nil]
    simp only [hhead, if_true]
    rw [hroot, text_root]
  · obtain ⟨u, s, hs, -⟩ := text_two hroot
    have hparent := text_of_ne_bot hroot
    rw [hs] at hparent
    rw [← hparent] at htext
    have htail : p.text.tail.reverse = n.reverse ++ 0x2F :: (u :: s).reverse := by
      rw [htext]
      simp
    rw [htail, dropWhile_name hne hsep, List.dropWhile_cons_of_neg (by decide)]
    have hbefore : ¬ (p.text.head? = some 0x2F ∧ (u :: s).reverse = []) := by
      intro hnil
      simp at hnil
    simp only [if_neg hbefore]
    rw [htext, hs, List.length_reverse]
    have hlen : (u :: s).length + 1 = (0x2F :: u :: s).length := rfl
    rw [hlen, List.take_left]

/-- With enough fuel the walk ends at the nearest git root, or above all names. -/
theorem walkUp_text (fs : Fs) (p : Path) {fuel : Nat} (hfuel : p.names.length < fuel) :
    (∃ g, Nearest (GitDir fs) p g ∧ walkUp fs fuel p.text = some g.text) ∨
      (¬ HasGitRoot fs p ∧ walkUp fs fuel p.text = none) := by
  induction p using parent_induction generalizing fuel with
  | root =>
    refine .inr ⟨fun h => ?_, ?_⟩
    · obtain ⟨g, hg, hle⟩ := h
      exact hg.1 (le_bot_iff.mp hle)
    · cases fuel with
      | zero => rfl
      | succ fuel => exact if_pos (.inl text_root)
  | child p hp ih =>
    obtain ⟨n, hn, -⟩ := names_eq_concat hp
    cases fuel with
    | zero => omega
    | succ fuel =>
      obtain ⟨u, s, hs, -⟩ := text_two hp
      have hnotRoot : ¬ (p.text = js "/" ∨ p.text = []) := by
        rw [hs]
        intro h
        rcases h with h | h
        · cases h
        · cases h
      rw [walkUp, if_neg hnotRoot]
      by_cases hmark : GitDir fs p
      · rw [if_pos hmark.2]
        exact .inl ⟨p, Nearest.self hmark, rfl⟩
      · have hstat : ¬ fs.stat (p.text ++ js "/.git") = true := fun hst => hmark ⟨hp, hst⟩
        have hmoves : ¬ dirname p.text = p.text := by
          rw [dirname_text hp]
          intro heq
          exact (parent_lt hp).ne (text_injective heq)
        rw [if_neg hstat, if_neg hmoves, dirname_text hp]
        have hlen : p.parent.names.length < fuel := by
          rw [hn, List.length_append, List.length_singleton] at hfuel
          omega
        rcases ih hlen with ⟨g, hg, hwalk⟩ | ⟨hnone, hwalk⟩
        · exact .inl ⟨g, (nearest_parent_iff hp hmark).mpr hg, hwalk⟩
        · refine .inr ⟨fun h => hnone ?_, hwalk⟩
          obtain ⟨g, hg, hle⟩ := h
          rcases (le_iff_parent hp).mp hle with rfl | hle
          · exact absurd hg hmark
          · exact ⟨g, hg, hle⟩

/-- `findGitRoot` of a canonical path is its nearest git root. -/
theorem findGitRoot_text {fs : Fs} {p : Path} (hfixed : fs.realpath p.text = some p.text) :
    (∃ g, Nearest (GitDir fs) p g ∧ findGitRoot fs p.text = some g.text) ∨
      (¬ HasGitRoot fs p ∧ findGitRoot fs p.text = none) := by
  have hwalk : findGitRoot fs p.text = walkUp fs (p.text.length + 1) p.text := by
    unfold findGitRoot
    rw [hfixed]
    rfl
  rw [hwalk]
  exact walkUp_text fs p (Nat.lt_succ_of_le (length_names_le p))

/-! ## The decision -/

/-- On canonical paths, the textual tests are tests of ancestry except at the root. -/
theorem overlap_iff {p q : Path} :
    ((q.text ++ js "/").isPrefixOf p.text || (p.text ++ js "/").isPrefixOf q.text) = true ↔
      (q ≠ ⊥ ∧ q < p) ∨ (p ≠ ⊥ ∧ p < q) := by
  have hsep : js "/" = [0x2F] := rfl
  rw [Bool.or_eq_true, List.isPrefixOf_iff_prefix, List.isPrefixOf_iff_prefix, hsep,
    text_prefix_iff, text_prefix_iff]

/-- Paths that are not above one another do not conflict, and neither does the root
with what is below it. -/
theorem no_overlap {fs : Fs} {a b : JsString} {p q : Path} (ha : fs.realpath a = some p.text)
    (hb : fs.realpath b = some q.text) (hne : p ≠ q) (hpq : ¬ (p ≠ ⊥ ∧ p < q))
    (hqp : ¬ (q ≠ ⊥ ∧ q < p)) : detectConflict fs a b = false := by
  have htext : ¬ p.text = q.text := fun h => hne (text_injective h)
  have hover := mt overlap_iff.mp (not_or.mpr ⟨hqp, hpq⟩)
  unfold detectConflict
  rw [ha, hb]
  simp only
  rw [if_neg htext, if_neg hover]

/-- One of two nested paths conflicts with the other unless a git root starts between them. -/
theorem conflict_below {fs : Fs} (hfs : Canonical fs) {a b : JsString} {u d : Path}
    (ha : fs.realpath a = some u.text) (hb : fs.realpath b = some d.text) (hu : u ≠ ⊥) (hlt : u < d) :
    detectConflict fs a b = true ↔ ¬ Apart fs u d := by
  have htext : ¬ u.text = d.text := fun h => hlt.ne (text_injective h)
  have hover := overlap_iff.mpr (.inr ⟨hu, hlt⟩)
  unfold detectConflict
  rw [ha, hb]
  simp only
  rw [if_neg htext, if_pos hover]
  rcases findGitRoot_text (hfs.fixed ha) with ⟨g, hg, hroot⟩ | ⟨hnone, hroot⟩
  · rcases findGitRoot_text (hfs.fixed hb) with ⟨h, hh, hroot'⟩ | ⟨hnone, hroot'⟩
    · have hsame : g.text = h.text ↔ ¬ ∃ m, GitDir fs m ∧ u < m ∧ m ≤ d := by
        rw [← nearest_eq_iff hlt.le hg hh]
        exact ⟨text_injective, fun heq => by rw [heq]⟩
      rw [hroot, hroot']
      simp only [decide_eq_true_eq]
      rw [hsame, not_iff_not]
      constructor
      · intro hm
        obtain ⟨m, hmark, hum, hmd⟩ := hm
        exact ⟨⟨g, hg.marked, hg.above⟩, ⟨h, hh.marked, hh.above⟩, m, hum, hmd, hmark⟩
      · intro hapart
        obtain ⟨-, -, m, hum, hmd, hmark⟩ := hapart
        exact ⟨m, hmark, hum, hmd⟩
    · rw [hroot, hroot']
      exact ⟨fun _ hapart => hnone hapart.2.1, fun _ => rfl⟩
  · rw [hroot]
    exact ⟨fun _ hapart => hnone hapart.1, fun _ => rfl⟩

theorem apart_of_root {fs : Fs} {d : Path} : ¬ Apart fs ⊥ d := by
  intro h
  obtain ⟨⟨g, hg, hle⟩, -⟩ := h
  exact hg.1 (le_bot_iff.mp hle)

/-- A checkout at `/repo`, and nothing else but the root above it. -/
def checkout : Fs where
  realpath r := if r = js "/" ∨ r = js "/repo" ∨ r = js "/repo/src" then some r else none
  stat r := decide (r = js "/repo/.git")

def repo : Path := ⟨[js "repo"], by decide⟩

def repoSrc : Path := ⟨[js "repo", js "src"], by decide⟩

theorem checkout_canonical : Canonical checkout := by
  have hmem : ∀ {a r}, checkout.realpath a = some r →
      r = a ∧ (a = js "/" ∨ a = js "/repo" ∨ a = js "/repo/src") := by
    intro a r h
    unfold checkout at h
    simp only [Option.ite_none_right_eq_some, Option.some.injEq] at h
    exact ⟨h.2.symm, h.1⟩
  refine ⟨fun h => ?_, fun h => ?_⟩
  · obtain ⟨rfl, rfl | rfl | rfl⟩ := hmem h
    · exact ⟨⊥, rfl⟩
    · exact ⟨repo, rfl⟩
    · exact ⟨repoSrc, rfl⟩
  · obtain ⟨rfl, -⟩ := hmem h
    exact h

/-- The lock decides by its rules, for all file systems and all pairs of paths, except
when one of the two is the filesystem root and the other is below it. -/
theorem decides_iff {fs : Fs} (hfs : Canonical fs) (a b : JsString) :
    Decides fs a b ↔ ¬ RootAndBelow fs a b := by
  constructor
  · intro hrules hroot
    obtain ⟨d, hd, hsides⟩ := hroot
    have htrue := (hrules.below ⊥ d (bot_lt_iff_ne_bot.mpr hd) hsides).mpr apart_of_root
    have hnotUnder : ¬ (d ≠ ⊥ ∧ d < ⊥) := fun h => not_lt_bot h.2
    have hnotOver : ¬ ((⊥ : Path) ≠ ⊥ ∧ ⊥ < d) := fun h => h.1 rfl
    rcases hsides with ⟨ha, hb⟩ | ⟨ha, hb⟩
    · rw [no_overlap ha hb hd.symm hnotOver hnotUnder] at htrue
      cases htrue
    · rw [no_overlap ha hb hd hnotUnder hnotOver] at htrue
      cases htrue
  · intro hroot
    refine ⟨detectConflict_comm fs a b, fun hnone => ?_, fun r ha hb => ?_,
      fun p q ha hb hpq hqp => ?_, fun u d hlt hsides => ?_⟩
    · unfold detectConflict
      rcases hnone with ha | hb
      · rw [ha]
      · rw [hb]
        cases fs.realpath a with
        | none => rfl
        | some ra => rfl
    · unfold detectConflict
      rw [ha, hb]
      exact if_pos rfl
    · exact no_overlap ha hb (fun h => hpq h.le) (fun h => hpq h.2.le) fun h => hqp h.2.le
    · have hu : u ≠ ⊥ := by
        rintro rfl
        exact hroot ⟨d, hlt.ne', hsides⟩
      rcases hsides with ⟨ha, hb⟩ | ⟨ha, hb⟩
      · exact conflict_below hfs ha hb hu hlt
      · rw [detectConflict_comm]
        exact conflict_below hfs hb ha hu hlt

/-- Below `/repo`, the rules hold. -/
theorem decides_in_checkout :
    Decides checkout (js "/repo") (js "/repo/src") ∧
      detectConflict checkout (js "/repo") (js "/repo/src") = true := by
  refine ⟨(decides_iff checkout_canonical _ _).mpr fun hroot => ?_, by decide⟩
  obtain ⟨d, -, ⟨ha, -⟩ | ⟨-, hb⟩⟩ := hroot
  · exact absurd ha (by decide)
  · exact absurd hb (by decide)

/-- `"/" + sep` is no prefix of `/repo`: a session in the root directory and one in the
checkout below it are never in conflict, though no git root resolves for the first. -/
theorem root_missed :
    Canonical checkout ∧ (⊥ : Path) < repo ∧ findGitRoot checkout (js "/") = none ∧
      detectConflict checkout (js "/") (js "/repo") = false ∧
      ¬ Decides checkout (js "/") (js "/repo") := by
  have hlt : (⊥ : Path) < repo := bot_lt_iff_ne_bot.mpr fun h => by
    cases congrArg AbsPath.names h
  have hfalse : detectConflict checkout (js "/") (js "/repo") = false := by decide
  refine ⟨checkout_canonical, hlt, by decide, hfalse, fun hrules => ?_⟩
  have htrue := (hrules.below ⊥ repo hlt (.inl ⟨by decide, by decide⟩)).mpr apart_of_root
  rw [hfalse] at htrue
  cases htrue

end Conductor.Sessions.NestedDirs
