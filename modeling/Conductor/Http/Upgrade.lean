import Conductor.Http.Ws

/-! # The guard in front of the event stream

The hosts that `isLoopbackHost` documents and those that it accepts, and the
requests whose handshake the upgrade handler performs. -/
namespace Conductor.Http.Upgrade
open Conductor.Js.Text Conductor.Http.Server Conductor.Http.Ws

/-! ## The documented hosts -/

/-- Nothing, or a colon and the digits of a port (`*DIGIT`, as in a URI). -/
def IsPort (s : JsString) : Prop := s = [] ∨ ∃ ds, s = 0x3A :: ds ∧ ∀ u ∈ ds, isDigit u = true

def IsLoopback (h : JsString) : Prop :=
  ∃ name ∈ [js "127.0.0.1", js "localhost", js "[::1]"], ∃ port, h = name ++ port ∧ IsPort port

/-- What a host name is compared with. -/
def loopbackNames : List JsString := [js "127.0.0.1", js "localhost", js "::1"]

/-- Hosts that read like loopback and are not: another bracketed name or a bracketed
`::1` with a foreign tail, and a name whose port is no number or that needs brackets. -/
def Lookalike (h : JsString) : Prop :=
  ∃ name ∈ loopbackNames, ∃ tail,
    (h = 0x5B :: (name ++ 0x5D :: tail) ∧ ¬ (name = js "::1" ∧ IsPort tail)) ∨
    (h = name ++ 0x3A :: tail ∧ 0x3A ∉ tail ∧ ¬ (name ≠ js "::1" ∧ ∀ u ∈ tail, isDigit u = true))

/-! ## What the guard takes for the host name -/

theorem idxOf?_first {a : JsString} {u : UInt16} (h : u ∉ a) (b : JsString) :
    (a ++ u :: b).idxOf? u = some a.length := by
  induction a with
  | nil => simp [List.idxOf?_cons]
  | cons v a ih =>
    obtain ⟨hv, ha⟩ := List.ne_and_not_mem_of_not_mem_cons h
    have hne : (v == u) = false := by simpa using hv.symm
    rw [List.cons_append, List.idxOf?_cons, hne, ih ha]
    rfl

theorem hostName_bracket {name : JsString} (h : 0x5D ∉ name) (tail : JsString) :
    hostName (0x5B :: (name ++ 0x5D :: tail)) = some name := by
  have hopen : (js "[").isPrefixOf (0x5B :: (name ++ 0x5D :: tail)) = true := rfl
  have hidx : (0x5B :: (name ++ 0x5D :: tail)).idxOf? 0x5D = some (0x5B :: name).length :=
    idxOf?_first (List.not_mem_cons_of_ne_of_not_mem (by decide) h) tail
  unfold hostName
  rw [hopen, if_pos rfl, hidx]
  simp

theorem hostName_open {tail : JsString} (h : 0x5D ∉ tail) : hostName (0x5B :: tail) = none := by
  have hopen : (js "[").isPrefixOf (0x5B :: tail) = true := rfl
  have hidx : (0x5B :: tail).idxOf? 0x5D = none :=
    List.idxOf?_eq_none_iff.mpr (List.not_mem_cons_of_ne_of_not_mem (by decide) h)
  unfold hostName
  rw [hopen, if_pos rfl, hidx]
  rfl

theorem not_open {h : JsString} (hb : h.head? ≠ some 0x5B) : (js "[").isPrefixOf h = false := by
  cases h with
  | nil => rfl
  | cons u h =>
    have hne : (0x5B == u) = false := by
      simp only [List.head?_cons, ne_eq, Option.some.injEq] at hb
      simpa using fun he : 0x5B = u => hb he.symm
    show ((0x5B == u) && _) = false
    rw [hne, Bool.false_and]

theorem lastIndexOf_append {tail : JsString} {u : UInt16} (h : u ∉ tail) (name : JsString) :
    lastIndexOf (name ++ u :: tail) u = some name.length := by
  have hrev : (name ++ u :: tail).reverse.idxOf? u = some tail.reverse.length := by
    rw [List.reverse_append, List.reverse_cons, List.append_assoc]
    exact idxOf?_first (fun hu => h (List.mem_reverse.mp hu)) name.reverse
  unfold lastIndexOf
  rw [hrev]
  simp

theorem hostName_colon {name tail : JsString} (hb : name.head? ≠ some 0x5B) (hne : name ≠ [])
    (h : 0x3A ∉ tail) : hostName (name ++ 0x3A :: tail) = some name := by
  have hb' : (name ++ 0x3A :: tail).head? ≠ some 0x5B := by
    rwa [List.head?_append_of_ne_nil _ hne]
  have hpos : 0 < name.length := List.length_pos_iff.mpr hne
  unfold hostName
  rw [not_open hb', lastIndexOf_append h]
  simp [hpos]

theorem hostName_noName {tail : JsString} (h : 0x3A ∉ tail) :
    hostName (0x3A :: tail) = some (0x3A :: tail) := by
  have hlast := lastIndexOf_append h []
  unfold hostName
  rw [not_open (by simp), List.nil_append] at *
  rw [hlast]
  rfl

theorem hostName_plain {h : JsString} (hb : h.head? ≠ some 0x5B) (hc : 0x3A ∉ h) :
    hostName h = some h := by
  have hlast : lastIndexOf h 0x3A = none := by
    unfold lastIndexOf
    rw [List.idxOf?_eq_none_iff.mpr fun hu => hc (List.mem_reverse.mp hu)]
    rfl
  unfold hostName
  rw [not_open hb, hlast]
  rfl

/-! ## What the guard accepts -/

theorem mem_loopbackNames {name : JsString} :
    name ∈ loopbackNames ↔ name = js "127.0.0.1" ∨ name = js "localhost" ∨ name = js "::1" := by
  simp only [loopbackNames, List.mem_cons, List.not_mem_nil, or_false]

/-- No name is empty, begins with a bracket or has a closing one. -/
theorem name_unbracketed {name : JsString} (h : name ∈ loopbackNames) :
    name ≠ [] ∧ name.head? ≠ some 0x5B ∧ 0x5D ∉ name := by
  obtain rfl | rfl | rfl := mem_loopbackNames.mp h
  · decide
  · decide
  · decide

theorem isLoopbackHost_iff_hostName {h : JsString} :
    isLoopbackHost (some h) = true ↔ ∃ name ∈ loopbackNames, hostName h = some name := by
  cases h with
  | nil =>
    refine ⟨fun h => (by cases h), fun h => ?_⟩
    obtain ⟨name, hname, h⟩ := h
    have hempty : hostName [] = some [] := rfl
    rw [hempty] at h
    cases h
    exact absurd rfl (name_unbracketed hname).1
  | cons u h =>
    cases hn : hostName (u :: h) with
    | none => simp [isLoopbackHost, hn]
    | some name => simp [isLoopbackHost, hn, mem_loopbackNames, or_assoc]

/-- A text is split at the last occurrence of a unit. -/
theorem exists_last {h : JsString} {u : UInt16} (hu : u ∈ h) :
    ∃ a b, h = a ++ u :: b ∧ u ∉ b := by
  obtain ⟨a, b, hrev, ha⟩ := List.eq_append_cons_of_mem (List.mem_reverse.mpr hu)
  refine ⟨b.reverse, a.reverse, ?_, fun hm => ha (List.mem_reverse.mp hm)⟩
  rw [← List.reverse_reverse h, hrev]
  simp

/-- A host is accepted when one of the names stands in brackets, alone, or in front of
its last colon. -/
theorem isLoopbackHost_iff {h : JsString} : isLoopbackHost (some h) = true ↔
    ∃ name ∈ loopbackNames,
      (∃ tail, h = 0x5B :: (name ++ 0x5D :: tail)) ∨ (0x3A ∉ name ∧ h = name) ∨
        ∃ tail, 0x3A ∉ tail ∧ h = name ++ 0x3A :: tail := by
  rw [isLoopbackHost_iff_hostName]
  constructor
  · intro hex
    obtain ⟨name, hname, hn⟩ := hex
    refine ⟨name, hname, ?_⟩
    by_cases hb : h.head? = some 0x5B
    · obtain ⟨rest, rfl⟩ := List.head?_eq_some_iff.mp hb
      by_cases hclose : 0x5D ∈ rest
      · obtain ⟨a, b, rfl, ha⟩ := List.eq_append_cons_of_mem hclose
        rw [hostName_bracket ha, Option.some.injEq] at hn
        exact .inl ⟨b, by rw [hn]⟩
      · rw [hostName_open hclose] at hn
        cases hn
    · right
      by_cases hc : 0x3A ∈ h
      · obtain ⟨a, b, rfl, hlast⟩ := exists_last hc
        by_cases ha : a = []
        · -- no name has its only colon in front
          subst ha
          rw [List.nil_append, hostName_noName hlast, Option.some.injEq] at hn
          subst hn
          rcases mem_loopbackNames.mp hname with h | h | h
          · cases h
          · cases h
          · cases h
            exact absurd (by decide) hlast
        · rw [List.head?_append_of_ne_nil _ ha] at hb
          rw [hostName_colon hb ha hlast, Option.some.injEq] at hn
          exact .inr ⟨b, hlast, by rw [hn]⟩
      · rw [hostName_plain hb hc, Option.some.injEq] at hn
        exact .inl ⟨hn ▸ hc, hn⟩
  · intro hex
    obtain ⟨name, hname, h⟩ := hex
    obtain ⟨hne, hb, hclose⟩ := name_unbracketed hname
    refine ⟨name, hname, ?_⟩
    rcases h with ⟨tail, rfl⟩ | ⟨hc, rfl⟩ | ⟨tail, ht, rfl⟩
    · exact hostName_bracket hclose tail
    · exact hostName_plain hb hc
    · exact hostName_colon hb hne ht

/-- The documented hosts: `::1` in brackets, or another name, and the port. -/
theorem isLoopback_iff {h : JsString} : IsLoopback h ↔
    (∃ name ∈ loopbackNames, name ≠ js "::1" ∧ ∃ port, h = name ++ port ∧ IsPort port) ∨
      ∃ port, h = 0x5B :: (js "::1" ++ 0x5D :: port) ∧ IsPort port := by
  constructor
  · intro hl
    obtain ⟨name, hname, port, rfl, hport⟩ := hl
    simp only [List.mem_cons, List.not_mem_nil, or_false] at hname
    rcases hname with rfl | rfl | rfl
    · exact .inl ⟨_, by simp [loopbackNames], by decide, port, rfl, hport⟩
    · exact .inl ⟨_, by simp [loopbackNames], by decide, port, rfl, hport⟩
    · exact .inr ⟨port, rfl, hport⟩
  · intro hor
    rcases hor with ⟨name, hname, hne, port, rfl, hport⟩ | ⟨port, rfl, hport⟩
    · rcases mem_loopbackNames.mp hname with rfl | rfl | rfl
      · exact ⟨_, by simp, port, rfl, hport⟩
      · exact ⟨_, by simp, port, rfl, hport⟩
      · exact absurd rfl hne
    · exact ⟨js "[::1]", by simp, port, rfl, hport⟩

theorem colon_not_mem_name {name : JsString} (h : name ∈ loopbackNames) :
    0x3A ∉ name ↔ name ≠ js "::1" := by
  obtain rfl | rfl | rfl := mem_loopbackNames.mp h
  · decide
  · decide
  · decide

theorem colon_not_mem_digits {ds : JsString} (h : ∀ u ∈ ds, isDigit u = true) : 0x3A ∉ ds := by
  intro hm
  cases h _ hm

/-- What is accepted is a documented host or one that reads like it. -/
theorem accepted_iff {h : JsString} :
    isLoopbackHost (some h) = true ↔ IsLoopback h ∨ Lookalike h := by
  rw [isLoopbackHost_iff, isLoopback_iff]
  constructor
  · intro hex
    obtain ⟨name, hname, h⟩ := hex
    rcases h with ⟨tail, rfl⟩ | ⟨hc, rfl⟩ | ⟨tail, ht, rfl⟩
    · by_cases hgood : name = js "::1" ∧ IsPort tail
      · obtain ⟨rfl, hport⟩ := hgood
        exact .inl (.inr ⟨tail, rfl, hport⟩)
      · exact .inr ⟨name, hname, tail, .inl ⟨rfl, hgood⟩⟩
    · exact .inl (.inl ⟨_, hname, (colon_not_mem_name hname).mp hc, [], by simp, .inl rfl⟩)
    · by_cases hgood : name ≠ js "::1" ∧ ∀ u ∈ tail, isDigit u = true
      · exact .inl (.inl ⟨name, hname, hgood.1, _, rfl, .inr ⟨tail, rfl, hgood.2⟩⟩)
      · exact .inr ⟨name, hname, tail, .inr ⟨rfl, ht, hgood⟩⟩
  · intro hor
    rcases hor with (⟨name, hname, hne, port, rfl, hport⟩ | ⟨port, rfl, -⟩) | ⟨name, hname, tail, h⟩
    · rcases hport with rfl | ⟨ds, rfl, hd⟩
      · have hc := (colon_not_mem_name hname).mpr hne
        exact ⟨name, hname, .inr (.inl ⟨hc, List.append_nil name⟩)⟩
      · exact ⟨name, hname, .inr (.inr ⟨ds, colon_not_mem_digits hd, rfl⟩)⟩
    · exact ⟨js "::1", by simp [loopbackNames], .inl ⟨port, rfl⟩⟩
    · rcases h with ⟨rfl, -⟩ | ⟨rfl, ht, -⟩
      · exact ⟨name, hname, .inl ⟨tail, rfl⟩⟩
      · exact ⟨name, hname, .inr (.inr ⟨tail, ht, rfl⟩)⟩

theorem hostName_port {name port : JsString} (hname : name ∈ loopbackNames) (hne : name ≠ js "::1")
    (hport : IsPort port) : hostName (name ++ port) = some name := by
  obtain ⟨hnil, hb, -⟩ := name_unbracketed hname
  rcases hport with rfl | ⟨ds, rfl, hd⟩
  · rw [List.append_nil]
    exact hostName_plain hb ((colon_not_mem_name hname).mpr hne)
  · exact hostName_colon hb hnil (colon_not_mem_digits hd)

/-- No documented host is a lookalike: the guard reads one name out of a header. -/
theorem not_lookalike {h : JsString} (hl : IsLoopback h) : ¬ Lookalike h := by
  intro hlook
  obtain ⟨name, hname, tail, hcase⟩ := hlook
  obtain ⟨hnil, hb, hclose⟩ := name_unbracketed hname
  rcases isLoopback_iff.mp hl with ⟨host, hhost, hne, port, rfl, hport⟩ | ⟨port, rfl, hport⟩
  · have hread := hostName_port hhost hne hport
    rcases hcase with ⟨heq, -⟩ | ⟨heq, ht, hbad⟩
    · have hhead := congrArg List.head? heq
      rw [List.head?_append_of_ne_nil _ (name_unbracketed hhost).1] at hhead
      exact (name_unbracketed hhost).2.1 hhead
    · rw [heq, hostName_colon hb hnil ht, Option.some.injEq] at hread
      subst hread
      have hrest := List.append_cancel_left heq
      rcases hport with hport | ⟨ds, hds, hd⟩
      · rw [hport] at hrest
        cases hrest
      · rw [hds] at hrest
        cases hrest
        exact hbad ⟨hne, hd⟩
  · have hread := hostName_bracket (name_unbracketed (mem_loopbackNames.mpr (.inr (.inr rfl)))).2.2 port
    rcases hcase with ⟨heq, hbad⟩ | ⟨heq, -, -⟩
    · rw [heq, hostName_bracket hclose, Option.some.injEq] at hread
      subst hread
      have hrest := List.append_cancel_left (List.cons.inj heq).2
      cases hrest
      exact hbad ⟨rfl, hport⟩
    · have hhead := congrArg List.head? heq
      rw [List.head?_append_of_ne_nil _ hnil] at hhead
      exact hb hhead.symm

/-! ## The upgrade handler -/

/-- The request is one for the event stream from a documented host. -/
def ForEvents (req : Request) : Prop :=
  (∃ h, req.host = some h ∧ IsLoopback h) ∧ pathOf (req.url.getD []) = js "/events"

/-- The handshake is performed for requests for the event stream, and any other request
changes nothing. -/
def Guarded (req : Request) : Prop :=
  (onUpgrade req = .handleUpgrade ↔ ForEvents req) ∧
    (¬ ForEvents req → ∀ s handshake, step s (.upgrade req handshake) = some s)

/-- A lookalike asks for a path that begins with `/events`, or a documented host asks for
one that goes on behind it. -/
def SlipsThrough (req : Request) : Prop :=
  (∃ h, req.host = some h ∧ Lookalike h ∧ js "/events" <+: req.url.getD []) ∨
    ∃ h, req.host = some h ∧ IsLoopback h ∧
      ∃ u rest, req.url.getD [] = js "/events" ++ u :: rest ∧ u ≠ 0x3F

theorem onUpgrade_iff {req : Request} : onUpgrade req = .handleUpgrade ↔
    isLoopbackHost req.host = true ∧ js "/events" <+: req.url.getD [] := by
  unfold onUpgrade
  cases isLoopbackHost req.host with
  | false => simp
  | true =>
    cases hp : (js "/events").isPrefixOf (req.url.getD []) with
    | false => simp [← List.isPrefixOf_iff_prefix, hp]
    | true => simp [← List.isPrefixOf_iff_prefix, hp]

/-- Behind `/events` the path is over, or it goes on. -/
theorem prefix_iff {url : JsString} : js "/events" <+: url ↔
    pathOf url = js "/events" ∨ ∃ u rest, url = js "/events" ++ u :: rest ∧ u ≠ 0x3F := by
  constructor
  · intro h
    obtain ⟨rest, rfl⟩ := h
    cases rest with
    | nil => exact .inl rfl
    | cons u rest =>
      by_cases hu : u = 0x3F
      · subst hu
        exact .inl rfl
      · exact .inr ⟨u, rest, rfl, hu⟩
  · intro h
    rcases h with h | ⟨u, rest, rfl, -⟩
    · rw [← h]
      exact List.takeWhile_prefix _
    · exact List.prefix_append _ _

theorem pathOf_beyond {u : UInt16} (hu : u ≠ 0x3F) (rest : JsString) :
    pathOf (js "/events" ++ u :: rest) ≠ js "/events" := by
  intro h
  have hpath : pathOf (js "/events" ++ u :: rest) = js "/events" ++ u :: pathOf rest := by
    have hne : (u != 0x3F) = true := by simpa using hu
    show js "/events" ++ (u :: rest).takeWhile (· != 0x3F) = _
    rw [List.takeWhile_cons, if_pos hne]
    rfl
  rw [hpath] at h
  simp at h

theorem accepted_host {req : Request} (h : isLoopbackHost req.host = true) :
    ∃ host, req.host = some host ∧ (IsLoopback host ∨ Lookalike host) := by
  cases hhost : req.host with
  | none => rw [hhost] at h; cases h
  | some host =>
    rw [hhost] at h
    exact ⟨host, rfl, accepted_iff.mp h⟩

/-- A refused request leaves the attachment as it is. -/
theorem step_refused {req : Request} (h : onUpgrade req ≠ .handleUpgrade) (s : State)
    (handshake : Bool) : step s (.upgrade req handshake) = some s := by
  have hne : (onUpgrade req == .handleUpgrade) = false := by simpa using h
  simp [step, hne]

theorem guarded_iff {req : Request} : Guarded req ↔ ¬ SlipsThrough req := by
  constructor
  · intro hg hslip
    rcases hslip with ⟨h, hhost, hlook, hpath⟩ | ⟨h, hhost, hloop, u, rest, hurl, hu⟩
    · have hopen : onUpgrade req = .handleUpgrade :=
        onUpgrade_iff.mpr ⟨by rw [hhost]; exact accepted_iff.mpr (.inr hlook), hpath⟩
      obtain ⟨⟨h', hhost', hloop⟩, -⟩ := hg.1.mp hopen
      rw [hhost] at hhost'
      cases hhost'
      exact not_lookalike hloop hlook
    · have hopen : onUpgrade req = .handleUpgrade :=
        onUpgrade_iff.mpr ⟨by rw [hhost]; exact accepted_iff.mpr (.inl hloop),
          prefix_iff.mpr (.inr ⟨u, rest, hurl, hu⟩)⟩
      obtain ⟨-, hpath⟩ := hg.1.mp hopen
      rw [hurl] at hpath
      exact pathOf_beyond hu rest hpath
  · intro hno
    have hiff : onUpgrade req = .handleUpgrade ↔ ForEvents req := by
      rw [onUpgrade_iff]
      constructor
      · intro h
        obtain ⟨host, hhost, hloop | hlook⟩ := accepted_host h.1
        · rcases prefix_iff.mp h.2 with hpath | ⟨u, rest, hurl, hu⟩
          · exact ⟨⟨host, hhost, hloop⟩, hpath⟩
          · exact absurd (.inr ⟨host, hhost, hloop, u, rest, hurl, hu⟩) hno
        · exact absurd (.inl ⟨host, hhost, hlook, h.2⟩) hno
      · intro h
        obtain ⟨⟨host, hhost, hloop⟩, hpath⟩ := h
        refine ⟨?_, prefix_iff.mpr (.inl hpath)⟩
        rw [hhost]
        exact accepted_iff.mpr (.inl hloop)
    exact ⟨hiff, fun hne s handshake => step_refused (fun h => hne (hiff.mp h)) s handshake⟩

/-- Exactly the lookalikes are taken for documented hosts, and exactly the requests
that slip through get a handshake that is not theirs. -/
theorem upgrade_guard_iff (h : JsString) (req : Request) :
    ((isLoopbackHost (some h) = true ↔ IsLoopback h) ↔ ¬ Lookalike h) ∧
      (Guarded req ↔ ¬ SlipsThrough req) := by
  refine ⟨?_, guarded_iff⟩
  rw [accepted_iff]
  refine ⟨fun hiff hlook => not_lookalike (hiff.mp (.inr hlook)) hlook, fun hno => ?_⟩
  exact ⟨fun hor => hor.resolve_right hno, .inl⟩

/-- A port that is no number, and a path that only begins with the documented one. -/
theorem guard_slips :
    (isLoopbackHost (some (js "localhost:x")) = true ∧ ¬ IsLoopback (js "localhost:x")) ∧
      ¬ Guarded ⟨js "GET", some (js "localhost"), some (js "/events-x")⟩ ∧
      ∃ t, step (init (js "dev") [] 0 (fun _ => none) none)
          (.upgrade ⟨js "GET", some (js "localhost"), some (js "/events-x")⟩ true) = some t ∧
        subscribers t = [0] := by
  have hlook : Lookalike (js "localhost:x") := by
    refine ⟨js "localhost", by simp [loopbackNames], js "x", .inr ⟨rfl, by decide, fun h => ?_⟩⟩
    cases h.2 0x78 (by decide)
  have hhost : IsLoopback (js "localhost") := ⟨js "localhost", by simp, [], by simp, .inl rfl⟩
  refine ⟨⟨accepted_iff.mpr (.inr hlook), fun h => not_lookalike h hlook⟩, ?_, _, rfl, by decide⟩
  rw [guarded_iff, not_not]
  exact .inr ⟨_, rfl, hhost, 0x2D, js "x", rfl, by decide⟩

end Conductor.Http.Upgrade
