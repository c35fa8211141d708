import Wireframe.Proofs.DraftColors
import Wireframe.Proofs.KeyedEntries
import Wireframe.Proofs.SettingsRules
import Wireframe.Proofs.StatementMeaning

/-! What the statements of a text come to. Of the statements of one setting the last one counts
(`Statement.last_counts`), every component statement adds one component, and the colors of a component are
looked up in the colors declared last before it, so a document says what its statements say in their order
(`Document.read_declared`). -/

namespace Wireframe

/-- The settings that a statement makes, if it makes one. -/
def Statement.setting? : Statement → Option Setting
  | ratio .. => some .ratio
  | grid .. => some .grid
  | gap _ => some .gap
  | padding _ => some .padding
  | colors _ => some .colors
  | theme _ => some .theme
  | weights axis .. => some (.weights axis)
  | component .. => none

/-- The settings have what the statement says. -/
def Statement.Holds (x : Settings) : Statement → Prop
  | ratio width height => x.ratio = ((width : Int), (height : Int))
  | grid cols rows _ => x.grid = ((cols : Int), (rows : Int))
  | gap pixels => x.gap = .real pixels
  | padding pixels => x.padding = some pixels
  | colors entries => x.palette = Keyed.ofEntries entries
  | theme name => x.theme = some name
  | weights axis values _ => x.weights axis = some values
  | component .. => True

/-- The two have the same under one of the settings. -/
def Setting.Same (x y : Settings) : Setting → Prop
  | ratio => x.ratio = y.ratio
  | grid => x.grid = y.grid
  | gap => x.gap = y.gap
  | padding => x.padding = y.padding
  | colors => x.palette = y.palette
  | theme => x.theme = y.theme
  | weights axis => x.weights axis = y.weights axis

/-- The statement is the last one of its setting. -/
structure Statement.IsLast (k : Setting) (ss : List Statement) (s : Statement) : Prop where
  setting : s.setting? = some k
  last : ∃ before after, ss = before ++ s :: after ∧ ∀ s' ∈ after, s'.setting? ≠ some k

namespace Statement

variable {x y : Settings} {k : Setting} {s : Statement} {ss : List Statement}

/-- A statement leaves alone what is not its setting. -/
theorem same_change (h : s.setting? ≠ some k) : k.Same (s.change x) x := by
  cases s with
  | weights axis values location =>
      cases axis <;> cases k with
      | weights other => cases other <;> first | rfl | exact absurd rfl h
      | _ => rfl
  | _ =>
      cases k with
      | weights other => cases other <;> rfl
      | _ => first | rfl | exact absurd rfl h

theorem holds_change (x : Settings) (s : Statement) : s.Holds (s.change x) := by
  cases s with
  | weights axis values location => cases axis <;> rfl
  | component => trivial
  | _ => rfl

theorem Holds.of_same (hs : s.setting? = some k) (h : s.Holds y) (hsame : k.Same x y) : s.Holds x := by
  cases s <;> cases hs <;> exact Eq.trans hsame h

end Statement

theorem Setting.Same.trans {x y z : Settings} {k : Setting} (h : k.Same x y) (h' : k.Same y z) :
    k.Same x z := by
  cases k <;> exact Eq.trans h h'

/-- The settings after some statements. -/
def settingsInForce (accepted : List Statement) : Settings := accepted.foldl Statement.change {}

namespace Statement

variable {k : Setting} {s : Statement} {ss : List Statement}

theorem settingsInForce_append_singleton : settingsInForce (ss ++ [s]) = s.change (settingsInForce ss) :=
  List.foldl_concat ..

theorem IsLast.append (h : IsLast k ss s) {s' : Statement} (hs' : s'.setting? ≠ some k) :
    IsLast k (ss ++ [s']) s := by
  obtain ⟨before, after, rfl, hafter⟩ := h.last
  refine ⟨h.setting, before, after ++ [s'], List.append_assoc .., ?_⟩
  exact List.forall_mem_append.mpr ⟨hafter, List.forall_mem_singleton.mpr hs'⟩

/-- Of the statements of a setting the last one counts; without one the setting is what it is in a document
that makes none. -/
theorem last_counts (k : Setting) (ss : List Statement) :
    ((∀ s ∈ ss, s.setting? ≠ some k) ∧ k.Same (settingsInForce ss) {}) ∨
      ∃ s, IsLast k ss s ∧ s.Holds (settingsInForce ss) := by
  induction ss using List.reverseRecOn with
  | nil =>
      refine Or.inl ⟨fun s hs => absurd hs List.not_mem_nil, ?_⟩
      cases k <;> rfl
  | append_singleton ss s ih =>
      rw [settingsInForce_append_singleton]
      by_cases hs : s.setting? = some k
      · refine Or.inr ⟨s, ⟨hs, ss, [], rfl, fun s' hs' => absurd hs' List.not_mem_nil⟩, ?_⟩
        exact holds_change _ s
      · have hsame := same_change (x := settingsInForce ss) hs
        rcases ih with ⟨hnone, hdefault⟩ | ⟨last, hlast, hholds⟩
        · refine Or.inl ⟨List.forall_mem_append.mpr ⟨hnone, List.forall_mem_singleton.mpr hs⟩, ?_⟩
          exact hsame.trans hdefault
        · exact Or.inr ⟨last, hlast.append hs, hholds.of_same hlast.setting hsame⟩

end Statement

namespace Draft

variable {stop : Token} {ts left : List Token} {accepted : List Statement} {d : Draft}

theorem Reaches.settings_eq (h : Reaches stop ts accepted d left) : d.settings = settingsInForce accepted := by
  induction h with
  | start => rfl
  | next _ _ _ haccept ih =>
      rw [accept_settings haccept, ih, Statement.settingsInForce_append_singleton]

/-- The tokens that a run has taken say what it has accepted. -/
theorem Reaches.exists_says (h : Reaches stop ts accepted d left) :
    ∃ taken, Phrase.SaysAll taken accepted ∧ taken ++ left = ts := by
  induction h with
  | start => exact ⟨[], ⟨[], .none fun t ht => absurd ht List.not_mem_nil, .nil⟩, rfl⟩
  | @next accepted d d' left rest s _ hbefore hrun _ ih =>
      obtain ⟨taken, hsays, rfl⟩ := ih
      obtain ⟨line, hline, hleft⟩ := Reader.exists_newlines left
      obtain ⟨word, hword, hskip⟩ := Statement.tells_reader.exists_word hrun
      rw [← hskip] at hleft
      have hlines : Phrase.IsLines [word] (line ++ (word ++ [])) :=
        .next hline (fun t ht => by cases ht) (.none fun t ht => absurd ht List.not_mem_nil)
      rw [List.append_nil] at hlines
      have hone : Phrase.SaysAll (line ++ word) [s] := ⟨[word], hlines, .cons hword .nil⟩
      refine ⟨taken ++ (line ++ word), hsays.append (hbefore.imp_right fun hend t ht => ?_) hone, ?_⟩
      · rcases hend with hnewline | hnil
        · have hfront : left.head? = some t := by
            rw [← hleft, ← List.append_assoc, List.head?_append, ht]
            rfl
          obtain ⟨us, rfl⟩ := List.head?_eq_some_iff.mp hfront
          exact hnewline
        · rw [hnil] at hrun
          exact absurd (Statement.reader.length_lt hrun) (Nat.not_lt_zero _)
      · rw [← hleft]
        simp only [List.append_assoc]

/-- The color of a component that is written as a name is the last one declared under this name by the last
of the colors before. -/
def Paints (before : List Statement) (listed : List (String × Token)) (key : String) (color : Option String) :
    Prop :=
  ∀ t name, Keyed.IsLast listed key t → t.value = "$" ++ name →
    ∃ entries value, Statement.IsLast .colors before (.colors entries) ∧ Keyed.IsLast entries name value ∧
      color = some value

theorem paints_of_chosen {listed : List (String × Token)} {key : String} {color : Option String}
    (h : Chosen (settingsInForce accepted).palette (Keyed.ofEntries listed) key color) :
    Paints accepted listed key color := by
  intro t name ht hname
  rw [Chosen, Keyed.lookup_ofEntries_eq_some_iff.mpr ht] at h
  obtain ⟨found, hfound, hcolor⟩ := h
  rw [Color.resolve, hname, Color.reference?_eq_some_iff.mpr rfl] at hfound
  simp only at hfound
  split at hfound
  · next value hlookup =>
    cases hfound
    rcases Statement.last_counts .colors accepted with ⟨-, hnone⟩ | ⟨s, hlast, hholds⟩
    · have hempty : (settingsInForce accepted).palette = [] := hnone
      rw [hempty] at hlookup
      cases hlookup
    · have hsetting := hlast.setting
      cases s with
      | colors entries =>
          have hpalette : (settingsInForce accepted).palette = Keyed.ofEntries entries := hholds
          rw [hpalette] at hlookup
          exact ⟨entries, found, hlast, Keyed.lookup_ofEntries_eq_some_iff.mp hlookup, hcolor⟩
      | _ => cases hsetting
  · cases hfound

/-- Each component statement adds a component, which has the colors that the settings before it give. -/
theorem Reaches.components_eq (h : Reaches stop ts accepted d left) :
    d.components.length = accepted.countP (·.range?.isSome) ∧
      ∀ before range listed location after, accepted = before ++ .component range listed location :: after →
        ∃ c, d.components[before.countP (·.range?.isSome)]? = some c ∧
          Colored (settingsInForce before).palette range listed c := by
  induction h with
  | start => exact ⟨rfl, fun before _ _ _ after hsplit => by simp at hsplit⟩
  | @next accepted d d' left rest s hreaches _ _ haccept ih =>
      obtain ⟨hlength, hcomponents⟩ := ih
      have hkept (hbegins : d.components <+: d'.components) {before after range listed location}
          (hsplit : accepted = before ++ .component range listed location :: after) :
          ∃ c, d'.components[before.countP (·.range?.isSome)]? = some c ∧
            Colored (settingsInForce before).palette range listed c := by
        obtain ⟨c, hc, hcolored⟩ := hcomponents before range listed location after hsplit
        obtain ⟨more, hmore⟩ := hbegins
        rw [← hmore, List.getElem?_append_left (List.getElem?_eq_some_iff.mp hc).1]
        exact ⟨c, hc, hcolored⟩
      have hends {before after range listed location}
          (hsplit : accepted ++ [s] = before ++ .component range listed location :: after) :
          (∃ middle, accepted = before ++ .component range listed location :: middle) ∨
            accepted = before ∧ s = .component range listed location := by
        rcases List.eq_nil_or_concat after with rfl | ⟨middle, last, rfl⟩
        · obtain ⟨hfront, hlast⟩ := List.append_inj' hsplit rfl
          exact Or.inr ⟨hfront, (List.cons.inj hlast).1⟩
        · rw [List.concat_eq_append, ← List.cons_append, ← List.append_assoc] at hsplit
          exact Or.inl ⟨middle, (List.append_inj' hsplit rfl).1⟩
      rw [List.countP_append, ← hlength]
      rcases accept_cases haccept with ⟨range, listed, location, c, rfl, hc, rfl⟩ |
        ⟨cols, rows, location, rfl, -, rfl⟩ | ⟨hrange, -, hsame, -⟩
      · refine ⟨by simp [Statement.range?], fun before range' listed' location' after hsplit => ?_⟩
        rcases hends hsplit with ⟨middle, hold⟩ | ⟨rfl, hnew⟩
        · exact hkept (List.prefix_append _ _) hold
        · cases hnew
          refine ⟨c, ?_, ?_⟩
          · rw [← hlength]
            exact List.getElem?_concat_length
          · rw [← hreaches.settings_eq]
            exact colored_component hc
      · refine ⟨by simp [Statement.range?, set], fun before range listed location' after hsplit => ?_⟩
        rcases hends hsplit with ⟨middle, hold⟩ | ⟨-, hnew⟩
        · exact hkept (List.prefix_refl _) hold
        · cases hnew
      · refine ⟨by simp [hrange, hsame], fun before range listed location after hsplit => ?_⟩
        rcases hends hsplit with ⟨middle, hold⟩ | ⟨-, rfl⟩
        · exact hkept (hsame ▸ List.prefix_refl _) hold
        · cases hrange

end Draft

namespace Document

variable {source : String} {doc : Document}

/-- A document that has been read has what its statements say. Each setting is that of its last statement,
and what it is in a document that makes none where no statement makes it; the weights of an axis are as many
as the cells of the last grid. The components are those of the component statements in their order, and a
background or border that is written as a name is the last color under this name in the last colors declared
before the component. -/
theorem read_declared (h : (read source).value = .ok doc) :
    ∃ ts ss, Tokens.read source = .ok ts ∧ Phrase.SaysAll ts.list ss ∧
      (∀ k : Setting, ((∀ s ∈ ss, s.setting? ≠ some k) ∧ k.Same doc.settings {}) ∨
        ∃ s, Statement.IsLast k ss s ∧ s.Holds doc.settings) ∧
      (∀ axis ws, doc.settings.weights axis = some ws → (ws.length : Int) = doc.settings.count axis) ∧
      doc.components.length = ss.countP (·.range?.isSome) ∧
      ∀ before range listed location after, ss = before ++ .component range listed location :: after →
        ∃ c, doc.components[before.countP (·.range?.isSome)]? = some c ∧ c.range = range ∧
          Draft.Paints before listed "bg" c.bg ∧ Draft.Paints before listed "border" c.border := by
  obtain ⟨ts, d, htokens, hextend, hfinish⟩ := read_eq_ok.mp h
  have hends := Draft.ends_run ts.last ts.list
  rw [hextend] at hends
  obtain ⟨accepted, left, hreaches, hnone⟩ := hends
  obtain ⟨-, -, herrors, rfl⟩ := Draft.finish_eq_ok.mp hfinish
  obtain ⟨taken, hsays, htaken⟩ := hreaches.exists_says
  obtain ⟨hlength, hcomponents⟩ := hreaches.components_eq
  refine ⟨ts, accepted, htokens, ?_, fun k => ?_, fun axis => ?_, hlength, ?_⟩
  · obtain ⟨line, hline, hleft⟩ := Reader.exists_newlines left
    rw [hnone, List.append_nil] at hleft
    subst hleft
    have hall := hsays.append (Or.inr fun t ht => hline t (List.mem_of_mem_head? ht)) ⟨[], .none hline, .nil⟩
    rwa [htaken, List.append_nil] at hall
  · have hcounts := Statement.last_counts k accepted
    rwa [← hreaches.settings_eq] at hcounts
  · exact Settings.miscounted_eq_none_iff.mp ((Settings.errors_eq_nil_iff.mp herrors).2 axis)
  · intro before range listed location after hsplit
    obtain ⟨c, hc, hcolored⟩ := hcomponents before range listed location after hsplit
    exact ⟨c, hc, hcolored.range, Draft.paints_of_chosen hcolored.bg, Draft.paints_of_chosen hcolored.border⟩

/-- The second colors replace the first ones, which the first component has been painted with, and the
second weights replace the first ones, which are under another spelling of their key. -/
theorem read_declared_of_two_palettes :
    ∃ source doc, source = "colors: \x7b a: red, b: \"#111\", a: \"#222\" \x7d\nA1: \x7b type: box, bg: $a \x7d\n" ++
        "COL-WIDTHS: [1, 2]\ncolors: \x7b b: blue \x7d\ncolWidths: [1, 1, 2]\ngrid: 3x2\n" ++
        "B1: \x7b type: box, border: \"$b\" \x7d" ∧
      (read source).value = .ok doc ∧
      (doc.settings.grid, doc.settings.palette, doc.components.map fun c => (c.bg, c.border)) =
        ((3, 2), [("b", "blue")], [(some "#222", none), (none, some "blue")]) ∧
      ∃ ts ss, Tokens.read source = .ok ts ∧ Phrase.SaysAll ts.list ss ∧
        ss.countP (·.range?.isSome) = 2 ∧ ∀ ws, doc.settings.colWidths = some ws → ws.length = 3 := by
  obtain ⟨source, hsource⟩ : ∃ source, source =
      "colors: \x7b a: red, b: \"#111\", a: \"#222\" \x7d\nA1: \x7b type: box, bg: $a \x7d\n" ++
        "COL-WIDTHS: [1, 2]\ncolors: \x7b b: blue \x7d\ncolWidths: [1, 1, 2]\ngrid: 3x2\n" ++
        "B1: \x7b type: box, border: \"$b\" \x7d" := ⟨_, rfl⟩
  have hparts : (read source).value.toOption.map (fun doc => (doc.settings.grid, doc.settings.palette,
      doc.components.map fun c => (c.bg, c.border))) =
        some ((3, 2), [("b", "blue")], [(some "#222", none), (none, some "blue")]) := by
    rw [hsource]
    decide +kernel
  obtain ⟨doc, hdoc, hvalue⟩ := Option.map_eq_some_iff.mp hparts
  rw [Results.toOption_eq_some] at hdoc
  obtain ⟨ts, ss, htokens, hsays, -, hweights, hlength, -⟩ := read_declared hdoc
  have hgrid : doc.settings.grid = (3, 2) := congrArg (·.1) hvalue
  have htwo : doc.components.length = 2 := by
    have hcolors := congrArg (·.2.2.length) hvalue
    rwa [List.length_map] at hcolors
  refine ⟨source, doc, hsource, hdoc, hvalue, ts, ss, htokens, hsays, hlength.symm.trans htwo, fun ws hws => ?_⟩
  have hcount := hweights .columns ws hws
  rw [Settings.count, hgrid] at hcount
  exact Int.ofNat.inj hcount

end Document
end Wireframe
