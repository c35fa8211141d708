import Wireframe.Document.Issue
import Wireframe.Proofs.DraftLayout

/-! The colors of components. A color that is written as a name is looked up once, in the palette in
force at its statement, and what the palette has there is taken as it stands. So a component has a color
that is a name exactly when its statement refers to one that the palette has under another name, and the
issues of a document that has been read are the names among its colors that its palette lacks
(`Document.read_resolved`). -/

namespace Wireframe

namespace Keyed

variable {α : Type} {key k : String} {value v : α}

theorem mem_insert_of_lookup {l : List (String × α)} (h : (insert key value l).lookup k = some v) :
    v = value ∨ l.lookup k = some v := by
  rw [lookup_insert] at h
  split at h
  · exact Or.inl (Option.some.inj h).symm
  · exact Or.inr h

/-- What is found under a name is the value of one of the entries. -/
theorem exists_mem_of_lookup {entries : List (String × α)} (h : (ofEntries entries).lookup k = some v) :
    ∃ e ∈ entries, e.2 = v := by
  have hfold (entries before : List (String × α))
      (h : (entries.foldl (fun l e => insert e.1 e.2 l) before).lookup k = some v) :
      before.lookup k = some v ∨ ∃ e ∈ entries, e.2 = v := by
    induction entries generalizing before with
    | nil => exact Or.inl h
    | cons e rest ih =>
        rcases ih _ h with hbefore | ⟨e', he', hv⟩
        · rcases mem_insert_of_lookup hbefore with rfl | hbefore
          · exact Or.inr ⟨e, List.mem_cons_self, rfl⟩
          · exact Or.inl hbefore
        · exact Or.inr ⟨e', List.mem_cons_of_mem _ he', hv⟩
  exact (hfold entries [] h).resolve_left nofun

end Keyed

namespace Color

variable {palette : Palette} {value color name : String}

/-- The color is written as a name: it starts with `$`. -/
def IsName (color : String) : Prop := color.toList.head? = some '$'

theorem isName_iff : IsName color ↔ ∃ name, reference? color = some name := by
  rw [IsName, reference?]
  split
  · next h => simp [h]
  · next h =>
    constructor
    · intro hhead
      obtain ⟨rest, hrest⟩ := List.head?_eq_some_iff.mp hhead
      exact absurd hrest (h rest)
    · rintro ⟨_, hname⟩
      cases hname

theorem reference?_eq_some_iff {value name : String} :
    reference? value = some name ↔ value = "$" ++ name := by
  have hdollar : "$".toList = ['$'] := by rfl
  rw [← String.toList_inj, String.toList_append, hdollar, List.singleton_append, reference?]
  split
  · next rest h =>
    rw [h, List.cons.injEq, Option.some.injEq, ← String.toList_inj, String.toList_ofList]
    exact ⟨fun heq => ⟨rfl, heq⟩, And.right⟩
  · next h => exact ⟨nofun, fun heq => absurd heq (h _)⟩

/-- The value refers to a color of the palette. -/
def RefersTo (palette : Palette) (value color : String) : Prop :=
  ∃ name, reference? value = some name ∧ palette.lookup name = some color

theorem RefersTo.resolve_eq (h : RefersTo palette value color) : resolve palette value = .ok color := by
  obtain ⟨name, hname, hcolor⟩ := h
  simp only [resolve, hname, hcolor]

/-- A color that is still a name has been looked up. -/
theorem refersTo_of_isName (h : resolve palette value = .ok color) (hname : IsName color) :
    RefersTo palette value color := by
  obtain ⟨name, hname⟩ := isName_iff.mp hname
  rw [resolve] at h
  split at h
  · next hnone =>
    cases h
    rw [hnone] at hname
    cases hname
  · next found hfound =>
    split at h
    · next hlookup =>
      cases h
      exact ⟨found, hfound, hlookup⟩
    · cases h

theorem unresolved?_eq_none_iff {color : Option String} :
    unresolved? palette color = none ↔
      ∀ c ∈ color, ∀ name, reference? c = some name → (palette.lookup name).isSome = true := by
  rw [unresolved?]
  cases color with
  | none => simp
  | some c =>
      cases hname : reference? c with
      | none => simp [hname]
      | some name => simp [hname]

end Color

namespace Component

/-- The colors that the component has. -/
def colors (c : Component) : List String := c.bg.toList ++ c.border.toList

/-- No color of the component is a name. -/
def IsResolved (c : Component) : Prop := ∀ color ∈ c.colors, ¬Color.IsName color

theorem mem_colors {c : Component} {color : String} :
    color ∈ c.colors ↔ c.bg = some color ∨ c.border = some color := by
  rw [colors, List.mem_append, Option.mem_toList, Option.mem_toList]

theorem colors_ofProperties {kind : Kind} {range : Range} {p : Properties} {c : Component}
    (h : ofProperties kind range p = .ok c) : c.bg = p.bg ∧ c.border = p.border := by
  cases kind <;>
    · simp only [ofProperties] at h
      split at h
      · cases h
        exact ⟨rfl, rfl⟩
      · cases h

end Component

/-- The colors that a statement declares. -/
def Statement.palette? : Statement → Option Palette
  | colors entries => some (Keyed.ofEntries entries)
  | _ => none

/-- The palette in force after some statements: the last one declared, or none. -/
def paletteInForce (accepted : List Statement) : Palette :=
  (accepted.filterMap Statement.palette?).getLastD []

/-- What is found in the palette in force is listed by a statement. -/
theorem exists_colors_of_lookup {accepted : List Statement} {name color : String}
    (h : (paletteInForce accepted).lookup name = some color) :
    ∃ entries, Statement.colors entries ∈ accepted ∧ ∃ e ∈ entries, e.2 = color := by
  rw [paletteInForce] at h
  cases hlast : (accepted.filterMap Statement.palette?).getLast? with
  | none =>
      rw [List.getLastD_eq_getLast?, hlast] at h
      cases h
  | some palette =>
      rw [List.getLastD_eq_getLast?, hlast, Option.getD_some] at h
      obtain ⟨s, hs, hpalette⟩ := List.mem_filterMap.mp (List.mem_of_getLast? hlast)
      cases s with
      | colors entries =>
          cases hpalette
          exact ⟨entries, hs, Keyed.exists_mem_of_lookup h⟩
      | _ => cases hpalette

namespace Draft

variable {d d' : Draft} {range : Range} {key : String} {color : Option String}
  {entries listed : List (String × Token)} {location : Location}

/-- What an entry for a color comes to: nothing where there is no entry, else what its value is resolved
to. -/
def Chosen (palette : Palette) (entries : List (String × Token)) (key : String) (color : Option String) :
    Prop :=
  match entries.lookup key with
  | none => color = none
  | some t => ∃ found, Color.resolve palette t.value = .ok found ∧ color = some found

theorem chosen_of_chooseColor (h : d.chooseColor key entries = .ok color) :
    Chosen d.settings.palette entries key color := by
  rw [chooseColor] at h
  split at h
  · next hnone =>
    cases h
    rw [Chosen, hnone]
  · next t ht =>
    split at h
    · next found hfound =>
      cases h
      rw [Chosen, ht]
      exact ⟨found, hfound, rfl⟩
    · cases h

theorem collect_colors {kind : Component.Kind} {p p' : Component.Properties}
    (h : (collect kind p entries).value = .ok p') : p'.bg = p.bg ∧ p'.border = p.border := by
  induction entries generalizing p with
  | nil =>
      cases h
      exact ⟨rfl, rfl⟩
  | cons e rest ih =>
      obtain ⟨key, t⟩ := e
      rw [collect] at h
      split at h
      · exact ih h
      split at h
      · split at h
        · have hrest := ih h
          exact hrest
        · cases h
      · have hsame : (withText p key t.value).bg = p.bg ∧ (withText p key t.value).border = p.border := by
          rw [withText]
          repeat' split
          all_goals exact ⟨rfl, rfl⟩
        rw [← hsame.1, ← hsame.2]
        exact ih h

/-- The colors of the component are those that its statement chooses from the palette. -/
structure Colored (palette : Palette) (range : Range) (listed : List (String × Token)) (c : Component) :
    Prop where
  range : c.range = range
  bg : Chosen palette (Keyed.ofEntries listed) "bg" c.bg
  border : Chosen palette (Keyed.ofEntries listed) "border" c.border

theorem colored_component {c : Component} (h : (d.component range listed location).value = .ok c) :
    Colored d.settings.palette range listed c := by
  obtain ⟨choice, p, hchoose, hcollect, hmake⟩ := component_eq_ok.mp h
  obtain ⟨-, -, -, -, hbg, hborder⟩ := choose_eq_ok.mp hchoose
  obtain ⟨hbg', hborder'⟩ := Component.colors_ofProperties hmake
  obtain ⟨hstartBg, hstartBorder⟩ := collect_colors hcollect
  refine ⟨Component.range_ofProperties hmake, ?_, ?_⟩
  · rw [hbg', hstartBg]
    exact chosen_of_chooseColor hbg
  · rw [hborder', hstartBorder]
    exact chosen_of_chooseColor hborder

theorem accept_palette {s : Statement} {accepted : List Statement}
    (hd : d.settings.palette = paletteInForce accepted) (h : (d.accept s).value = .ok d') :
    d'.settings.palette = paletteInForce (accepted ++ [s]) := by
  rw [accept_settings h, paletteInForce, List.filterMap_append]
  cases s with
  | colors entries => exact List.getLastD_concat.symm
  | weights axis =>
      rw [paletteInForce] at hd
      cases axis <;> simpa [Statement.change, Statement.palette?] using hd
  | _ =>
      rw [paletteInForce] at hd
      simpa [Statement.change, Statement.palette?] using hd

variable {stop : Token} {ts left : List Token} {accepted : List Statement}

theorem Reaches.palette_eq (h : Reaches stop ts accepted d left) :
    d.settings.palette = paletteInForce accepted := by
  induction h with
  | start => rfl
  | next _ _ _ haccept ih => exact accept_palette ih haccept

/-- A component has the colors that some statement of the run chooses from the palette in force there. -/
theorem Reaches.exists_statement (h : Reaches stop ts accepted d left) {c : Component}
    (hc : c ∈ d.components) :
    ∃ before range listed location after,
      accepted = before ++ .component range listed location :: after ∧
        Colored (paletteInForce before) range listed c := by
  induction h with
  | start => cases hc
  | @next accepted d d' left rest s hbefore _ _ haccept ih =>
      have hold (hc : c ∈ d.components) : ∃ before range listed location after,
          accepted ++ [s] = before ++ .component range listed location :: after ∧
            Colored (paletteInForce before) range listed c := by
        obtain ⟨before, range, listed, location, after, rfl, hcolored⟩ := ih hc
        exact ⟨before, range, listed, location, after ++ [s], by simp, hcolored⟩
      rcases accept_cases haccept with ⟨range, listed, location, c', rfl, hc', rfl⟩ |
        ⟨cols, rows, location, rfl, -, rfl⟩ | ⟨-, -, hsame, -⟩
      · rcases List.mem_append.mp hc with hc | hc
        · exact hold hc
        · rw [List.mem_singleton.mp hc]
          refine ⟨accepted, range, listed, location, [], rfl, ?_⟩
          rw [← hbefore.palette_eq]
          exact colored_component hc'
      · exact hold hc
      · exact hold (hsame ▸ hc)

/-- Each component statement of the run has a component with the colors that it chooses. -/
theorem Reaches.exists_component (h : Reaches stop ts accepted d left) {before after : List Statement}
    (hsplit : accepted = before ++ .component range listed location :: after) :
    ∃ c ∈ d.components, Colored (paletteInForce before) range listed c := by
  induction h generalizing after with
  | start => simp at hsplit
  | @next accepted d d' left rest s hbefore _ _ haccept ih =>
      -- no statement takes a component away, so only the last one needs a look at what it adds
      have hkept : ∀ c ∈ d.components, c ∈ d'.components := by
        intro c hc
        rcases accept_cases haccept with ⟨_, _, _, _, -, -, rfl⟩ | ⟨_, _, _, -, -, rfl⟩ | ⟨-, -, hsame, -⟩
        · exact List.mem_append_left _ hc
        · exact hc
        · rw [hsame]
          exact hc
      rcases List.eq_nil_or_concat after with rfl | ⟨middle, last, rfl⟩
      · obtain ⟨rfl, hlast⟩ := List.append_inj' hsplit rfl
        cases hlast
        obtain ⟨c, hc, rfl⟩ := Results.map_eq_ok.mp haccept
        refine ⟨c, List.mem_append_right _ List.mem_cons_self, ?_⟩
        rw [← hbefore.palette_eq]
        exact colored_component hc
      · have hends : accepted ++ [s] = (before ++ .component range listed location :: middle) ++ [last] := by
          simpa using hsplit
        obtain ⟨hfront, -⟩ := List.append_inj' hends rfl
        obtain ⟨c, hc, hcolored⟩ := ih hfront
        exact ⟨c, hkept c hc, hcolored⟩

end Draft

/-- The statement is of a component with a color that refers to the given one of the palette. -/
def Statement.RefersTo (palette : Palette) (color : String) : Statement → Prop
  | component _ listed _ => ∃ key ∈ ["bg", "border"], ∃ t, (Keyed.ofEntries listed).lookup key = some t ∧
      Color.RefersTo palette t.value color
  | _ => False

namespace Draft

variable {palette : Palette} {range : Range} {listed entries : List (String × Token)} {location : Location}
  {key color : String} {c : Component}

theorem Chosen.refersTo (h : Chosen palette entries key (some color)) (hname : Color.IsName color) :
    ∃ t, entries.lookup key = some t ∧ Color.RefersTo palette t.value color := by
  rw [Chosen] at h
  split at h
  · cases h
  · next t ht =>
    obtain ⟨found, hfound, hsome⟩ := h
    cases hsome
    exact ⟨t, ht, Color.refersTo_of_isName hfound hname⟩

theorem Chosen.eq_some {chosen : Option String} (h : Chosen palette entries key chosen) {t : Token}
    (ht : entries.lookup key = some t) (hrefers : Color.RefersTo palette t.value color) :
    chosen = some color := by
  rw [Chosen, ht] at h
  obtain ⟨found, hfound, rfl⟩ := h
  rw [hrefers.resolve_eq] at hfound
  cases hfound
  rfl

theorem Colored.refersTo (h : Colored palette range listed c) (hcolor : color ∈ c.colors)
    (hname : Color.IsName color) : (Statement.component range listed location).RefersTo palette color := by
  rcases Component.mem_colors.mp hcolor with hbg | hborder
  · exact ⟨"bg", List.mem_cons_self, (hbg ▸ h.bg).refersTo hname⟩
  · exact ⟨"border", List.mem_cons_of_mem _ List.mem_cons_self, (hborder ▸ h.border).refersTo hname⟩

theorem Colored.mem_colors (h : Colored palette range listed c)
    (hrefers : (Statement.component range listed location).RefersTo palette color) : color ∈ c.colors := by
  obtain ⟨key, hkey, t, ht, hrefers⟩ := hrefers
  rw [Component.mem_colors]
  simp only [List.mem_cons, List.not_mem_nil, or_false] at hkey
  rcases hkey with rfl | rfl
  · exact Or.inl (h.bg.eq_some ht hrefers)
  · exact Or.inr (h.border.eq_some ht hrefers)

variable {d : Draft} {stop : Token} {ts left : List Token} {accepted : List Statement}

/-- The components have no names for colors exactly when no statement refers to one that is a name
again. -/
theorem Reaches.isResolved_iff (h : Reaches stop ts accepted d left) :
    (∀ c ∈ d.components, c.IsResolved) ↔
      ∀ before s after, accepted = before ++ s :: after →
        ∀ color, s.RefersTo (paletteInForce before) color → ¬Color.IsName color := by
  constructor
  · intro hresolved before s after hsplit color hrefers
    cases s with
    | component range listed location =>
        obtain ⟨c, hc, hcolored⟩ := h.exists_component hsplit
        exact hresolved c hc color (hcolored.mem_colors hrefers)
    | _ => exact hrefers.elim
  · intro hplain c hc color hcolor hname
    obtain ⟨before, range, listed, location, after, hsplit, hcolored⟩ := h.exists_statement hc
    exact hplain before _ after hsplit color (hcolored.refersTo hcolor hname) hname

/-- Where no color that is declared is a name, none that a component has is one. -/
theorem Reaches.isResolved_of_colors (h : Reaches stop ts accepted d left)
    (hcolors : ∀ entries, Statement.colors entries ∈ accepted → ∀ e ∈ entries, ¬Color.IsName e.2) :
    ∀ c ∈ d.components, c.IsResolved := by
  refine h.isResolved_iff.mpr fun before s after hsplit color hrefers => ?_
  have hlooked : ∃ name, (paletteInForce before).lookup name = some color := by
    cases s with
    | component range listed location =>
        obtain ⟨-, -, t, -, name, -, hlookup⟩ := hrefers
        exact ⟨name, hlookup⟩
    | _ => exact hrefers.elim
  obtain ⟨name, hlookup⟩ := hlooked
  obtain ⟨entries, hentries, e, he, rfl⟩ := exists_colors_of_lookup hlookup
  refine hcolors entries ?_ e he
  rw [hsplit]
  exact List.mem_append_left _ hentries

end Draft

namespace Document

/-- The names among the colors of the component are all in the palette. -/
def Known (palette : Palette) (c : Component) : Prop :=
  ∀ color ∈ c.colors, ∀ name, Color.reference? color = some name → (palette.lookup name).isSome = true

theorem known_iff {palette : Palette} {c : Component} :
    Known palette c ↔ Color.unresolved? palette c.bg = none ∧ Color.unresolved? palette c.border = none := by
  rw [Color.unresolved?_eq_none_iff, Color.unresolved?_eq_none_iff]
  constructor
  · intro h
    exact ⟨fun color hbg => h color (Component.mem_colors.mpr (Or.inl hbg)),
      fun color hborder => h color (Component.mem_colors.mpr (Or.inr hborder))⟩
  · rintro ⟨hbg, hborder⟩ color hcolor
    rcases Component.mem_colors.mp hcolor with h | h
    · exact hbg color h
    · exact hborder color h

theorem defects_eq_nil_iff {c : Component} {s : Settings} {before : List Range} :
    c.defects s before = [] ↔
      (∀ r ∈ before, ∀ cell ∈ r.cells, cell ∉ c.range.cells) ∧ (∀ cell ∈ c.range.cells, cell.IsOn s.grid) ∧
        Known s.palette c := by
  rw [Component.defects, List.append_eq_nil_iff, List.append_eq_nil_iff, List.append_eq_nil_iff, known_iff,
    ← Range.firstOverlap?_eq_none_iff, ← Violation.of?_eq_none_iff]
  simp [and_assoc]

/-- Components behind others have no issue exactly when they keep off their cells, are laid out, and have
no unknown names. -/
theorem issuesFrom_eq_nil_iff_laidOut {s : Settings} {cs : List Component} {index : Nat} {before : List Range} :
    issuesFrom s index before cs = [] ↔
      (∀ r ∈ before, ∀ c ∈ cs, ∀ cell ∈ r.cells, cell ∉ c.range.cells) ∧ LaidOut cs s.grid ∧
        ∀ c ∈ cs, Known s.palette c := by
  induction cs generalizing index before with
  | nil =>
      exact ⟨fun _ => ⟨fun r _ c hc => absurd hc List.not_mem_nil,
        ⟨List.Pairwise.nil, fun c hc => absurd hc List.not_mem_nil⟩, fun c hc => absurd hc List.not_mem_nil⟩,
        fun _ => rfl⟩
  | cons c cs ih =>
      rw [issuesFrom, List.append_eq_nil_iff, List.map_eq_nil_iff, defects_eq_nil_iff, ih]
      constructor
      · rintro ⟨⟨hfree, hon, hknown⟩, hbefore, hlaid, hall⟩
        refine ⟨fun r hr => List.forall_mem_cons.mpr ⟨hfree r hr, hbefore r (List.mem_append_left _ hr)⟩,
          ⟨List.pairwise_cons.mpr ⟨?_, hlaid.disjoint⟩, List.forall_mem_cons.mpr ⟨hon, hlaid.inside⟩⟩,
          List.forall_mem_cons.mpr ⟨hknown, hall⟩⟩
        exact hbefore c.range (List.mem_append_right _ (List.mem_singleton_self _))
      · rintro ⟨hbefore, hlaid, hall⟩
        obtain ⟨hhead, htail⟩ := List.pairwise_cons.mp hlaid.disjoint
        obtain ⟨hon, hinside⟩ := List.forall_mem_cons.mp hlaid.inside
        obtain ⟨hknown, hall⟩ := List.forall_mem_cons.mp hall
        refine ⟨⟨fun r hr => hbefore r hr c List.mem_cons_self, hon, hknown⟩, ?_, ⟨htail, hinside⟩, hall⟩
        intro r hr
        rcases List.mem_append.mp hr with hr | hr
        · exact fun c' hc' => hbefore r hr c' (List.mem_cons_of_mem c hc')
        · rw [List.mem_singleton.mp hr]
          exact hhead

/-- Components that are laid out behind the ones before them have no issue but unknown names. -/
theorem issuesFrom_eq_nil_iff {s : Settings} {cs : List Component} (index : Nat) (before : List Range)
    (hlaid : LaidOut cs s.grid) (hfree : ∀ r ∈ before, ∀ c ∈ cs, ∀ x ∈ r.cells, x ∉ c.range.cells) :
    issuesFrom s index before cs = [] ↔ ∀ c ∈ cs, Known s.palette c := by
  rw [issuesFrom_eq_nil_iff_laidOut]
  exact ⟨fun h => h.2.2, fun h => ⟨hfree, hlaid, h⟩⟩

variable {source : String} {doc : Document}

/-- How far the names of colors are resolved in a document that has been read. Its components have no
color that starts with `$` exactly when no component statement refers to such a color of the palette in
force there; they have none, and the document has no issue, when no color that is declared is one. The
document has no issue exactly when its palette has all names that are left. -/
theorem read_resolved (h : (read source).value = .ok doc) :
    ∃ ts accepted d left, Tokens.read source = .ok ts ∧
      Draft.Reaches ts.last ts.list accepted d left ∧ d.finish = .ok doc ∧
      ((∀ c ∈ doc.components, c.IsResolved) ↔
        ∀ before s after, accepted = before ++ s :: after →
          ∀ color, s.RefersTo (paletteInForce before) color → ¬Color.IsName color) ∧
      ((∀ entries, Statement.colors entries ∈ accepted → ∀ e ∈ entries, ¬Color.IsName e.2) →
        (∀ c ∈ doc.components, c.IsResolved) ∧ doc.issues = []) ∧
      (doc.issues = [] ↔ ∀ c ∈ doc.components, Known doc.settings.palette c) := by
  obtain ⟨ts, accepted, d, left, htokens, hreaches, hfinish⟩ := reaches_of_read_eq_ok h
  have hissues : doc.issues = [] ↔ ∀ c ∈ doc.components, Known doc.settings.palette c :=
    issuesFrom_eq_nil_iff 0 [] (laidOut_of_read_eq_ok h) fun r hr => absurd hr List.not_mem_nil
  refine ⟨ts, accepted, d, left, htokens, hreaches, hfinish, ?_, fun hcolors => ?_, hissues⟩
  · obtain ⟨-, -, -, rfl⟩ := Draft.finish_eq_ok.mp hfinish
    exact hreaches.isResolved_iff
  · obtain ⟨-, -, -, rfl⟩ := Draft.finish_eq_ok.mp hfinish
    have hresolved := hreaches.isResolved_of_colors hcolors
    refine ⟨hresolved, hissues.mpr fun c hc color hcolor name hname => ?_⟩
    exact absurd (Color.isName_iff.mpr ⟨name, hname⟩) (hresolved c hc color hcolor)

theorem read_resolved_of_two_palettes :
    ∃ source doc ts accepted d left,
      source = "colors: \x7b a: \"navy\" \x7d\nA1: \x7b type: box, bg: $a \x7d\n" ++
        "colors: \x7b a: \"$b\" \x7d\nB1: \x7b type: btn, border: red \x7d" ∧
      (read source).value = .ok doc ∧
      doc.components.map (·.colors) = [["navy"], ["red"]] ∧
      Tokens.read source = .ok ts ∧ Draft.Reaches ts.last ts.list accepted d left ∧
      (∀ before s after, accepted = before ++ s :: after →
        ∀ color, s.RefersTo (paletteInForce before) color → ¬Color.IsName color) ∧
      doc.issues = [] := by
  have hparts : (read ("colors: \x7b a: \"navy\" \x7d\nA1: \x7b type: box, bg: $a \x7d\n" ++
      "colors: \x7b a: \"$b\" \x7d\nB1: \x7b type: btn, border: red \x7d")).value.toOption.map
        (fun doc => (doc.components.map (·.colors),
          doc.components.all fun c => c.colors.all fun color => Color.reference? color = none)) =
      some ([["navy"], ["red"]], true) := by
    decide +kernel
  obtain ⟨doc, hdoc, hvalues⟩ := Option.map_eq_some_iff.mp hparts
  obtain ⟨hcolors, hplain⟩ := Prod.mk.inj hvalues
  have hread := Results.toOption_eq_some.mp hdoc
  have hresolved : ∀ c ∈ doc.components, c.IsResolved := by
    intro c hc color hcolor hname
    obtain ⟨name, hname⟩ := Color.isName_iff.mp hname
    have hnone := List.all_eq_true.mp (List.all_eq_true.mp hplain c hc) color hcolor
    rw [hname] at hnone
    cases hnone
  obtain ⟨ts, accepted, d, left, htokens, hreaches, -, hiff, -, hissues⟩ := read_resolved hread
  refine ⟨_, doc, ts, accepted, d, left, rfl, hread, hcolors, htokens, hreaches, hiff.mp hresolved, ?_⟩
  refine hissues.mpr fun c hc color hcolor name hname => ?_
  exact absurd (Color.isName_iff.mpr ⟨name, hname⟩) (hresolved c hc color hcolor)

/-- A color of the palette that is a name again stays one, and the document has an issue. -/
theorem read_name_of_name :
    ∃ source doc, source = "colors: \x7b a: \"$b\" \x7d\nA1: \x7b type: box, bg: $a \x7d" ∧
      (read source).value = .ok doc ∧ doc.components.map (·.bg) = [some "$b"] ∧
      doc.issues = [⟨0, .unresolved "b" "bg"⟩] := by
  have hparts : (read "colors: \x7b a: \"$b\" \x7d\nA1: \x7b type: box, bg: $a \x7d").value.toOption.map
      (fun doc => (doc.components.map (·.bg), doc.issues)) =
        some ([some "$b"], [⟨0, .unresolved "b" "bg"⟩]) := by
    decide +kernel
  obtain ⟨doc, hdoc, hvalues⟩ := Option.map_eq_some_iff.mp hparts
  obtain ⟨hcolors, hissues⟩ := Prod.mk.inj hvalues
  exact ⟨_, doc, rfl, Results.toOption_eq_some.mp hdoc, hcolors, hissues⟩

end Document
end Wireframe
