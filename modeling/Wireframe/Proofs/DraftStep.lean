import Wireframe.Document.Draft
import Wireframe.Proofs.Results

/-! What one statement does to a draft. A component statement adds the component that its entries choose
and no other statement adds or removes one; a grid statement sets the grid and no other statement does
(`accept_cases`). The settings change as the statement says by itself (`accept_settings`). What has been
checked when a component is added is read off `choose_eq_ok` and `component_eq_ok`. -/

namespace Wireframe

namespace Statement

/-- The grid that a statement declares. -/
def grid? : Statement → Option (Int × Int)
  | grid cols rows _ => some (cols, rows)
  | _ => none

/-- The range that a statement puts a component on. -/
def range? : Statement → Option Range
  | component range _ _ => some range
  | _ => none

/-- What a statement makes of the settings before it. -/
def change (s : Settings) : Statement → Settings
  | ratio width height => { s with ratio := (width, height) }
  | grid cols rows _ => { s with grid := (cols, rows) }
  | gap pixels => { s with gap := .real pixels }
  | padding pixels => { s with padding := some pixels }
  | colors entries => { s with palette := Keyed.ofEntries entries }
  | theme name => { s with theme := some name }
  | weights .columns values _ => { s with colWidths := some values }
  | weights .rows values _ => { s with rowHeights := some values }
  | component .. => s

end Statement

theorem Align.ofName?_eq_some_iff {name : String} {align : Align} :
    ofName? name = some align ↔ name = align.name := by
  constructor
  · intro h
    rw [ofName?] at h
    simpa [eq_comm] using List.find?_some h
  · rintro rfl
    cases align <;> rfl

theorem Component.Kind.ofName?_eq_some_iff {name : String} {kind : Kind} :
    ofName? name = some kind ↔ name = kind.name := by
  constructor
  · intro h
    rw [ofName?] at h
    simpa [eq_comm] using List.find?_some h
  · rintro rfl
    cases kind <;> rfl

theorem Component.range_ofProperties {kind : Component.Kind} {range : Range}
    {p : Component.Properties} {c : Component} (h : Component.ofProperties kind range p = .ok c) :
    c.range = range := by
  cases kind <;>
    · simp only [ofProperties] at h
      split at h
      · cases h
        rfl
      · cases h

namespace Draft

variable {d d' : Draft} {range : Range}

theorem choose_eq_ok {entries : List (String × Token)} {choice : Choice} :
    d.choose range entries = .ok choice ↔
      chooseKind entries = .ok choice.kind ∧ chooseAlign entries = .ok choice.align ∧
      d.checkOverlap range = .ok () ∧ d.checkBounds range = .ok () ∧
      d.chooseColor "bg" entries = .ok choice.bg ∧
      d.chooseColor "border" entries = .ok choice.border := by
  obtain ⟨kind, align, bg, border⟩ := choice
  simp only [choose, Results.bind_eq_ok]
  constructor
  · rintro ⟨kind, hkind, align, halign, _, hoverlap, _, hbounds, bg, hbg, border, hborder, h⟩
    cases h
    exact ⟨hkind, halign, hoverlap, hbounds, hbg, hborder⟩
  · rintro ⟨hkind, halign, hoverlap, hbounds, hbg, hborder⟩
    exact ⟨_, hkind, _, halign, (), hoverlap, (), hbounds, _, hbg, _, hborder, rfl⟩

/-- The properties of a component before its entries are walked through. -/
def start (choice : Choice) : Component.Properties :=
  { align := choice.align.name, bg := choice.bg, border := choice.border }

theorem component_eq_ok {listed : List (String × Token)} {location : Location} {c : Component} :
    (d.component range listed location).value = .ok c ↔
      ∃ choice p, d.choose range (Keyed.ofEntries listed) = .ok choice ∧
        (collect choice.kind (start choice) (Keyed.erase "type" (Keyed.ofEntries listed))).value =
          .ok p ∧
        Component.ofProperties choice.kind range p = .ok c := by
  rw [component]
  cases hchoose : d.choose range (Keyed.ofEntries listed) with
  | error fault =>
      constructor
      · intro h
        cases h
      · rintro ⟨_, _, h, _⟩
        cases h
  | ok choice =>
      simp only [Noted.value_bind, Noted.value_pure]
      constructor
      · intro h
        obtain ⟨p, hcollect, hmake⟩ := Results.bind_eq_ok.mp h
        exact ⟨choice, p, rfl, hcollect, Results.mapError_eq_ok.mp hmake⟩
      · rintro ⟨choice', p, hsame, hcollect, hmake⟩
        cases hsame
        exact Results.bind_eq_ok.mpr ⟨p, hcollect, Results.mapError_eq_ok.mpr hmake⟩

theorem accept_cases {s : Statement} (h : (d.accept s).value = .ok d') :
    (∃ range listed location c, s = .component range listed location ∧
      (d.component range listed location).value = .ok c ∧
      d' = { d with components := d.components ++ [c] }) ∨
    (∃ cols rows location, s = .grid cols rows location ∧ d.excluded? cols rows = none ∧
      d' = d.set ({ · with grid := (cols, rows) })) ∨
    (s.range? = none ∧ s.grid? = none ∧ d'.components = d.components ∧
      d'.settings.grid = d.settings.grid) := by
  cases s with
  | component range listed location =>
      refine Or.inl ⟨range, listed, location, ?_⟩
      obtain ⟨c, hc, hd⟩ := Results.map_eq_ok.mp h
      exact ⟨c, rfl, hc, hd.symm⟩
  | grid cols rows location =>
      refine Or.inr (Or.inl ⟨cols, rows, location, rfl, ?_⟩)
      simp only [accept, Noted.value_pure] at h
      split at h
      · next hnone =>
        cases h
        exact ⟨hnone, rfl⟩
      · cases h
  | weights axis values location =>
      refine Or.inr (Or.inr ⟨rfl, rfl, ?_⟩)
      cases h
      cases axis <;> exact ⟨rfl, rfl⟩
  | ratio | gap | padding | colors | theme =>
      cases h
      exact Or.inr (Or.inr ⟨rfl, rfl, rfl, rfl⟩)

theorem accept_settings {s : Statement} (h : (d.accept s).value = .ok d') :
    d'.settings = s.change d.settings := by
  cases s with
  | component range listed location =>
      obtain ⟨c, -, rfl⟩ := Results.map_eq_ok.mp h
      rfl
  | grid cols rows location =>
      simp only [accept, Noted.value_pure] at h
      split at h
      · cases h
        rfl
      · cases h
  | weights axis values location =>
      cases h
      cases axis <;> rfl
  | ratio | gap | padding | colors | theme =>
      cases h
      rfl

end Draft
end Wireframe
