import Wireframe.Proofs.CellSets
import Wireframe.Proofs.DraftRun

/-! The layout of a run. Whatever statements have been accepted, in whatever order components and grids
come, no cell belongs to two components and every component keeps to the grid in force. A component
statement is set against the components and the grid before it, and a grid statement against the
components before it; the two checks together keep the layout (`accept_laidOut`). -/

namespace Wireframe

/-- No cell belongs to two of the components, and all their cells lie on the grid. -/
structure LaidOut (components : List Component) (grid : Int × Int) : Prop where
  disjoint : components.Pairwise fun a b => ∀ c ∈ a.range.cells, c ∉ b.range.cells
  inside : ∀ a ∈ components, ∀ c ∈ a.range.cells, c.IsOn grid

/-- The grid in force after some statements: the last one declared, or the one that a document starts
with. -/
def gridInForce (accepted : List Statement) : Int × Int :=
  (accepted.filterMap Statement.grid?).getLastD (4, 3)

theorem gridInForce_append_of_none {accepted : List Statement} {s : Statement} (h : s.grid? = none) :
    gridInForce (accepted ++ [s]) = gridInForce accepted := by
  rw [gridInForce, List.filterMap_append, List.filterMap_cons_none h, List.filterMap_nil,
    List.append_nil, gridInForce]

theorem gridInForce_append_of_some {accepted : List Statement} {s : Statement} {grid : Int × Int}
    (h : s.grid? = some grid) : gridInForce (accepted ++ [s]) = grid := by
  rw [gridInForce, List.filterMap_append, List.filterMap_cons_some h, List.filterMap_nil,
    List.getLastD_concat]

namespace LaidOut

variable {components : List Component} {grid grid' : Int × Int} {b : Component}

theorem append (h : LaidOut components grid)
    (hfree : ∀ a ∈ components, ∀ c ∈ a.range.cells, c ∉ b.range.cells)
    (hon : ∀ c ∈ b.range.cells, c.IsOn grid) : LaidOut (components ++ [b]) grid where
  disjoint := by
    rw [List.pairwise_append]
    refine ⟨h.disjoint, List.pairwise_singleton _ _, ?_⟩
    intro a ha b' hb'
    rw [List.mem_singleton.mp hb']
    exact hfree a ha
  inside := by
    intro a ha
    rcases List.mem_append.mp ha with hold | hnew
    · exact h.inside a hold
    · rw [List.mem_singleton.mp hnew]
      exact hon

theorem countP_le_one (h : LaidOut components grid) (c : Coord) :
    components.countP (fun a => c ∈ a.range.cells) ≤ 1 := by
  -- the grid is left out, so that the induction is on the components alone
  have hdisjoint := h.disjoint
  clear h
  induction components with
  | nil => exact Nat.zero_le 1
  | cons a rest ih =>
      obtain ⟨hhead, htail⟩ := List.pairwise_cons.mp hdisjoint
      by_cases hc : c ∈ a.range.cells
      · rw [List.countP_cons_of_pos (by simpa using hc)]
        have hnone : rest.countP (fun a => decide (c ∈ a.range.cells)) = 0 := by
          rw [List.countP_eq_zero]
          intro b hb
          simpa using hhead b hb c hc
        omega
      · rw [List.countP_cons_of_neg (by simpa using hc)]
        exact ih htail

end LaidOut

namespace Draft

variable {d d' : Draft}

theorem checkOverlap_eq_ok {range : Range} :
    d.checkOverlap range = .ok () ↔
      ∀ a ∈ d.components, ∀ c ∈ a.range.cells, c ∉ range.cells := by
  have hfree : d.checkOverlap range = .ok () ↔
      range.firstOverlap? (d.components.map (·.range)) = none := by
    rw [checkOverlap]
    split <;> simp_all
  rw [hfree, Range.firstOverlap?_eq_none_iff]
  exact List.forall_mem_map

theorem checkBounds_eq_ok {range : Range} :
    d.checkBounds range = .ok () ↔ ∀ c ∈ range.cells, c.IsOn d.settings.grid := by
  have hnone : d.checkBounds range = .ok () ↔ Violation.of? range d.settings.grid = none := by
    rw [checkBounds]
    split <;> simp_all
  rw [hnone, Violation.of?_eq_none_iff]

theorem excluded?_eq_none_iff {cols rows : Nat} :
    d.excluded? cols rows = none ↔
      ∀ a ∈ d.components, ∀ c ∈ a.range.cells, c.IsOn ((cols : Int), (rows : Int)) := by
  simp only [excluded?, List.findSome?_eq_none_iff, Option.map_eq_none_iff,
    Violation.of?_eq_none_iff]

/-- Accepting a statement keeps the layout. -/
theorem accept_laidOut {s : Statement} (h : LaidOut d.components d.settings.grid)
    (haccept : (d.accept s).value = .ok d') : LaidOut d'.components d'.settings.grid := by
  rcases accept_cases haccept with ⟨range, listed, location, c, rfl, hc, rfl⟩ |
    ⟨cols, rows, location, rfl, hin, rfl⟩ | ⟨-, -, hcomponents, hgrid⟩
  · obtain ⟨choice, p, hchoose, -, hmake⟩ := component_eq_ok.mp hc
    obtain ⟨-, -, hoverlap, hbounds, -, -⟩ := choose_eq_ok.mp hchoose
    have hrange := Component.range_ofProperties hmake
    apply h.append
    · rw [hrange]
      exact checkOverlap_eq_ok.mp hoverlap
    · rw [hrange]
      exact checkBounds_eq_ok.mp hbounds
  · exact ⟨h.disjoint, excluded?_eq_none_iff.mp hin⟩
  · rw [hcomponents, hgrid]
    exact h

variable {stop : Token} {ts left : List Token} {accepted : List Statement}

theorem Reaches.grid_eq (h : Reaches stop ts accepted d left) :
    d.settings.grid = gridInForce accepted := by
  induction h with
  | start => rfl
  | next _ _ _ haccept ih =>
      rcases accept_cases haccept with ⟨range, listed, location, c, rfl, -, rfl⟩ |
        ⟨cols, rows, location, rfl, -, rfl⟩ | ⟨-, hnone, -, hgrid⟩
      · rw [gridInForce_append_of_none rfl]
        exact ih
      · rw [gridInForce_append_of_some rfl]
        rfl
      · rw [gridInForce_append_of_none hnone, hgrid]
        exact ih

theorem Reaches.ranges_eq (h : Reaches stop ts accepted d left) :
    d.components.map (·.range) = accepted.filterMap Statement.range? := by
  induction h with
  | start => rfl
  | next _ _ _ haccept ih =>
      rw [List.filterMap_append, ← ih]
      rcases accept_cases haccept with ⟨range, listed, location, c, rfl, hc, rfl⟩ |
        ⟨cols, rows, location, rfl, -, rfl⟩ | ⟨hnone, -, hcomponents, -⟩
      · obtain ⟨choice, p, -, -, hmake⟩ := component_eq_ok.mp hc
        simp [Statement.range?, Component.range_ofProperties hmake]
      · simp [Statement.range?, Draft.set]
      · simp [hnone, hcomponents]

theorem Reaches.laidOut (h : Reaches stop ts accepted d left) :
    LaidOut d.components d.settings.grid := by
  induction h with
  | start => exact ⟨List.Pairwise.nil, fun a ha => nomatch ha⟩
  | next _ _ _ haccept ih => exact accept_laidOut ih haccept

end Draft

namespace Document

variable {source : String} {doc : Document}

theorem laidOut_of_read_eq_ok (h : (read source).value = .ok doc) :
    LaidOut doc.components doc.settings.grid := by
  obtain ⟨ts, accepted, d, left, -, hreaches, hfinish⟩ := reaches_of_read_eq_ok h
  obtain ⟨-, -, -, rfl⟩ := Draft.finish_eq_ok.mp hfinish
  exact hreaches.laidOut

/-- After each statement that is accepted the components have the ranges of the component statements,
the grid is the one in force, and the components are laid out on it. In a document each cell belongs
to at most one component, and the cells of each component lie on the grid. -/
theorem read_laidOut (source : String) :
    (∀ ts, Tokens.read source = .ok ts →
      ∀ accepted d left, Draft.Reaches ts.last ts.list accepted d left →
        d.components.map (·.range) = accepted.filterMap Statement.range? ∧
        d.settings.grid = gridInForce accepted ∧
        LaidOut d.components (gridInForce accepted)) ∧
    (∀ doc, (read source).value = .ok doc →
      (∀ c, doc.components.countP (fun a => c ∈ a.range.cells) ≤ 1) ∧
      ∀ a ∈ doc.components, ∀ c ∈ a.range.cells, c.IsOn doc.settings.grid) := by
  constructor
  · intro ts _ accepted d left hreaches
    have hgrid := hreaches.grid_eq
    refine ⟨hreaches.ranges_eq, hgrid, ?_⟩
    rw [← hgrid]
    exact hreaches.laidOut
  · intro doc hread
    have hlaid := laidOut_of_read_eq_ok hread
    exact ⟨hlaid.countP_le_one, hlaid.inside⟩

theorem read_laidOut_of_two_grids :
    ∃ source ts accepted d left doc,
      source = "A1: \x7b type: box \x7d\ngrid: 2x2\nB2: \x7b type: img \x7d\ngrid: 3x2" ∧
      Tokens.read source = .ok ts ∧ Draft.Reaches ts.last ts.list accepted d left ∧
      LaidOut d.components (gridInForce accepted) ∧
      (read source).value = .ok doc ∧
      doc.ranges = [.single ⟨0, 0⟩, .single ⟨1, 1⟩] ∧ doc.settings.grid = (3, 2) ∧
      (∀ c, doc.components.countP (fun a => c ∈ a.range.cells) ≤ 1) ∧
      ∀ a ∈ doc.components, ∀ c ∈ a.range.cells, c.IsOn doc.settings.grid := by
  have hdoc :
      (read "A1: \x7b type: box \x7d\ngrid: 2x2\nB2: \x7b type: img \x7d\ngrid: 3x2").value.toOption =
        some
          { settings := { grid := (3, 2) }
            components := [⟨.single ⟨0, 0⟩, none, none, none, .box⟩,
              ⟨.single ⟨1, 1⟩, none, none, none, .img none none⟩] } := by
    decide +kernel
  have hread := Results.toOption_eq_some.mp hdoc
  obtain ⟨ts, accepted, d, left, htokens, hreaches, -⟩ := reaches_of_read_eq_ok hread
  obtain ⟨hrun, hend⟩ := read_laidOut _
  obtain ⟨-, -, hlaid⟩ := hrun ts htokens accepted d left hreaches
  obtain ⟨hcells, hgrid⟩ := hend _ hread
  exact ⟨_, ts, accepted, d, left, _, rfl, htokens, hreaches, hlaid, hread, rfl, rfl, hcells, hgrid⟩

end Document
end Wireframe
