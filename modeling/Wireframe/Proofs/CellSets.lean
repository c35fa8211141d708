import Wireframe.Document.Issue

/-! Ranges as sets of cells. Two ranges overlap exactly when they share a cell, and a range keeps to a
grid exactly when each of its cells does. So whatever is tested on the corners of ranges is a fact about
their cells (`Range.tests_exact`). -/

namespace Wireframe

/-- The cell comes before the other one, row by row. -/
def Coord.IsBefore (c d : Coord) : Prop := c.row < d.row ∨ c.row = d.row ∧ c.col < d.col

namespace Range

variable {r s : Range} {c : Coord}

theorem contains_iff : r.contains c = true ↔
    (r.first.col ≤ c.col ∧ c.col ≤ r.last.col) ∧ r.first.row ≤ c.row ∧ c.row ≤ r.last.row := by
  simp only [contains, Bool.and_eq_true, decide_eq_true_eq]

theorem mem_cells : c ∈ r.cells ↔ r.contains c = true := by
  have hcol := r.col_le
  have hrow := r.row_le
  simp only [cells, List.mem_flatMap, List.mem_map, List.mem_range'_1, contains_iff, colSpan, rowSpan]
  constructor
  · rintro ⟨row, hr, col, hc, rfl⟩
    simp only
    omega
  · intro h
    exact ⟨c.row, by omega, c.col, by omega, rfl⟩

theorem pairwise_cells (r : Range) : r.cells.Pairwise Coord.IsBefore := by
  rw [cells, List.pairwise_flatMap]
  constructor
  · intro row _
    rw [List.pairwise_map]
    exact (List.pairwise_lt_range' 1).imp fun hcol => Or.inr ⟨rfl, hcol⟩
  · refine (List.pairwise_lt_range' 1).imp fun hrow c hc d hd => ?_
    obtain ⟨_, -, rfl⟩ := List.mem_map.mp hc
    obtain ⟨_, -, rfl⟩ := List.mem_map.mp hd
    exact Or.inl hrow

theorem nodup_cells (r : Range) : r.cells.Nodup := by
  refine r.pairwise_cells.imp fun {c d} h => ?_
  rintro rfl
  rcases h with h | ⟨-, h⟩
  · exact Nat.lt_irrefl _ h
  · exact Nat.lt_irrefl _ h

theorem length_cells (r : Range) : r.cells.length = r.colSpan * r.rowSpan := by
  simp only [cells, List.length_flatMap, List.length_map, List.length_range', List.map_const',
    List.sum_replicate_nat]
  exact Nat.mul_comm _ _

/-- The cells between two corners, whichever of them comes first along an axis. -/
theorem contains_spanning {p q : Coord} : (spanning p q).contains c = true ↔
    (min p.col q.col ≤ c.col ∧ c.col ≤ max p.col q.col) ∧
      min p.row q.row ≤ c.row ∧ c.row ≤ max p.row q.row :=
  contains_iff

theorem last_mem_cells (r : Range) : r.last ∈ r.cells :=
  mem_cells.mpr (contains_iff.mpr ⟨⟨r.col_le, Nat.le_refl _⟩, r.row_le, Nat.le_refl _⟩)

/-- The cell at the larger of the first columns and the larger of the first rows lies in both
rectangles when neither lies before the other. -/
theorem overlaps_iff : r.overlaps s = true ↔ ∃ c, c ∈ r.cells ∧ c ∈ s.cells := by
  have hr := And.intro r.col_le r.row_le
  have hs := And.intro s.col_le s.row_le
  simp only [overlaps, Bool.not_eq_true', Bool.or_eq_false_iff, decide_eq_false_iff_not, Nat.not_lt,
    mem_cells, contains_iff]
  constructor
  · intro h
    refine ⟨⟨max r.first.col s.first.col, max r.first.row s.first.row⟩, ?_, ?_⟩ <;> simp only <;> omega
  · rintro ⟨c, hc, hd⟩
    omega

theorem overlaps_comm (r s : Range) : r.overlaps s = s.overlaps r := by
  rw [Bool.eq_iff_iff, overlaps_iff, overlaps_iff]
  exact exists_congr fun c => and_comm

theorem overlaps_self (r : Range) : r.overlaps r = true :=
  overlaps_iff.mpr ⟨r.last, r.last_mem_cells, r.last_mem_cells⟩

/-- The range at a position shares a cell with `r`. -/
def MeetsAt (r : Range) (taken : List Range) (i : Nat) : Prop :=
  ∃ s, taken[i]? = some s ∧ ∃ c, c ∈ r.cells ∧ c ∈ s.cells

theorem meetsAt_iff {taken : List Range} {i : Nat} :
    r.MeetsAt taken i ↔ ∃ h : i < taken.length, taken[i].overlaps r = true := by
  constructor
  · rintro ⟨s, hs, hshared⟩
    obtain ⟨hi, rfl⟩ := List.getElem?_eq_some_iff.mp hs
    exact ⟨hi, by rw [overlaps_comm, overlaps_iff]; exact hshared⟩
  · rintro ⟨hi, ho⟩
    rw [overlaps_comm, overlaps_iff] at ho
    exact ⟨_, List.getElem?_eq_getElem hi, ho⟩

/-- The scan stops at the least position of a range that shares a cell. -/
theorem firstOverlapIdx?_eq_some_iff {taken : List Range} {i : Nat} :
    r.firstOverlapIdx? taken = some i ↔
      r.MeetsAt taken i ∧ ∀ j, r.MeetsAt taken j → i ≤ j := by
  rw [firstOverlapIdx?, List.findIdx?_eq_some_iff_getElem]
  constructor
  · rintro ⟨hi, ho, hfirst⟩
    refine ⟨meetsAt_iff.mpr ⟨hi, ho⟩, fun j hj => Nat.le_of_not_lt fun hlt => ?_⟩
    obtain ⟨_, hoverlaps⟩ := meetsAt_iff.mp hj
    exact hfirst j hlt hoverlaps
  · rintro ⟨hmeets, hleast⟩
    obtain ⟨hi, ho⟩ := meetsAt_iff.mp hmeets
    refine ⟨hi, ho, fun j hlt hoverlaps => ?_⟩
    exact Nat.not_lt.mpr (hleast j (meetsAt_iff.mpr ⟨Nat.lt_trans hlt hi, hoverlaps⟩)) hlt

theorem firstOverlapIdx?_eq_none_iff {taken : List Range} :
    r.firstOverlapIdx? taken = none ↔ ∀ i, ¬r.MeetsAt taken i := by
  rw [firstOverlapIdx?, List.findIdx?_eq_none_iff]
  constructor
  · intro h i hmeets
    obtain ⟨hi, ho⟩ := meetsAt_iff.mp hmeets
    rw [h _ (List.getElem_mem hi)] at ho
    cases ho
  · intro h s hs
    obtain ⟨i, hi, rfl⟩ := List.getElem_of_mem hs
    exact Bool.eq_false_iff.mpr fun ho => h i (meetsAt_iff.mpr ⟨hi, ho⟩)

theorem firstOverlap?_eq_none_iff {taken : List Range} :
    r.firstOverlap? taken = none ↔ ∀ s ∈ taken, ∀ c ∈ s.cells, c ∉ r.cells := by
  rw [firstOverlap?, List.find?_eq_none]
  constructor
  · intro h s hs c hc hr
    exact h s hs (overlaps_iff.mpr ⟨c, hc, hr⟩)
  · intro h s hs ho
    obtain ⟨c, hc, hr⟩ := overlaps_iff.mp ho
    exact h s hs c hc hr

end Range

/-- A cell lies on the grid of so many columns and rows. -/
def Coord.IsOn (c : Coord) (grid : Int × Int) : Prop := (c.col : Int) < grid.1 ∧ (c.row : Int) < grid.2

theorem Violation.of?_eq_none_iff {r : Range} {grid : Int × Int} :
    Violation.of? r grid = none ↔ ∀ c ∈ r.cells, c.IsOn grid := by
  have hlast : Violation.of? r grid = none ↔ r.last.IsOn grid := by
    simp only [Violation.of?, Coord.IsOn]
    split
    · simp; omega
    · split <;> simp <;> omega
  rw [hlast]
  constructor
  · intro h c hc
    have hin := Range.contains_iff.mp (Range.mem_cells.mp hc)
    simp only [Coord.IsOn] at h ⊢
    omega
  · intro h
    exact h r.last r.last_mem_cells

/-- What is tested on the corners of ranges is a fact about their cells. The cells of a range, whatever
two corners it is given by, are those that it contains, each of them once and row by row; ranges overlap
exactly where they share a cell; the position that a scan finds is the least one of a range that shares a
cell; and no violation of a grid is found exactly where all cells lie on the grid. -/
theorem Range.tests_exact (a b : Range) (taken : List Range) (grid : Int × Int) :
    ((∀ c, c ∈ a.cells ↔ a.contains c = true) ∧ a.cells.Nodup ∧ a.cells.Pairwise Coord.IsBefore ∧
      a.cells.length = a.colSpan * a.rowSpan) ∧
    (∀ p q c, c ∈ (spanning p q).cells ↔
      (min p.col q.col ≤ c.col ∧ c.col ≤ max p.col q.col) ∧
        min p.row q.row ≤ c.row ∧ c.row ≤ max p.row q.row) ∧
    ((a.overlaps b = true ↔ ∃ c, c ∈ a.cells ∧ c ∈ b.cells) ∧ a.overlaps b = b.overlaps a ∧
      a.overlaps a = true) ∧
    ((∀ i, a.firstOverlapIdx? taken = some i ↔
        a.MeetsAt taken i ∧ ∀ j, a.MeetsAt taken j → i ≤ j) ∧
      (a.firstOverlapIdx? taken = none ↔ ∀ i, ¬a.MeetsAt taken i)) ∧
    (Violation.of? a grid = none ↔ ∀ c ∈ a.cells, (c.col : Int) < grid.1 ∧ (c.row : Int) < grid.2) := by
  refine ⟨⟨fun c => mem_cells, a.nodup_cells, a.pairwise_cells, a.length_cells⟩, fun p q c => ?_,
    ⟨overlaps_iff, overlaps_comm a b, overlaps_self a⟩,
    ⟨fun i => firstOverlapIdx?_eq_some_iff, firstOverlapIdx?_eq_none_iff⟩, Violation.of?_eq_none_iff⟩
  rw [mem_cells, contains_spanning]

end Wireframe
