import Wireframe.Field

/-! Cells of a grid and the rectangles that ranges of cells cover. -/

namespace Wireframe

/-- A cell by its column and row, both from zero. -/
structure Coord where
  col : Nat
  row : Nat
  deriving DecidableEq, Repr

/-- The cell of two integers, of which neither may be negative. -/
def Coord.ofInts? (col row : Int) : Except (List FieldError) Coord :=
  match FieldError.unless (0 ≤ col) "col" .negative ++
      FieldError.unless (0 ≤ row) "row" .negative with
  | [] => .ok ⟨col.toNat, row.toNat⟩
  | errors => .error errors

/-- A rectangle of cells from its top left to its bottom right cell. -/
structure Range where
  first : Coord
  last : Coord
  col_le : first.col ≤ last.col
  row_le : first.row ≤ last.row
  deriving DecidableEq

namespace Range

/-- The smallest rectangle that holds both cells. -/
def spanning (a b : Coord) : Range where
  first := ⟨min a.col b.col, min a.row b.row⟩
  last := ⟨max a.col b.col, max a.row b.row⟩
  col_le := Nat.le_trans (Nat.min_le_left ..) (Nat.le_max_left ..)
  row_le := Nat.le_trans (Nat.min_le_left ..) (Nat.le_max_left ..)

/-- One cell alone. -/
def single (c : Coord) : Range := ⟨c, c, Nat.le_refl _, Nat.le_refl _⟩

def colSpan (r : Range) : Nat := r.last.col - r.first.col + 1

def rowSpan (r : Range) : Nat := r.last.row - r.first.row + 1

def isSingle (r : Range) : Bool := r.first = r.last

def contains (r : Range) (c : Coord) : Bool :=
  (r.first.col ≤ c.col && c.col ≤ r.last.col) && (r.first.row ≤ c.row && c.row ≤ r.last.row)

/-- Two rectangles overlap unless one lies wholly before the other along an axis. -/
def overlaps (r s : Range) : Bool :=
  !(r.last.col < s.first.col || s.last.col < r.first.col ||
    r.last.row < s.first.row || s.last.row < r.first.row)

/-- The cells of the rectangle, row by row. -/
def cells (r : Range) : List Coord :=
  (List.range' r.first.row r.rowSpan).flatMap fun row =>
    (List.range' r.first.col r.colSpan).map fun col => ⟨col, row⟩

/-- The first of the ranges that overlaps `r`. -/
def firstOverlap? (r : Range) (taken : List Range) : Option Range :=
  taken.find? (·.overlaps r)

/-- The position of the first of the ranges that overlaps `r`. -/
def firstOverlapIdx? (r : Range) (taken : List Range) : Option Nat :=
  taken.findIdx? (·.overlaps r)

end Range
end Wireframe
