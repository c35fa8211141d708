import Wireframe.Document.Basic
import Wireframe.Layout.Canvas
import Wireframe.Layout.Track

/-! Plans: the canvas of a document with the sizes of all its cells, and the rectangle that a range of
cells takes up on it. -/

namespace Wireframe

/-- A rectangle on the canvas, and the inset of its content. -/
structure Rect (α : Type) where
  x : α
  y : α
  width : α
  height : α
  padding : α

namespace Rect

variable {α : Type} [Scalar α]

def centerX (r : Rect α) : α := r.x + r.width / 2

def centerY (r : Rect α) : α := r.y + r.height / 2

/-- The rectangle of a range among columns and rows of the given sizes. -/
def ofRange (range : Range) (cols rows : List α) (gap padding : α) : Rect α where
  x := Track.offset cols gap range.first.col
  y := Track.offset rows gap range.first.row
  width := Track.length cols gap range.first.col range.last.col
  height := Track.length rows gap range.first.row range.last.row
  padding := padding

/-- The rectangle in binary64 numbers. -/
def toFloat? (r : Rect Measure) : Except ArithmeticFault (Rect Float) := do
  return ⟨← r.x.toFloat?, ← r.y.toFloat?, ← r.width.toFloat?, ← r.height.toFloat?,
    ← r.padding.toFloat?⟩

end Rect

/-- The canvas of a document, its spacing, and the sizes of its columns and rows. -/
structure Plan (α : Type) where
  canvas : Canvas
  spacing : Spacing α
  cols : List α
  rows : List α

namespace Plan

variable {α : Type} [Scalar α]

/-- The inset of the content of a cell where the document names none. -/
def defaultPadding : Length := .whole 16

/-- The sizes of the cells of an axis of `edge` pixels. An axis of a document has 26 cells at most, so there
is always room for their sizes. -/
def track (edge : Int) (gap : α) (count : Int) (weights : Option (List Float)) :
    Except Layout.Fault (List α) :=
  Track.sizes (Scalar.ofInt edge) gap count
    (weights.map (·.map fun w => Scalar.ofLength (.real w)))

/-- The plan of a document with the given settings. -/
def ofSettings (s : Settings) : Except Layout.Fault (Plan α) := do
  let canvas ← (Canvas.ofRatio s.ratio).mapError .arithmetic
  let spacing ← Spacing.ofLengths s.gap ((s.padding.map Length.real).getD defaultPadding)
  let gap : α := Scalar.ofLength spacing.gap
  let cols ← track canvas.width gap s.grid.1 s.colWidths
  let rows ← track canvas.height gap s.grid.2 s.rowHeights
  return ⟨canvas, ⟨gap, Scalar.ofLength spacing.padding⟩, cols, rows⟩

/-- The rectangle of a range; a padding of its own replaces that of the document. -/
def place (p : Plan α) (range : Range) (padding : Option Float) : Rect α :=
  Rect.ofRange range p.cols p.rows p.spacing.gap
    ((padding.map fun x => Scalar.ofLength (.real x)).getD p.spacing.padding)

end Plan
end Wireframe
