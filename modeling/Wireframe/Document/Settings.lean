import Wireframe.Document.Color
import Wireframe.Document.Component
import Wireframe.Number.Length
import Wireframe.Theme

/-! The settings of a document, and the rules that they keep. -/

namespace Wireframe

/-- The two axes of a grid. -/
inductive Axis
  | columns
  | rows
  deriving DecidableEq, Repr

/-- The name of the weights of an axis. -/
def Axis.weights : Axis → String
  | columns => "col-widths"
  | rows => "row-heights"

/-- The word for the cells along an axis. -/
def Axis.word : Axis → String
  | columns => "columns"
  | rows => "rows"

structure Settings where
  /-- The width and the height of the canvas, up to a common factor. -/
  ratio : Int × Int := (16, 9)
  /-- The number of columns and of rows. -/
  grid : Int × Int := (4, 3)
  /-- The pixels between neighbouring cells. -/
  gap : Length := .whole 0
  /-- The inset of the content of a cell. -/
  padding : Option Float := none
  palette : Palette := []
  /-- Weights by which the columns share the width. -/
  colWidths : Option (List Float) := none
  /-- Weights by which the rows share the height. -/
  rowHeights : Option (List Float) := none
  theme : Option String := none
  deriving DecidableEq

namespace Settings

/-- The most columns, and the most rows, of a grid. -/
def maxGrid : Nat := 26

def inGridLimits (n : Int) : Bool := 1 ≤ n && n ≤ maxGrid

def weights (s : Settings) : Axis → Option (List Float)
  | .columns => s.colWidths
  | .rows => s.rowHeights

def count (s : Settings) : Axis → Int
  | .columns => s.grid.1
  | .rows => s.grid.2

/-- The number is above zero. -/
def isPositive (x : Float) : Bool := 0.0 < x

/-- One error for each weight that is not positive. -/
def weightErrors (field : String) (weights : Option (List Float)) : List FieldError :=
  (weights.getD []).zipIdx.flatMap fun w =>
    FieldError.unless (isPositive w.1) s!"{field}.{w.2}" .notPositive

def gridErrors (grid : Int × Int) : List FieldError :=
  FieldError.unless (inGridLimits grid.1 && inGridLimits grid.2) "grid" (.rule
    s!"Grid dimensions must be between 1 and {maxGrid}, got {grid.1}x{grid.2}")

def themeErrors (theme : Option String) : List FieldError :=
  match Theme.named? theme with
  | .ok _ => []
  | .error unknown => [⟨"theme", .rule unknown.message⟩]

/-- What is wrong with single fields. -/
def fieldErrors (s : Settings) : List FieldError :=
  FieldError.unless (0 < s.ratio.1) "ratio.0" .notPositive ++
  FieldError.unless (0 < s.ratio.2) "ratio.1" .notPositive ++
  gridErrors s.grid ++
  FieldError.unless (Component.notNegative s.gap.toFloat) "gap" .negative ++
  Component.paddingErrors s.padding ++
  weightErrors "col_widths" s.colWidths ++
  weightErrors "row_heights" s.rowHeights ++
  themeErrors s.theme

/-- There are weights along the axis, and not one for each of its cells. -/
def miscounted (s : Settings) (axis : Axis) : Option Nat :=
  match s.weights axis with
  | none => none
  | some ws => if (ws.length : Int) = s.count axis then none else some ws.length

/-- What is wrong between the weights and the grid: the first axis whose weights are miscounted. -/
def countErrors (s : Settings) : List FieldError :=
  match s.miscounted .columns, s.miscounted .rows with
  | some n, _ =>
    [⟨"", .rule s!"col-widths has {n} entries, grid has {s.grid.1} columns"⟩]
  | none, some n =>
    [⟨"", .rule s!"row-heights has {n} entries, grid has {s.grid.2} rows"⟩]
  | none, none => []

/-- What is wrong with the settings; the fields are set against each other once each is right. -/
def errors (s : Settings) : List FieldError :=
  if s.fieldErrors = [] then s.countErrors else s.fieldErrors

end Settings
end Wireframe
