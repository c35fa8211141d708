import Wireframe.Cell.Reference
import Wireframe.Document.Basic

/-! The rules that relate the components of a document to its grid, to its palette and to each other,
and the issues of a document that breaks them. -/

namespace Wireframe

/-- How a range leaves a grid: its last column or its last row is past the columns or the rows. -/
inductive Violation
  | column (col : Nat) (cols : Int)
  | row (row : Nat) (rows : Int)
  deriving DecidableEq, Repr

namespace Violation

/-- The first axis, columns before rows, along which the range leaves the grid. -/
def of? (r : Range) (grid : Int × Int) : Option Violation :=
  if grid.1 ≤ r.last.col then some (.column r.last.col grid.1)
  else if grid.2 ≤ r.last.row then some (.row r.last.row grid.2)
  else none

def category : Violation → String
  | column .. => "column_out_of_bounds"
  | row .. => "row_out_of_bounds"

/-- The violation in words, for a grid that has columns. -/
def message : Violation → String
  | column col cols =>
    "Column " ++ Column.letters col ++ " is outside the grid (columns A-" ++
      Column.letters (cols - 1).toNat ++ ")"
  | row last rows => s!"Row {last + 1} is outside the grid (rows 1-{rows})"

/-- The violation in words, unless the grid has no column to name or a row number may not be
written. -/
def message? (v : Violation) : Except Cell.Fault String :=
  match v with
  | column _ cols => (Column.lettersOfInt? (cols - 1)).map fun _ => v.message
  | row last rows =>
    if Numeral.isWritable (last + 1) && Numeral.isWritable rows then .ok v.message
    else .error .unwritable

end Violation

/-- What is wrong with one component of a document. -/
inductive Defect
  | overlap (range other : Range)
  | outside (violation : Violation)
  | unresolved (name field : String)
  deriving DecidableEq

namespace Defect

def category : Defect → String
  | overlap .. => "overlap"
  | outside violation => violation.category
  | unresolved .. => "unresolved_color"

def message : Defect → String
  | overlap range other => "Cell overlap: " ++ range.text ++ " overlaps " ++ other.text
  | outside violation => violation.message
  | unresolved name field => s!"Unknown theme color '${name}' in {field}"

/-- The defect in words, unless a row number may not be written. -/
def message? (d : Defect) : Except Cell.Fault String :=
  match d with
  | overlap range other =>
    if range.isWritable && other.isWritable then .ok d.message else .error .unwritable
  | outside violation => violation.message?
  | unresolved .. => .ok d.message

end Defect

/-- A defect and the position of the component that has it. -/
structure Issue where
  index : Nat
  defect : Defect
  deriving DecidableEq

/-- What a document is told of one issue. -/
structure Complaint where
  index : Nat
  message : String
  category : String
  deriving DecidableEq, Repr

namespace Issue

def complaint (i : Issue) : Complaint := ⟨i.index, i.defect.message, i.defect.category⟩

/-- The complaint about an issue, unless a row number may not be written. -/
def complaint? (i : Issue) : Except Cell.Fault Complaint :=
  i.defect.message?.map (⟨i.index, ·, i.defect.category⟩)

end Issue

namespace Component

/-- The defects of a component among the ranges before it. -/
def defects (c : Component) (s : Settings) (before : List Range) : List Defect :=
  ((c.range.firstOverlap? before).map (Defect.overlap c.range)).toList ++
  ((Violation.of? c.range s.grid).map Defect.outside).toList ++
  ((Color.unresolved? s.palette c.bg).map (Defect.unresolved · "bg")).toList ++
  ((Color.unresolved? s.palette c.border).map (Defect.unresolved · "border")).toList

end Component

namespace Document

/-- The issues of the components `cs`, of which the first stands at `index`, after `before`. -/
def issuesFrom (s : Settings) (index : Nat) (before : List Range) : List Component → List Issue
  | [] => []
  | c :: cs =>
    (c.defects s before).map (⟨index, ·⟩) ++ issuesFrom s (index + 1) (before ++ [c.range]) cs

/-- The issues of a document, by component. -/
def issues (d : Document) : List Issue := issuesFrom d.settings 0 [] d.components

/-- The complaints about a document, by component. There are none at all where a row number may not be
written in one of them. -/
def validate (d : Document) : Except Cell.Fault (List Complaint) := d.issues.mapM Issue.complaint?

/-- Nothing is to be told of the document, as far as all of it can be told. -/
def isValid (d : Document) : Except Cell.Fault Bool := d.validate.map List.isEmpty

end Document
end Wireframe
