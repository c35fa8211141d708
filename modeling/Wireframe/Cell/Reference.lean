import Wireframe.Cell.Column
import Wireframe.Cell.Range
import Wireframe.Text.Case
import Wireframe.Text.Split

/-! References: a cell as column letters and row number, rows from one, and a range as two cells with
two dots between them. Reading accepts letters in any case, digits of any script and blanks around
each cell; writing has one form, and a range of one cell is written as that cell. -/

namespace Wireframe

namespace Coord

def text (c : Coord) : String := Column.letters c.col ++ toString (c.row + 1)

/-- The row number may be written. -/
def isWritable (c : Coord) : Bool := Numeral.isWritable (c.row + 1)

/-- The reference to a cell, where its row number may be written. -/
def text? (c : Coord) : Except Cell.Fault String :=
  if c.isWritable then .ok c.text else .error .unwritable

/-- The cell that a reference names. -/
def read (cs : List Char) : Except Cell.Fault Coord :=
  let body := Text.upper (Text.trim cs)
  let letters := body.takeWhile Char.isUpper
  let digits := body.dropWhile Char.isUpper
  if letters ≠ [] ∧ digits ≠ [] ∧ digits.all Text.isDecimal then
    match Numeral.read digits with
    | .error tooLong => .error (.numeral tooLong)
    | .ok 0 => .error (.row (String.ofList cs))
    | .ok (row + 1) => .ok ⟨Column.rank letters - 1, row⟩
  else .error (.reference (String.ofList cs))

end Coord

namespace Range

def text (r : Range) : String :=
  if r.isSingle then r.first.text else r.first.text ++ ".." ++ r.last.text

/-- The row numbers may be written; that of the first row is the smaller one. -/
def isWritable (r : Range) : Bool := r.last.isWritable

/-- The text of a range, where its row numbers may be written. -/
def text? (r : Range) : Except Cell.Fault String :=
  if r.isWritable then .ok r.text else .error .unwritable

/-- The range that one cell names, or two in any order. -/
def read (cs : List Char) : Except Cell.Fault Range :=
  match Text.splitDots cs with
  | [a] => do return single (← Coord.read a)
  | [a, b] => do return spanning (← Coord.read a) (← Coord.read b)
  | _ => .error (.range (String.ofList cs))

end Range
end Wireframe
