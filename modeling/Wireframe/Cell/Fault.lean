import Wireframe.Number.Numeral
import Wireframe.Text.Quoted

/-! What can be wrong with the text of a cell, of a range or of a column. -/

namespace Wireframe.Cell

inductive Fault
  /-- A text that is not one or more letters of the alphabet. -/
  | letters (text : String)
  | negativeColumn (column : Int)
  | reference (text : String)
  /-- A reference to row zero. -/
  | row (text : String)
  | range (text : String)
  | numeral (tooLong : Numeral.TooLong)
  /-- A number that may not be written. -/
  | unwritable
  deriving DecidableEq, Repr

def Fault.message : Fault → String
  | letters text => "Invalid column letters: " ++ Text.quoted text
  | negativeColumn column => s!"Column index must be non-negative, got {column}"
  | reference text => "Invalid cell reference: " ++ text
  | row text => "Invalid row number in cell reference: " ++ text
  | range text => "Invalid cell range: " ++ text
  | numeral tooLong => tooLong.message
  | unwritable => Numeral.unwritable

end Wireframe.Cell
