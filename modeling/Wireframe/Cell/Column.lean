import Wireframe.Cell.Fault

/-! Columns in letters: `A` to `Z`, then `AA` and so on. Column `n` is the `n + 1`-st word over the
alphabet, shorter words first. -/

namespace Wireframe.Column

def letter (n : Nat) : Char := Char.ofNat (0x41 + n)

/-- The `n`-th word over the alphabet; the empty word is the one before the first. -/
def word : Nat → List Char
  | 0 => []
  | n + 1 => word (n / 26) ++ [letter (n % 26)]
  termination_by n => n
  decreasing_by omega

/-- The letters of a column. -/
def letters (column : Nat) : String := String.ofList (word (column + 1))

/-- The letters of a column given as an integer. -/
def lettersOfInt? (column : Int) : Except Cell.Fault String :=
  if 0 ≤ column then .ok (letters column.toNat)
  else if Numeral.isWritable column then .error (.negativeColumn column)
  else .error .unwritable

/-- The place of a letter in the alphabet, from one, in either case. -/
def place (c : Char) : Nat := c.toUpper.toNat - 0x41 + 1

/-- The position of a word among all words. -/
def rank (cs : List Char) : Nat := cs.foldl (fun n c => 26 * n + place c) 0

/-- The column that letters in any case name. -/
def ofLetters? (text : String) : Except Cell.Fault Nat :=
  let cs := text.toList
  if cs ≠ [] ∧ cs.all Char.isAlpha then .ok (rank cs - 1) else .error (.letters text)

end Wireframe.Column
