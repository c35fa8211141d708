import Wireframe.Text.Blank
import Wireframe.Text.Digit

/-! Whole numbers written in decimal digits. A row of more than `maxDigits` digits is not read, however
small its value, and a number that takes more of them is not written. -/

namespace Wireframe.Numeral

/-- The most digits, leading zeros included, that a number may have. -/
def maxDigits : Nat := 4300

/-- A row of digits was refused for its length. -/
structure TooLong where
  digits : Nat
  deriving DecidableEq, Repr

def TooLong.message (e : TooLong) : String :=
  s!"Exceeds the limit ({maxDigits} digits) for integer string conversion: value has {e.digits} " ++
    "digits; use sys.set_int_max_str_digits() to increase the limit"

/-- The value of a row of digits; a character that is no digit counts as zero. -/
def value (cs : List Char) : Nat :=
  cs.foldl (fun n c => 10 * n + (Text.digitValue? c).getD 0) 0

theorem value_nil : value [] = 0 := rfl

theorem value_append_singleton (cs : List Char) (c : Char) :
    value (cs ++ [c]) = 10 * value cs + (Text.digitValue? c).getD 0 := by
  simp [value]

/-- The number that a row of digits names. -/
def read (cs : List Char) : Except TooLong Nat :=
  if cs.length ≤ maxDigits then .ok (value cs) else .error ⟨cs.length⟩

theorem read_of_length_le {cs : List Char} (h : cs.length ≤ maxDigits) : read cs = .ok (value cs) :=
  if_pos h

/-- A number that may be written. -/
def isWritable (n : Int) : Bool := n.natAbs < Nat.pow 10 maxDigits

/-- The text about a number that may not be written. -/
def unwritable : String :=
  s!"Exceeds the limit ({maxDigits} digits) for integer string conversion; " ++
    "use sys.set_int_max_str_digits() to increase the limit"

/-- Digits with single underscores between them, without the underscores. -/
def digitRun? : List Char → Option (List Char)
  | [] => none
  | [c] => if Text.isDecimal c then some [c] else none
  | c :: '_' :: cs => if Text.isDecimal c then (digitRun? cs).map (c :: ·) else none
  | c :: cs => if Text.isDecimal c then (digitRun? cs).map (c :: ·) else none

/-- The blanks that may surround an integer: all but the information separators. -/
def isMargin (c : Char) : Bool := Text.isBlank c && !(0x1C ≤ c.toNat && c.toNat ≤ 0x1F)

/-- An integer with an optional sign, between optional blanks. -/
def readInteger? (cs : List Char) : Option Int := do
  let body := Text.trimBy isMargin cs
  let (negative, digits) := match body with
    | '-' :: ds => (true, ds)
    | '+' :: ds => (false, ds)
    | ds => (false, ds)
  let n ← (read (← digitRun? digits)).toOption
  return if negative then -(n : Int) else n

end Wireframe.Numeral
