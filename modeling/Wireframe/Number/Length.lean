import Wireframe.Number.Shortest

/-! Lengths as they are given: whole numbers, which are exact, and binary64 numbers. Whole numbers stay
exact under addition, subtraction and multiplication among themselves. A quotient, and an operation with
a binary64 number on one side, is a binary64 number. -/

namespace Wireframe

/-- Why an operation has no result. -/
inductive ArithmeticFault
  /-- A division by zero; `whole` says that both sides are whole numbers. -/
  | divisionByZero ( whole : Bool)
  /-- A quotient of whole numbers that is beyond the binary64 numbers. -/
  | quotientTooLarge
  /-- A whole number beyond the binary64 numbers, where one of them is needed. -/
  | tooLarge
  deriving DecidableEq, Repr

def ArithmeticFault.message : ArithmeticFault → String
  | divisionByZero true => "division by zero"
  | divisionByZero false => "float division by zero"
  | quotientTooLarge => "integer division result too large for a float"
  | tooLarge => "int too large to convert to float"

/-- A length as its caller wrote it. -/
inductive Length
  | whole (n : Int)
  | real (x : Float)
  deriving DecidableEq

namespace Length

/-- The nearest binary64 number; an infinity where a whole number is beyond them. -/
def toFloat : Length → Float
  | whole n => Float.ofInt n
  | real x => x

/-- The nearest binary64 number, unless a whole number is beyond them. -/
def toFloat? : Length → Except ArithmeticFault Float
  | whole n => if Binary64.limit ≤ n.natAbs then .error .tooLarge else .ok (Float.ofInt n)
  | real x => .ok x

def isNegative : Length → Bool
  | whole n => n < 0
  | real x => x < 0.0

def text : Length → String
  | whole n => toString n
  | real x => Shortest.text x

/-- The result of `onReals` on the binary64 numbers nearest to two lengths. -/
def combine (onReals : Float → Float → Float) (a b : Length) : Except ArithmeticFault Length :=
  match a.toFloat?, b.toFloat? with
  | .ok x, .ok y => .ok (real (onReals x y))
  | .error fault, _ => .error fault
  | _, .error fault => .error fault

def add : Length → Length → Except ArithmeticFault Length
  | whole m, whole n => .ok (whole (m + n))
  | a, b => combine (· + ·) a b

def sub : Length → Length → Except ArithmeticFault Length
  | whole m, whole n => .ok (whole (m - n))
  | a, b => combine (· - ·) a b

def mul : Length → Length → Except ArithmeticFault Length
  | whole m, whole n => .ok (whole (m * n))
  | a, b => combine (· * ·) a b

/-- The quotient of two whole numbers, rounded once. -/
def quotient (m n : Int) : Except ArithmeticFault Float :=
  if n = 0 then .error (.divisionByZero true)
  else if Binary64.limit * n.natAbs ≤ m.natAbs then .error .quotientTooLarge
  else .ok (Binary64.divInt m n)

def div : Length → Length → Except ArithmeticFault Length
  | whole m, whole n => (quotient m n).map real
  | a, b => match a.toFloat?, b.toFloat? with
    | .ok x, .ok y => if y == 0.0 then .error (.divisionByZero false) else .ok (real (x / y))
    | .error fault, _ => .error fault
    | _, .error fault => .error fault

end Length
end Wireframe
