import Wireframe.Number.Length
import Wireframe.Number.Rounding

/-! The arithmetic in which sizes are computed. Layout is written once over scalars, and text fitting
once over ordered ones. Layout runs on measures, which are lengths as they are given, and text fitting
on binary64 numbers; over the rationals both are exact. -/

namespace Wireframe

/-- Numbers with the four operations and the constants of a layout. -/
class Scalar (α : Type) extends Add α, Sub α, Mul α, Div α where
  /-- The value of a length. -/
  ofLength : Length → α
  /-- The value, unless an operation behind it has no result. -/
  check : α → Except ArithmeticFault α

/-- Scalars with the order and the constants of text fitting. -/
class OrderedScalar (α : Type) extends Scalar α where
  lt : α → α → Bool
  le : α → α → Bool
  /-- The decimal `m * 10 ^ -k`. -/
  ofDecimal : (m k : Nat) → α
  /-- A natural number that is not below the given one. -/
  bound : α → Nat

/-- A length as the result of operations, or the first fault among them. -/
abbrev Measure := Except ArithmeticFault Length

namespace Measure

/-- An operation on the results of others. -/
def lift (f : Length → Length → Measure) (a b : Measure) : Measure :=
  match a, b with
  | .ok x, .ok y => f x y
  | .error fault, _ => .error fault
  | _, .error fault => .error fault

/-- The nearest binary64 number. -/
def toFloat? : Measure → Except ArithmeticFault Float
  | .ok x => x.toFloat?
  | .error fault => .error fault

end Measure

instance : Scalar Measure where
  add := Measure.lift Length.add
  sub := Measure.lift Length.sub
  mul := Measure.lift Length.mul
  div := Measure.lift Length.div
  ofLength := .ok
  check
    | .ok x => .ok (.ok x)
    | .error fault => .error fault

instance : OrderedScalar Float where
  ofLength := Length.toFloat
  check := .ok
  lt x y := x < y
  le x y := x ≤ y
  ofDecimal m k := Float.ofScientific m true k
  bound x := x.toUInt64.toNat + 1

/-- The rational number that a length is; zero for infinities and for no number. -/
def Length.toRat : Length → Rat
  | whole n => Rat.ofInt n
  | real x => (Binary64.ofFloat x).toRat

instance : OrderedScalar Rat where
  add := Rat.add
  sub := Rat.sub
  mul := Rat.mul
  div := Rat.div
  ofLength := Length.toRat
  check := .ok
  lt x y := x.blt y
  le x y := !y.blt x
  ofDecimal m k := mkRat m (Nat.pow 10 k)
  bound x := x.ceil.toNat

namespace Scalar

variable {α : Type} [Scalar α]

/-- The whole number `n`. -/
def ofInt (n : Int) : α := ofLength (.whole n)

/-- Zero, which a sum starts from. -/
def zero : α := ofInt 0

/-- The sum, added up from the left. -/
def sum (xs : List α) : α := xs.foldl (· + ·) zero

/-- The numbers 2, 3 and so on, as they stand in a formula. -/
instance (priority := low) : OfNat α n := ⟨ofInt n⟩

end Scalar

namespace OrderedScalar

variable {α : Type} [OrderedScalar α]

/-- `x`, unless `y` exceeds it. -/
def max (x y : α) : α := if lt x y then y else x

end OrderedScalar
end Wireframe
