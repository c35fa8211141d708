/-! The exact value of a binary64 number. Every finite one is a whole number of units of `2 ^ -1074`,
so exact comparison, truncation and rounding are arithmetic of naturals. -/

namespace Wireframe

/-- A binary64 number as a sign and a whole number of units of `2 ^ -1074`. -/
inductive Binary64
  | finite (negative : Bool) (units : Nat)
  | infinite (negative : Bool)
  | notANumber
  deriving DecidableEq, Repr

namespace Binary64

open Float.Model in
/-- The exact value of `x`. -/
def ofFloat (x : Float) : Binary64 :=
  match x.toModel.unpack with
  | .finite s m e _ => .finite (s == .negative) (m * Nat.pow 2 (e + 1074).toNat)
  | .zero s => .finite (s == .negative) 0
  | .infinity s => .infinite (s == .negative)
  | .notANumber => .notANumber

/-- One, in units. -/
def one : Nat := Nat.pow 2 1074

/-- The least natural number that is beyond the binary64 numbers: half a step above the greatest of
them. -/
def limit : Nat := Nat.pow 2 1024 - Nat.pow 2 970

/-- The rational number that a finite value is; zero for the others. -/
def toRat : Binary64 → Rat
  | .finite negative units => mkRat (if negative then -(units : Int) else units) one
  | _ => 0

/-- The value without its fraction; zero for infinities and for no number. -/
def truncate : Binary64 → Int
  | .finite negative units =>
    if negative then -((units / one : Nat) : Int) else ((units / one : Nat) : Int)
  | _ => 0

open Float.Model in
/-- The quotient of two naturals, rounded once to the nearest binary64, a tie to the even one. -/
def divNat (n d : Nat) : Float :=
  if hn : 0 < n then
    if hd : 0 < d then
      .ofModel (Float.Model.pack (UnpackedFloat.div Format.binary64
        (.finite .positive n 0 hn) (.finite .positive d 0 hd)))
    else 0.0
  else 0.0

/-- The quotient of two integers, rounded once; zero when the divisor is zero. -/
def divInt (n d : Int) : Float :=
  let q := divNat n.natAbs d.natAbs
  if (n < 0) = (d < 0) then q else -q

end Binary64
end Wireframe
