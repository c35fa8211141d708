import Wireframe.Number.Binary64
import Wireframe.Number.Rounding

/-! Numbers in a drawing: at most two decimals of the exact value, a half going to the even hundredth,
without trailing zeros and without a sign on zero. -/

namespace Wireframe.Hundredths

/-- The decimals of `n` hundredths after its whole part, with their point. -/
def decimals (n : Nat) : String :=
  if n % 100 = 0 then ""
  else if n % 10 = 0 then s!".{n / 10 % 10}"
  else s!".{n / 10 % 10}{n % 10}"

/-- `n` hundredths. -/
def ofNat (n : Nat) : String := s!"{n / 100}" ++ decimals n

/-- `n` hundredths below or above zero. -/
def signed (negative : Bool) (n : Nat) : String :=
  if negative && n ≠ 0 then "-" ++ ofNat n else ofNat n

/-- The number of hundredths nearest to the given units. -/
def count (units : Nat) : Nat := roundDiv (100 * units) Binary64.one

/-- The text of a number in a drawing. -/
def text (x : Float) : String :=
  match Binary64.ofFloat x with
  | .finite negative units => signed negative (count units)
  | .infinite negative => if negative then "-inf" else "inf"
  | .notANumber => "nan"

end Wireframe.Hundredths
