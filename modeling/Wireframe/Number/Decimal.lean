import Wireframe.Number.Numeral

/-! Decimals: a row of digits, with a point somewhere after the first digit or without. -/

namespace Wireframe.Decimal

/-- The binary64 number nearest to a decimal. -/
def read (cs : List Char) : Float :=
  let whole := cs.takeWhile Char.isDigit
  let fraction := (cs.dropWhile Char.isDigit).drop 1
  Float.ofScientific (Numeral.value (whole ++ fraction)) true fraction.length

end Wireframe.Decimal
