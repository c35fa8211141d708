import Wireframe.Number.Length

/-! The canvas: its longest edge has a fixed length, and the other edge follows from the ratio. -/

namespace Wireframe

structure Canvas where
  width : Int
  height : Int
  deriving DecidableEq, Repr

namespace Canvas

/-- The pixels along the longest edge. -/
def longest : Int := 1280

/-- The nearest whole number of pixels, a half going up; below zero, fractions are cut off. -/
def pixels (x : Float) : Int := (Binary64.ofFloat (x + 0.5)).truncate

/-- The edge that is to the longest one as `short` to `long`. -/
def otherEdge (short long : Int) : Except ArithmeticFault Int :=
  (Length.quotient (longest * short) long).map pixels

/-- The canvas of a ratio. The longest edge is the width where both are equal. -/
def ofRatio (ratio : Int × Int) : Except ArithmeticFault Canvas :=
  if ratio.2 ≤ ratio.1 then (otherEdge ratio.2 ratio.1).map (⟨longest, ·⟩)
  else (otherEdge ratio.1 ratio.2).map (⟨·, longest⟩)

end Canvas
end Wireframe
