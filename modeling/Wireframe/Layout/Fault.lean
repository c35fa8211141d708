import Wireframe.Number.Capacity
import Wireframe.Number.Length

/-! Why a layout has no sizes. -/

namespace Wireframe.Layout

inductive Fault
  | arithmetic (fault : ArithmeticFault)
  /-- There cannot be so many cells. -/
  | capacity (fault : CapacityFault)
  | negativeGap (gap : Length)
  | negativePadding (padding : Length)
  /-- Weights that are not as many as the cells that they are for. -/
  | miscounted (cells : Int) (weights : Nat)

def Fault.message : Fault → String
  | arithmetic fault => fault.message
  | capacity fault => fault.message
  | negativeGap gap => "Gap must be non-negative, got " ++ gap.text
  | negativePadding padding => "Padding must be non-negative, got " ++ padding.text
  | miscounted cells weights => s!"Expected {cells} weights, got {weights}"

end Wireframe.Layout
