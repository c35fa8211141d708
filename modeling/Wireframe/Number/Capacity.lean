/-! How many of one thing there can be: never so many that their number is beyond all lengths, and else as
many as a machine has room for. -/

namespace Wireframe

/-- Why there cannot be a given number of something. -/
inductive CapacityFault
  /-- The number is beyond all lengths. -/
  | noLength
  /-- There is no room for so many. -/
  | noRoom
  deriving DecidableEq, Repr

namespace CapacityFault

def message : CapacityFault → String
  | noLength => "cannot fit 'int' into an index-sized integer"
  | noRoom => ""

/-- What is wrong with `n` as a number of things where there is room for `room` of them; a negative one
stands for none of them. -/
def of? (room n : Int) : Option CapacityFault :=
  if n < -0x8000000000000000 ∨ 0x8000000000000000 ≤ n then some noLength
  else if room < n then some noRoom
  else none

end CapacityFault
end Wireframe
