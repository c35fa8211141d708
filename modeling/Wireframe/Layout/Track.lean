import Wireframe.Layout.Fault
import Wireframe.Number.Scalar

/-! Tracks: the sizes of the cells along one axis, and the stretch of a span of them. Between two
neighbouring cells there is a gap, and none at the edges of the axis. -/

namespace Wireframe

/-- The distance between neighbouring cells and the inset of their content. -/
structure Spacing (α : Type) where
  gap : α
  padding : α

/-- The spacing of two lengths that are not below zero. -/
def Spacing.ofLengths (gap padding : Length) : Except Layout.Fault (Spacing Length) :=
  if gap.isNegative then .error (.negativeGap gap)
  else if padding.isNegative then .error (.negativePadding padding)
  else .ok ⟨gap, padding⟩

namespace Track

variable {α : Type} [Scalar α]

/-- The value, unless an operation behind it has no result. -/
def checked (x : α) : Except Layout.Fault α := (Scalar.check x).mapError .arithmetic

/-- What the gaps leave of an axis of `count` cells. -/
def available (total gap : α) (count : Int) : α := total - gap * Scalar.ofInt (count - 1)

/-- Cells that share what is available equally, if there is the capacity for so many: for any number of
them unless `refused?` says otherwise. -/
def uniform (available : α) (count : Int) (refused? : Int → Option CapacityFault := fun _ => none) :
    Except Layout.Fault (List α) := do
  let size ← checked (available / Scalar.ofInt count)
  match refused? count with
  | some fault => throw (.capacity fault)
  | none => return List.replicate count.toNat size

/-- Cells that share what is available in the ratio of their weights. -/
def weighted (available : α) (weights : List α) : Except Layout.Fault (List α) := do
  let sum ← checked (Scalar.sum weights)
  weights.mapM fun w => checked (available * w / sum)

/-- The sizes of the cells along an axis, of one size unless weights are given. -/
def sizes (total gap : α) (count : Int) (weights : Option (List α))
    (refused? : Int → Option CapacityFault := fun _ => none) : Except Layout.Fault (List α) := do
  let available ← checked (available total gap count)
  match weights with
  | none => uniform available count refused?
  | some ws =>
    if (ws.length : Int) = count then weighted available ws
    else throw (.miscounted count ws.length)

/-- Where the cell at `first` starts. -/
def offset (sizes : List α) (gap : α) (first : Nat) : α :=
  Scalar.sum (sizes.take first) + gap * Scalar.ofInt first

/-- The length of the cells from `first` to `last`, with the gaps between them. -/
def length (sizes : List α) (gap : α) (first last : Nat) : α :=
  Scalar.sum ((sizes.drop first).take (last + 1 - first)) + gap * Scalar.ofInt (last - first)

end Track
end Wireframe
