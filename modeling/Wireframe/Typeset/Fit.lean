import Wireframe.Typeset.Wrap

/-! Fitting: a text is wrapped at smaller and smaller sizes until its lines fit the height of their
box, down to a least size that is taken in any case. -/

namespace Wireframe.Typeset

variable {α : Type} [OrderedScalar α]

/-- The size that is not gone below. -/
def minSize : α := Scalar.ofInt 8

/-- The height of a line as a part of the size of its text. -/
def lineHeight : α := OrderedScalar.ofDecimal 12 1

/-- What an inset on both sides leaves of a length. -/
def inside (length padding : α) : α := OrderedScalar.max (length - 2 * padding) Scalar.zero

/-- Lines of that number and size are not higher than the limit. -/
def heightFits (limit size : α) (lines : Nat) : Bool :=
  OrderedScalar.le (Scalar.ofInt lines * size * lineHeight) limit

/-- The size to try after one that does not fit. -/
def smaller (size : α) : α := OrderedScalar.max (size - 2) minSize

/-- A text as lines, with the size at which they are set. -/
structure Fitted (α : Type) where
  lines : List (List Char)
  size : α

/-- The first of the sizes from `size` on at which the text fits, or the least size; at most `steps`
sizes are passed over. -/
def fitFrom (width height : α) (cs : List Char) : Nat → α → Fitted α
  | 0, size => ⟨wrap width size cs, size⟩
  | steps + 1, size =>
    let lines := wrap width size cs
    if heightFits height size lines.length || OrderedScalar.le size minSize then ⟨lines, size⟩
    else fitFrom width height cs steps (smaller size)

/-- The text in a box of the given width, height and inset. -/
def fit (width height padding size : α) (cs : List Char) : Fitted α :=
  fitFrom (inside width padding) (inside height padding) cs (OrderedScalar.bound size) size

end Wireframe.Typeset
