import Wireframe.Text.Blank
import Wireframe.Text.Split
import Wireframe.Typeset.Glyph

/-! Wrapping. A line of a text is cut into pieces, the pieces are packed greedily into groups that
keep to a width, and each group is a line without the spaces at its end. -/

namespace Wireframe.Typeset

variable {α : Type} [OrderedScalar α]

/-- The pieces between which a line may be broken: a wide character is one by itself, and other
characters run up to a space, which ends its piece. -/
def pieces : List Char → List (List Char)
  | [] => []
  | c :: cs =>
    if isWide c || c = ' ' then [c] :: pieces cs
    else match pieces cs with
      | (d :: piece) :: rest =>
        if isWide d then [c] :: (d :: piece) :: rest else (c :: d :: piece) :: rest
      | rest => [c] :: rest

/-- What goes on a group of width `width`, and the groups after it. -/
def packAfter (limit size width : α) :
    List (List Char) → List (List Char) × List (List (List Char))
  | [] => ([], [])
  | piece :: rest =>
    let w := textWidth size piece
    if OrderedScalar.lt limit (width + w) then
      let (first, groups) := packAfter limit size w rest
      ([], (piece :: first) :: groups)
    else
      let (first, groups) := packAfter limit size (width + w) rest
      (piece :: first, groups)

/-- The pieces in groups, each as long as the limit allows and of one piece at least. -/
def pack (limit size : α) : List (List Char) → List (List (List Char))
  | [] => []
  | piece :: rest =>
    let (first, groups) := packAfter limit size (Scalar.zero + textWidth size piece) rest
    (piece :: first) :: groups

/-- A group as a line. -/
def line (group : List (List Char)) : List Char := Text.dropTail (· = ' ') group.flatten

/-- The lines that a line without line ends is wrapped into; an empty one stays. -/
def wrapLine (limit size : α) (cs : List Char) : List (List Char) :=
  match pack limit size (pieces cs) with
  | [] => [[]]
  | groups => groups.map line

/-- The lines of a text under a limit to their width. -/
def wrap (limit size : α) (cs : List Char) : List (List Char) :=
  (Text.splitAt '\n' cs).flatMap (wrapLine limit size)

end Wireframe.Typeset
