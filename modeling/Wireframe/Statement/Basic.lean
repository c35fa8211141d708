import Wireframe.Token.Basic
import Wireframe.Document.Settings

/-! Statements: what a document says line by line, each in itself right. -/

namespace Wireframe

inductive Statement
  | ratio (width height : Nat)
  | grid (cols rows : Nat) (location : Location)
  | gap (pixels : Float)
  | padding (pixels : Float)
  /-- The entries of a palette, in the order in which they are written. -/
  | colors (entries : List (String × String))
  | theme (name : String)
  | weights (axis : Axis) (values : List Float) (location : Location)
  /-- A component with its properties, in the order in which they are written. -/
  | component (range : Range) (entries : List (String × Token)) (location : Location)

/-- The settings that a statement may make. -/
inductive Setting
  | ratio
  | grid
  | gap
  | padding
  | colors
  | theme
  | weights (axis : Axis)
  deriving DecidableEq, Repr

namespace Setting

/-- The keys of the settings, in lower case. -/
def keys : List (String × Setting) :=
  [("ratio", ratio), ("grid", grid), ("gap", gap), ("padding", padding), ("colors", colors),
   ("theme", theme), ("col-widths", weights .columns), ("colwidths", weights .columns),
   ("row-heights", weights .rows), ("rowheights", weights .rows)]

/-- The setting of a key in any case. -/
def ofKey? (key : String) : Option Setting :=
  keys.lookup (String.ofList (key.toList.map Char.toLower))

end Setting
end Wireframe
