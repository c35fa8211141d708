import Wireframe.Document.Component
import Wireframe.Number.Length
import Wireframe.Svg.Attribute

/-! Elements of a drawing and their markup: rectangles, images, texts of one or several lines, groups
of these, and the document around them. -/

namespace Wireframe.Svg

/-- The fill of the canvas. -/
def background : String := "white"

/-- The color of text. -/
def ink : String := "black"

def fontFamily : String := "sans-serif"

/-- The word for the point of a line that its position names. -/
def anchor : Align → String
  | .left => "start"
  | .center => "middle"
  | .right => "end"

/-- A rectangle; it is stroked only in a color. -/
structure Box where
  x : Float
  y : Float
  width : Float
  height : Float
  fill : String
  radius : Option Float := none
  stroke : Option String := none
  strokeWidth : Option Float := none

/-- A picture, fitted into its rectangle. -/
structure Picture where
  href : String
  x : Float
  y : Float
  width : Float
  height : Float

/-- Lines of text, each on its baseline. -/
structure Lettering where
  lines : List String
  x : Float
  /-- The first baseline. -/
  top : Float
  /-- The baselines after the first. -/
  others : List Float
  size : Float
  align : Align := .left
  fill : String := ink

/-- The attributes of an element. -/
abbrev Attributes := List (String × Option Value)

namespace Box

def attributes (b : Box) : Attributes :=
  [("x", some (.number b.x)), ("y", some (.number b.y)), ("width", some (.number b.width)),
   ("height", some (.number b.height)), ("rx", b.radius.map .number), ("fill", some (.text b.fill)),
   ("stroke", b.stroke.map .text), ("stroke-width", b.stroke.bind fun _ => b.strokeWidth.map .number)]

def markup (b : Box) : String := "<rect " ++ Svg.attributes b.attributes ++ "/>"

end Box

namespace Picture

def attributes (p : Picture) : Attributes :=
  [("href", some (.text p.href)), ("x", some (.number p.x)), ("y", some (.number p.y)),
   ("width", some (.number p.width)), ("height", some (.number p.height)),
   ("preserveAspectRatio", some (.text "xMidYMid meet"))]

def markup (p : Picture) : String := "<image " ++ Svg.attributes p.attributes ++ "/>"

end Picture

namespace Lettering

def attributes (l : Lettering) : Attributes :=
  [("x", some (.number l.x)), ("y", some (.number l.top)), ("font-size", some (.number l.size)),
   ("font-family", some (.text fontFamily)), ("text-anchor", some (.text (anchor l.align))),
   ("fill", some (.text l.fill))]

/-- The attributes of a line on a baseline. -/
def lineAttributes (l : Lettering) (y : Float) : Attributes :=
  [("x", some (.number l.x)), ("y", some (.number y))]

/-- A line as a part of a text. -/
def span (l : Lettering) (line : String) (y : Float) : String :=
  "<tspan " ++ Svg.attributes (l.lineAttributes y) ++ ">" ++ escape line ++ "</tspan>"

/-- A line alone stands in the text itself. -/
def body (l : Lettering) : String :=
  match l.lines with
  | [line] => escape line
  | lines => String.join ((lines.zip (l.top :: l.others)).map fun (line, y) => l.span line y)

def markup (l : Lettering) : String :=
  "<text " ++ Svg.attributes l.attributes ++ ">" ++ l.body ++ "</text>"

end Lettering

/-- What a drawing is made of. -/
inductive Shape
  | box (b : Box)
  | picture (p : Picture)
  | lettering (l : Lettering)

def Shape.markup : Shape → String
  | box b => b.markup
  | picture p => p.markup
  | lettering l => l.markup

/-- The parts of a group in one element, a line for each. -/
def groupMarkup (parts : List String) : String :=
  "<g>\n    " ++ "\n    ".intercalate (parts.filter (· ≠ "")) ++ "\n  </g>"

/-- What one component is drawn as. -/
inductive Fragment
  | shape (s : Shape)
  | group (parts : List Shape)

def Fragment.markup : Fragment → String
  | shape s => s.markup
  | group parts => groupMarkup (parts.map Shape.markup)

/-- What a document is drawn on: its edges, and the rectangle behind everything. -/
structure Sheet where
  width : Int
  height : Int
  backdrop : Box

namespace Sheet

/-- The sheet with edges of that many pixels. -/
def ofEdges (width height : Int) : Except ArithmeticFault Sheet := do
  let w ← (Length.whole width).toFloat?
  let h ← (Length.whole height).toFloat?
  return ⟨width, height, { x := 0.0, y := 0.0, width := w, height := h, fill := background }⟩

/-- A whole document: the fragments on the sheet, a line for each. -/
def document (s : Sheet) (fragments : List String) : String :=
  "<?xml version=\"1.0\" encoding=\"UTF-8\"?>\n" ++
    s!"<svg xmlns=\"http://www.w3.org/2000/svg\" width=\"{s.width}\" height=\"{s.height}\"" ++
    s!" viewBox=\"0 0 {s.width} {s.height}\">\n" ++
    "  " ++ s.backdrop.markup ++
    String.join ((fragments.filter (· ≠ "")).map ("\n  " ++ ·)) ++ "\n</svg>\n"

end Sheet
end Wireframe.Svg
