import Wireframe.Layout.Plan
import Wireframe.Log.Note
import Wireframe.Svg.Element
import Wireframe.Theme
import Wireframe.Typeset.Fit

/-! Drawings of components in their rectangles, and of documents. An empty text counts as none, and an image
that cannot be had is drawn as a box with its name. -/

namespace Wireframe

/-- Finds what an image source stands for, or fails. A failure need not have a text that says why. -/
abbrev ImageLoader := String → Noted (Except (Option String) String)

/-- Why a document cannot be drawn. -/
inductive DrawingError
  | layout (fault : Layout.Fault)
  | theme (unknown : Theme.Unknown)
  /-- The image of a source cannot be had, and the failure has no text to note. -/
  | untold (src : String)

namespace Drawing

open Svg

/-- The text, unless it is empty. -/
def given (text : Option String) : Option String := text.filter (· ≠ "")

/-- The rounded shape behind a component. -/
def shape (r : Rect Float) (theme : Theme) (fill : String) (stroke : Option String) : Shape :=
  .box {
    x := r.x, y := r.y, width := r.width, height := r.height, fill := fill
    radius := some theme.borderRadius.toFloat
    stroke := stroke
    strokeWidth := some theme.strokeWidth.toFloat }

section Setting

variable {α : Type} [OrderedScalar α]

/-- The point that a text of the given alignment is set from. -/
def anchorX (r : Rect α) : Align → α
  | .left => r.x + r.padding
  | .center => r.centerX
  | .right => r.x + r.width - r.padding

/-- The baseline of a line in a block of `lines` lines in the middle of the rectangle. -/
def baseline (r : Rect α) (size : α) (lines index : Nat) : α :=
  let height := size * Typeset.lineHeight
  let top := r.centerY - Scalar.ofInt lines * height / 2
  top + height * (Scalar.ofInt index + OrderedScalar.ofDecimal 5 1) + size / 3

/-- A text set in a rectangle. -/
structure Block (α : Type) extends Typeset.Fitted α where
  x : α
  /-- The first baseline. -/
  top : α
  /-- The baselines after the first. -/
  others : List α

/-- The text as it is fitted into the rectangle, from the given size on. -/
def Block.fit (r : Rect α) (size : α) (align : Align) (cs : List Char) : Block α :=
  let fitted := Typeset.fit r.width r.height r.padding size cs
  let lines := fitted.lines.length
  { fitted with
    x := anchorX r align
    top := baseline r fitted.size lines 0
    others := (List.range' 1 (lines - 1)).map (baseline r fitted.size lines) }

end Setting

/-- A text that is fitted into the rectangle; an empty text is not drawn. -/
def text? (value : String) (r : Rect Float) (theme : Theme) (align : Align) (fill : String) :
    Option Shape :=
  if value = "" then none
  else
    let block := Block.fit r theme.fontSize.toFloat align value.toList
    some (.lettering {
      lines := block.lines.map String.ofList
      x := block.x
      top := block.top
      others := block.others
      size := block.size
      align := align
      fill := fill })

/-- Text, on a shape where a fill or a stroke is given. -/
def txt? (c : Component) (value : String) (align : Align) (r : Rect Float) (theme : Theme) :
    Option Fragment :=
  let back :=
    if (given c.bg).isSome || (given c.border).isSome then
      some (shape r theme ((given c.bg).getD "none") c.border)
    else none
  match back, text? value r theme align ink with
  | some back, some label => some (.group [back, label])
  | some back, none => some (.shape back)
  | none, label => label.map .shape

def box (c : Component) (r : Rect Float) (theme : Theme) : Fragment :=
  .shape (shape r theme ((given c.bg).getD theme.defaultFill) c.border)

/-- A shape with its text in the middle. -/
def btn (c : Component) (value : String) (r : Rect Float) (theme : Theme) : Fragment :=
  .group (shape r theme ((given c.bg).getD theme.defaultFill) c.border ::
    (text? value r theme .center ink).toList)

/-- The part of the size of other text that the label of a field has. -/
def labelScale : Float := 0.75

/-- The pixels between the label of a field and the field. -/
def labelGap : Float := 8.0

/-- The least height of a field. -/
def fieldMinHeight : Float := 40.0

def label? (label : String) (r : Rect Float) (theme : Theme) : Option Shape :=
  if label = "" then none
  else some (.lettering {
    lines := [label]
    x := r.x + r.padding
    top := r.y + r.padding + theme.fontSize.toFloat / 2.0
    others := []
    size := theme.fontSize.toFloat * labelScale })

def field (c : Component) (r : Rect Float) (theme : Theme) : Shape :=
  .box {
    x := r.x + r.padding
    y := r.y + r.padding + theme.fontSize.toFloat + labelGap
    width := Typeset.inside r.width r.padding
    height :=
      OrderedScalar.max (r.height - 2.0 * r.padding - theme.fontSize.toFloat - labelGap) fieldMinHeight
    fill := (given c.bg).getD "white"
    radius := some (theme.borderRadius.toFloat / 2.0)
    stroke := some ((given c.border).getD ink)
    strokeWidth := some theme.strokeWidth.toFloat }

/-- A field below its label. -/
def input (c : Component) (label : String) (r : Rect Float) (theme : Theme) : Fragment :=
  .group ((label? label r theme).toList ++ [field c r theme])

/-- The name on the box that stands for an image. -/
def imageName (src alt : Option String) : String :=
  "[IMG: " ++ ((given alt).or (given src)).getD "image" ++ "]"

/-- The box that stands for an image, with its name. -/
def placeholder (c : Component) (src alt : Option String) (r : Rect Float) (theme : Theme) :
    Fragment :=
  .group (shape r theme ((given c.bg).getD "#f0f0f0") (some ((given c.border).getD "#ccc")) ::
    (text? (imageName src alt) r theme .center "#666").toList)

/-- The image in its rectangle. -/
def picture (href : String) (r : Rect Float) : Fragment :=
  .shape (.picture ⟨href, r.x, r.y, r.width, r.height⟩)

/-- What a component is drawn as, if anything, with the image that is had for it. -/
def component (c : Component) (r : Rect Float) (theme : Theme) (image : Option String) : Option Fragment :=
  match c.content with
  | .txt value align => txt? c value align r theme
  | .box => some (box c r theme)
  | .btn value => some (btn c value r theme)
  | .input label => some (input c label r theme)
  | .img src alt => some ((image.map (picture · r)).getD (placeholder c src alt r theme))

/-- The markup of a fragment, empty where there is none. -/
def markup (f : Option Fragment) : String := (f.map Fragment.markup).getD ""

end Drawing

/-- The source of an image, unless it is empty; other components have none. -/
def Component.source? (c : Component) : Option String :=
  match c.content with
  | .img src _ => Drawing.given src
  | _ => none

/-- The image that a loader has for a component, if any. A failure to load it is noted with its text, and
without one there is nothing to go on with. -/
def Drawing.image? (c : Component) (loader : Option ImageLoader) : ExceptT DrawingError Noted (Option String) :=
  match c.source?, loader with
  | some src, some load => do
    match ← load src with
    | .ok href => return some href
    | .error (some reason) =>
      Noted.note (.replaced src reason)
      return none
    | .error none => throw (.untold src)
  | _, _ => return none

namespace Document

/-- A component with the rectangle that the plan has for it. -/
def place (plan : Plan Measure) (c : Component) : Except DrawingError (Component × Rect Float) :=
  ((plan.place c.range c.padding).toFloat?.map (c, ·)).mapError (DrawingError.layout ∘ .arithmetic)

/-- The fragments of components in their rectangles, in their order. -/
def fragments (plan : Plan Measure) (theme : Theme) (loader : Option ImageLoader) :
    List Component → ExceptT DrawingError Noted (List (Option Svg.Fragment))
  | [] => return []
  | c :: rest => do
    let (_, r) ← place plan c
    let image ← Drawing.image? c loader
    return Drawing.component c r theme image :: (← fragments plan theme loader rest)

/-- The drawing of a document, with what is noted on the way to it. -/
def draw (d : Document) (loader : Option ImageLoader) : Noted (Except DrawingError String) :=
  ExceptT.run do
    let plan ← (Plan.ofSettings d.settings).mapError DrawingError.layout
    let theme ← (Theme.named? d.settings.theme).mapError DrawingError.theme
    let fs ← fragments plan theme loader d.components
    Noted.note (.rendered fs.length plan.canvas.width plan.canvas.height)
    let sheet ← (Svg.Sheet.ofEdges plan.canvas.width plan.canvas.height).mapError
      (DrawingError.layout ∘ .arithmetic)
    return sheet.document (fs.map Drawing.markup)

end Document
end Wireframe
