import Wireframe.Cell.Range
import Wireframe.Text.Quoted

/-! Components: what a document places on its grid. -/

namespace Wireframe

/-- The side that text leans to. -/
inductive Align
  | left
  | center
  | right
  deriving DecidableEq, Repr

namespace Align

def all : List Align := [left, center, right]

def name : Align → String
  | left => "left"
  | center => "center"
  | right => "right"

def ofName? (name : String) : Option Align := all.find? (·.name = name)

/-- The text about a word that names no alignment. -/
def unknown (word : String) : String := Text.quoted word ++ " is not a valid Align"

end Align

namespace Component

/-- Text, a filled shape, a button, a labelled field, and an image. -/
inductive Kind
  | txt
  | box
  | btn
  | input
  | img
  deriving DecidableEq, Repr

namespace Kind

def all : List Kind := [txt, box, btn, input, img]

def name : Kind → String
  | txt => "txt"
  | box => "box"
  | btn => "btn"
  | input => "input"
  | img => "img"

def ofName? (name : String) : Option Kind := all.find? (·.name = name)

/-- The text about a word that names no kind. -/
def unknown (word : String) : String := Text.quoted word ++ " is not a valid ComponentType"

/-- The properties that mean something for a kind, in alphabetical order. -/
def properties : Kind → List String
  | txt => ["align", "bg", "border", "padding", "value"]
  | box => ["bg", "border", "padding"]
  | btn => ["bg", "border", "padding", "value"]
  | input => ["bg", "border", "label", "padding"]
  | img => ["alt", "bg", "border", "padding", "src"]

end Kind

/-- What a component of each kind shows. -/
inductive Content
  | txt (value : String) (align : Align)
  | box
  | btn (value : String)
  | input (label : String)
  | img (src alt : Option String)
  deriving DecidableEq, Repr

def Content.kind : Content → Kind
  | txt .. => .txt
  | box => .box
  | btn _ => .btn
  | input _ => .input
  | img .. => .img

/-- Properties as they are given for a component of any kind. -/
structure Properties where
  padding : Option Float := none
  /-- The text of the component; nothing stands for a missing text. -/
  value : Option String := some ""
  label : Option String := some ""
  align : String := Align.left.name
  src : Option String := none
  alt : Option String := none
  bg : Option String := none
  border : Option String := none

end Component

structure Component where
  range : Range
  /-- The inset of the content, where the component has its own. -/
  padding : Option Float
  bg : Option String
  border : Option String
  content : Component.Content
  deriving DecidableEq

namespace Component

def kind (c : Component) : Kind := c.content.kind

/-- The number is not below zero. -/
def notNegative (x : Float) : Bool := 0.0 ≤ x

def paddingErrors (padding : Option Float) : List FieldError :=
  match padding with
  | none => []
  | some x => FieldError.unless (notNegative x) "padding" .negative

def textErrors (field : String) (text : Option String) : List FieldError :=
  FieldError.unless text.isSome field .notText

/-- The component of a kind with the given properties; those of other kinds are left out. -/
def ofProperties (kind : Kind) (range : Range) (p : Properties) :
    Except (List FieldError) Component :=
  let errors := paddingErrors p.padding ++ match kind with
    | .txt => textErrors "value" p.value ++
      FieldError.unless (Align.ofName? p.align).isSome "align" .notAlign
    | .btn => textErrors "value" p.value
    | .input => textErrors "label" p.label
    | .box | .img => []
  let content : Content := match kind with
    | .txt => .txt (p.value.getD "") ((Align.ofName? p.align).getD .left)
    | .box => .box
    | .btn => .btn (p.value.getD "")
    | .input => .input (p.label.getD "")
    | .img => .img p.src p.alt
  if errors = [] then .ok ⟨range, p.padding, p.bg, p.border, content⟩ else .error errors

end Component
end Wireframe
