/-! Named colors. A value that starts with `$` refers to a name of the palette. -/

namespace Wireframe

/-- Colors under their names. -/
abbrev Palette := List (String × String)

namespace Color

/-- The name that a value refers to, if it refers to one. -/
def reference? (value : String) : Option String :=
  match value.toList with
  | '$' :: name => some (String.ofList name)
  | _ => none

/-- The name that a value refers to and that the palette lacks. -/
def unresolved? (palette : Palette) (value : Option String) : Option String :=
  match value.bind reference? with
  | some name => if (palette.lookup name).isSome then none else some name
  | none => none

/-- The color of a value: what the palette has under the name, or the value itself. -/
def resolve (palette : Palette) (value : String) : Except String String :=
  match reference? value with
  | none => .ok value
  | some name => match palette.lookup name with
    | some color => .ok color
    | none => .error name

end Color
end Wireframe
