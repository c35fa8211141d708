import Wireframe.Text.Split

/-! Themes: the sizes and the fill that all drawings of a document share. -/

namespace Wireframe

structure Theme where
  strokeWidth : Nat
  borderRadius : Nat
  /-- The size that text has before it is fitted. -/
  fontSize : Nat
  /-- The fill of boxes and buttons that name none. -/
  defaultFill : String
  deriving DecidableEq, Repr

namespace Theme

def defaultName : String := "default"

/-- The theme of a document that names none. -/
def default : Theme := ⟨2, 8, 24, "#e0e0e0"⟩

/-- The themes under their names. -/
def all : List (String × Theme) :=
  [(defaultName, default), ("clean", ⟨1, 4, 20, "#f0f0f0"⟩), ("bold", ⟨3, 12, 28, "#d0d0d0"⟩)]

def names : List String := all.map (·.1)

/-- A name that no theme has. -/
structure Unknown where
  name : String
  deriving DecidableEq, Repr

def Unknown.message (u : Unknown) : String :=
  "Unknown theme \"" ++ u.name ++ "\". Available themes: " ++ ", ".intercalate names

/-- The theme of a name; no name and the empty name stand for the default. -/
def named? (name : Option String) : Except Unknown Theme :=
  match name with
  | none => .ok default
  | some name =>
    if name = "" then .ok default
    else match all.lookup name with
      | some theme => .ok theme
      | none => .error ⟨name⟩

end Theme
end Wireframe
