import Wireframe.Number.Hundredths

/-! Text and attributes in markup. What is escaped is known by its code points, so that a text may hold any of
them; the texts of documents are sequences of characters, among which there are no surrogates. -/

namespace Wireframe.Svg

/-- The code points that markup can hold: all but most controls and two that are no characters. -/
def isLegal (n : Nat) : Bool :=
  (0x20 ≤ n || n = 0x9 || n = 0xA || n = 0xD) && n ≠ 0xFFFE && n ≠ 0xFFFF

/-- What stands for a code point that could be taken for markup. -/
def entity? (n : Nat) : Option String :=
  if n = '&'.toNat then some "&amp;"
  else if n = '<'.toNat then some "&lt;"
  else if n = '>'.toNat then some "&gt;"
  else if n = '"'.toNat then some "&quot;"
  else if n = '\''.toNat then some "&#x27;"
  else none

section Escape

variable {κ : Type} (code : κ → Nat) (ofChar : Char → κ)

/-- What stands in markup for one thing that has a code point. -/
def written (k : κ) : List κ := ((entity? (code k)).map (·.toList.map ofChar)).getD [k]

/-- A text of things that have code points as markup shows it, without those that markup cannot hold. -/
def escapeAll (text : List κ) : List κ := (text.filter (isLegal ∘ code)).flatMap (written code ofChar)

end Escape

/-- A text of any code points as markup shows it. -/
def escapePoints : List Nat → List Nat := escapeAll id Char.toNat

/-- The text as markup shows it. -/
def escape (s : String) : String := String.ofList (escapeAll Char.toNat id s.toList)

/-- The value of an attribute. -/
inductive Value
  | number (x : Float)
  | text (s : String)
  | flag (b : Bool)

def Value.shown : Value → String
  | number x => Hundredths.text x
  | text s => s
  | flag b => if b then "True" else "False"

/-- The name of an attribute, with hyphens between its words. -/
def attributeName (name : String) : String :=
  String.ofList (name.toList.map fun c => if c = '_' then '-' else c)

/-- A value under its name. -/
def setting (name : String) (value : Value) : String :=
  attributeName name ++ "=\"" ++ escape value.shown ++ "\""

/-- The attributes that have a value, in their order. -/
def attributes (l : List (String × Option Value)) : String :=
  " ".intercalate (l.filterMap fun (name, value) => value.map (setting name))

end Wireframe.Svg
