import Wireframe.Document.Issue
import Wireframe.Token.Basic

/-! Why a source text is no document, and the words for it. -/

namespace Wireframe

/-- Tokens out of their order. -/
inductive GrammarFault
  | expected (wanted : String) (got : Token)
  | badValue (got : Token)
  deriving DecidableEq, Repr

def GrammarFault.message : GrammarFault → String
  | expected wanted got => "Expected " ++ wanted ++ ", got " ++ got.describe
  | badValue got => "Unexpected " ++ got.describe ++ " for property value"

/-- Well-formed text that breaks a rule. -/
inductive SemanticFault
  | unknownKey (key : String)
  | ratioTerms (ratio : String)
  | gridLimits (grid : String)
  /-- A grid that leaves out a component that stands before it. -/
  | gridExcludes (cols rows : Nat) (range : Range) (violation : Violation)
  | theme (unknown : Theme.Unknown)
  | weight (number : String)
  | noWeights
  | weightCount (axis : Axis) (listed : Nat) (count : Int)
  | reference (fault : Cell.Fault)
  | missingType
  | unknownType (word : String)
  | unknownAlign (word : String)
  | overlap (range other : Range)
  | outside (violation : Violation)
  | unknownColor (name : String)
  | padding (got : Token)
  deriving DecidableEq

def SemanticFault.message : SemanticFault → String
  | unknownKey key => s!"Unknown metadata key '{key}'"
  | ratioTerms ratio => "Ratio terms must be positive, got " ++ ratio
  | gridLimits grid =>
    s!"Grid columns and rows must be between 1 and {Settings.maxGrid}, got " ++ grid
  | gridExcludes cols rows range violation =>
    s!"Grid {cols}x{rows} does not contain component at " ++ range.text ++ ": " ++
      violation.message
  | theme unknown => unknown.message
  | weight number => "Weights must be positive, got " ++ number
  | noWeights => "Weight list must not be empty"
  | weightCount axis listed count =>
    s!"{axis.weights} lists {listed} weights but the grid has {count} {axis.word}"
  | reference fault => fault.message
  | missingType => "Component missing 'type' property"
  | unknownType word => s!"Invalid component type '{word}' (expected one of: " ++
      ", ".intercalate (Component.Kind.all.map (·.name)) ++ ")"
  | unknownAlign word => s!"Invalid align value '{word}' (expected one of: " ++
      ", ".intercalate (Align.all.map (·.name)) ++ ")"
  | overlap range other => "Cell overlap: " ++ range.text ++ " overlaps " ++ other.text
  | outside violation => violation.message
  | unknownColor name => s!"Unknown theme color '${name}'"
  | padding got => "padding must be a number, got " ++ got.describe

/-- Why reading a document failed. -/
inductive Failure
  | lexical (fault : LexicalFault) (location : Location)
  | grammar (fault : GrammarFault) (location : Location)
  | semantic (fault : SemanticFault) (location : Location)
  | numeral (tooLong : Numeral.TooLong)
  /-- What was read does not make a document. -/
  | invalid (errors : List FieldError)
  deriving DecidableEq

/-- The report of a failure that has a position. -/
def Failure.report? : Failure → Option Report
  | lexical fault location => some ⟨.lexical, fault.message, location⟩
  | grammar fault location => some ⟨.grammatical, fault.message, location⟩
  | semantic fault location => some ⟨.semantic, fault.message, location⟩
  | numeral _ | invalid _ => none

end Wireframe
