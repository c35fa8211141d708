/-! What can be wrong with a field of a value that is built from parts. -/

namespace Wireframe

inductive FieldProblem
  /-- A number that has to be above zero is not. -/
  | notPositive
  /-- A number that must not be below zero is, or is no number. -/
  | negative
  /-- A word that names no alignment. -/
  | notAlign
  /-- No text where text is needed. -/
  | notText
  /-- A rule over the whole value or field, in its own words. -/
  | rule (text : String)
  deriving DecidableEq, Repr

def FieldProblem.message : FieldProblem → String
  | notPositive => "Input should be greater than 0"
  | negative => "Input should be greater than or equal to 0"
  | notAlign => "Input should be 'left', 'center' or 'right'"
  | notText => "Input should be a valid string"
  | rule text => "Value error, " ++ text

/-- A problem and the field that has it: its name, with a point and the position for one of several
values, and nothing for the value as a whole. -/
structure FieldError where
  field : String
  problem : FieldProblem
  deriving DecidableEq, Repr

/-- The error of `field`, unless `ok` holds. -/
def FieldError.unless (ok : Bool) (field : String) (problem : FieldProblem) : List FieldError :=
  if ok then [] else [⟨field, problem⟩]

end Wireframe
