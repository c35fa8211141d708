import Wireframe.Number.Decimal
import Wireframe.Statement.Basic
import Wireframe.Statement.Reader

/-! The grammar of statements. What a statement says by itself is checked here, at the token that says
it: terms and weights above zero, a grid within its limits, a theme that exists, rows from one. -/

namespace Wireframe.Statement

open Reader

/-- The decimal that a number token writes. -/
def decimal (t : Token) : Float := Decimal.read t.value.toList

/-- The two numbers of a ratio or of a grid. -/
def terms (t : Token) : Except Failure (Nat × Nat) :=
  let cs := t.value.toList
  match Numeral.read (cs.takeWhile Char.isDigit) with
  | .error e => .error (.numeral e)
  | .ok a => match Numeral.read ((cs.dropWhile Char.isDigit).drop 1) with
    | .error e => .error (.numeral e)
    | .ok b => .ok (a, b)

/-- The two numbers of a token, which keep a rule. -/
def termsIn (rule : Nat → Bool) (fault : String → SemanticFault) (t : Token) :
    Except Failure (Nat × Nat) :=
  match terms t with
  | .error e => .error e
  | .ok (a, b) =>
    if rule a && rule b then .ok (a, b) else .error (.semantic (fault t.value) t.location)

def ratioTerms (t : Token) : Except Failure (Nat × Nat) := termsIn (0 < ·) .ratioTerms t

def gridTerms (t : Token) : Except Failure (Nat × Nat) :=
  termsIn (Settings.inGridLimits ·) .gridLimits t

/-- The name of a theme that exists. -/
def themeName (t : Token) : Except Failure String :=
  match Theme.named? (some t.value) with
  | .ok _ => .ok t.value
  | .error unknown => .error (.semantic (.theme unknown) t.location)

def weight (t : Token) : Except Failure Float :=
  if Settings.isPositive (decimal t) then .ok (decimal t)
  else .error (.semantic (.weight t.value) t.location)

/-- The weights of a list, of which there is at least one. -/
def someWeights (listed : List Float × Token) : Except Failure (List Float) :=
  if listed.1 = [] then .error (.semantic .noWeights listed.2.location) else .ok listed.1

/-- The range that a token names. -/
def rangeOf (t : Token) : Except Failure Range :=
  match Range.read t.value.toList with
  | .ok range => .ok range
  | .error (.numeral e) => .error (.numeral e)
  | .error fault => .error (.semantic (.reference fault) t.location)

/-- The colon after a key. -/
def colonAfter (key : Token) : Reader Token := token .colon s!"after '{key.value}'"

/-- A name, a colon and a value. Words in the shape of a cell are names too. -/
def entry (what : String) (value : Reader Token) : Reader (String × Token) :=
  (oneOf [.identifier, .cellRef] what).andThen fun name =>
    (colonAfter name).andThen fun _ => value.map (name.value, ·)

def colorEntry : Reader (String × Token) :=
  entry "color name" (oneOf [.hexColor, .string, .identifier] "color value")

def propertyValue : Reader Token :=
  oneOfOr [.string, .identifier, .cellRef, .number, .hexColor, .themeRef] fun stop ts =>
    .grammar (.badValue (front stop ts)) (front stop ts).location

def propertyEntry : Reader (String × Token) := entry "property name" propertyValue

/-- What follows the colon of a setting. -/
def settingValue (key : Token) : Setting → Reader Statement
  | .ratio => ((token .ratio "(e.g. 16:9)").check ratioTerms).map fun r => .ratio r.1 r.2
  | .grid => (token .grid "(e.g. 4x3)").check fun t =>
      (gridTerms t).map fun g => .grid g.1 g.2 t.location
  | .gap => (token .number "for gap").map fun t => .gap (decimal t)
  | .padding => (token .number "for padding").map fun t => .padding (decimal t)
  | .colors => (block .leftBrace .rightBrace "colors" colorEntry).map fun listed =>
      .colors (listed.1.map fun e => (e.1, e.2.value))
  | .theme => ((oneOf [.identifier, .string] "theme name").check themeName).map .theme
  | .weights axis =>
    ((block .leftBracket .rightBracket "weight list"
      ((token .number "in weight list").check weight)).check someWeights).map fun ws =>
        .weights axis ws key.location

/-- What follows the colon of a component. -/
def componentValue (key : Token) (range : Range) : Reader Statement :=
  (block .leftBrace .rightBrace "properties" propertyEntry).afterNewlines.map fun listed =>
    .component range listed.1 key.location

/-- What the first token of a statement announces: a setting, or a component on a range. -/
inductive Subject
  | setting (s : Setting)
  | component (range : Range)

def Subject.ofToken (t : Token) : Except Failure Subject :=
  if t.kind = .identifier then
    match Setting.ofKey? t.value with
    | some s => .ok (.setting s)
    | none => .error (.semantic (.unknownKey t.value) t.location)
  else (rangeOf t).map .component

def Subject.value (key : Token) : Subject → Reader Statement
  | setting s => settingValue key s
  | component range => componentValue key range

/-- One statement. -/
def reader : Reader Statement :=
  ((oneOf [.identifier, .cellRef, .cellRange] "metadata key or cell reference").check fun t =>
    (Subject.ofToken t).map (t, ·)).andThen fun (key, subject) =>
      (colonAfter key).andThen fun _ => subject.value key

end Wireframe.Statement
