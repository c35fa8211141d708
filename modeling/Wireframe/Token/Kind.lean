/-! The kinds of tokens. -/

namespace Wireframe

namespace Token

inductive Kind
  | identifier
  | string
  | number
  | colon
  | comma
  | leftBrace
  | rightBrace
  | leftBracket
  | rightBracket
  | cellRef
  | cellRange
  | ratio
  | grid
  | hexColor
  | themeRef
  | newline
  | endOfInput
  deriving DecidableEq, Repr

namespace Kind

/-- The kind in a message. -/
def label : Kind → String
  | identifier => "identifier"
  | string => "string"
  | number => "number"
  | colon => "':'"
  | comma => "','"
  | leftBrace => "'\x7b'"
  | rightBrace => "'\x7d'"
  | leftBracket => "'['"
  | rightBracket => "']'"
  | cellRef => "cell reference"
  | cellRange => "cell range"
  | ratio => "ratio"
  | grid => "grid size"
  | hexColor => "hex color"
  | themeRef => "theme color reference"
  | newline => "newline"
  | endOfInput => "end of input"

/-- The kind in a token listing. -/
def tag : Kind → String
  | identifier => "IDENTIFIER"
  | string => "STRING"
  | number => "NUMBER"
  | colon => "COLON"
  | comma => "COMMA"
  | leftBrace => "LBRACE"
  | rightBrace => "RBRACE"
  | leftBracket => "LBRACKET"
  | rightBracket => "RBRACKET"
  | cellRef => "CELL_REF"
  | cellRange => "CELL_RANGE"
  | ratio => "RATIO"
  | grid => "GRID"
  | hexColor => "HEX_COLOR"
  | themeRef => "THEME_REF"
  | newline => "NEWLINE"
  | endOfInput => "EOF"

/-- Kinds whose label is their only text. -/
def isFixed : Kind → Bool
  | colon | comma | leftBrace | rightBrace | leftBracket | rightBracket | newline | endOfInput => true
  | _ => false

end Kind
end Token
end Wireframe
