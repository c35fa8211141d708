import Wireframe.Source.Report
import Wireframe.Token.Lexeme

/-! The tokens of a source text. The lexemes of the text, each with its position, make up the text;
spaces and comments among them stand for nothing, and an end of line counts once until another token
follows. -/

namespace Wireframe

/-- A token: its kind, its value (the slice of the source, or what a quoted text means), and where it
starts. -/
structure Token where
  kind : Token.Kind
  value : String
  location : Location
  deriving DecidableEq, Repr

/-- The token in a message. -/
def Token.describe (t : Token) : String :=
  if t.kind.isFixed then t.kind.label else t.kind.label ++ " '" ++ t.value ++ "'"

namespace Lexeme

/-- A lexeme at its position. -/
structure Placed where
  lexeme : Lexeme
  location : Location
  deriving DecidableEq, Repr

/-- The lexemes of a text that starts at `l`, up to the first fault. -/
def scan (l : Location) : List Char → Except (LexicalFault × Location) (List Placed)
  | [] => .ok []
  | c :: cs => match h : next c cs with
    | .error fault => .error (fault, l)
    | .ok (lexeme, left) =>
      have : left.length < (c :: cs).length := next_length_lt h
      (scan (l.advance lexeme.text) left).map (⟨lexeme, l⟩ :: ·)
  termination_by cs => cs.length
  decreasing_by assumption

/-- The tokens that the lexemes stand for; `fresh` says that no end of line has been counted since the
last token. -/
def tokens (fresh : Bool) : List Placed → List Token
  | [] => []
  | p :: ps => match p.lexeme.sense with
    | .space | .comment => tokens fresh ps
    | .newline => if fresh then ⟨.newline, "\n", p.location⟩ :: tokens false ps else tokens fresh ps
    | .token kind value => ⟨kind, String.ofList value, p.location⟩ :: tokens true ps

end Lexeme

/-- A source text as tokens. -/
structure Tokens where
  list : List Token
  /-- Where the text ends. -/
  stop : Location

namespace Tokens

/-- The tokens of a source text. -/
def read (source : String) : Except (LexicalFault × Location) Tokens := do
  let placed ← Lexeme.scan .start source.toList
  return ⟨Lexeme.tokens true placed, Location.start.advance source.toList⟩

/-- The token that stands for the end of the text. -/
def last (ts : Tokens) : Token := ⟨.endOfInput, "", ts.stop⟩

/-- All tokens, the end of the text included. -/
def all (ts : Tokens) : List Token := ts.list ++ [ts.last]

/-- The report of a lexical fault. -/
def report (fault : LexicalFault × Location) : Report := ⟨.lexical, fault.1.message, fault.2⟩

end Tokens
end Wireframe
