import Wireframe.Number.Capacity
import Wireframe.Source.Location
import Wireframe.Text.Split
import Wireframe.Text.Blank

/-! Reports of problems at a position of a source text: one line, or that line above an excerpt with a
caret under the position. -/

namespace Wireframe

/-- The stages that find problems, and problems of no stage. -/
inductive Stage
  | general
  | lexical
  | grammatical
  | semantic
  deriving DecidableEq, Repr

/-- The word for a stage in a report. -/
def Stage.word : Stage → String
  | general => "error"
  | lexical => "lexical"
  | grammatical => "syntax"
  | semantic => "semantic"

structure Report where
  stage : Stage
  message : String
  location : Location
  deriving DecidableEq, Repr

namespace Report

/-- The report in one line. -/
def text (r : Report) : String := r.message ++ " at " ++ r.location.text

/-- The line of the source that the report is about, without carriage returns at its end; empty when
the source has no such line. -/
def line (r : Report) (source : String) : List Char :=
  if r.location.line < 1 then []
  else ((Text.splitAt '\n' source.toList)[(r.location.line - 1).toNat]?.map
    (Text.dropTail (· = '\r'))).getD []

/-- What stands before the caret: tabs stay, so that the caret keeps its place under the line. -/
def lead (r : Report) (line : List Char) : List Char :=
  (line.take (r.location.column - 1).toNat).map fun c => if c = '\t' then '\t' else ' '

/-- The report in one line, the line of the source with its number, and the caret. -/
def excerpt (r : Report) (source : String) (indent : Int) : String :=
  let line := r.line source
  let gutter := toString r.location.line
  let margin := Text.spaces indent.toNat
  r.text ++ "\n" ++ margin ++ gutter ++ " | " ++ String.ofList line ++ "\n" ++
    margin ++ Text.spaces gutter.length ++ " | " ++ String.ofList (r.lead line) ++ "^"

/-- The indent of an excerpt where none is asked for. -/
def defaultIndent : Int := 2

/-- The report with its excerpt where the source is known, and in one line where it is not. There is `room`
for an excerpt with as many blanks in front of it. -/
def format (r : Report) (source : Option String) (indent room : Int) : Except CapacityFault String :=
  match source with
  | none => .ok r.text
  | some source => match CapacityFault.of? room indent with
    | some fault => .error fault
    | none => .ok (r.excerpt source indent)

end Report
end Wireframe
