/-! Positions in a source text. -/

namespace Wireframe

/-- A position by its line and column, both from one, and the number of characters before it. -/
structure Location where
  line : Int
  column : Int
  offset : Int
  deriving DecidableEq, Repr

namespace Location

/-- Where a text starts. -/
def start : Location := ⟨1, 1, 0⟩

/-- The position after one character. -/
def step (l : Location) (c : Char) : Location :=
  if c = '\n' then ⟨l.line + 1, 1, l.offset + 1⟩ else ⟨l.line, l.column + 1, l.offset + 1⟩

/-- The position after some characters. -/
def advance (l : Location) (cs : List Char) : Location := cs.foldl step l

@[simp] theorem advance_nil (l : Location) : l.advance [] = l := rfl

@[simp] theorem advance_cons (l : Location) (c : Char) (cs : List Char) :
    l.advance (c :: cs) = (l.step c).advance cs := rfl

theorem advance_append (l : Location) (cs ds : List Char) :
    l.advance (cs ++ ds) = (l.advance cs).advance ds := List.foldl_append ..

theorem offset_advance (l : Location) (cs : List Char) :
    (l.advance cs).offset = l.offset + cs.length := by
  induction cs generalizing l with
  | nil => simp
  | cons c cs ih =>
    rw [advance_cons, ih, List.length_cons]
    simp only [step]
    split <;> simp only <;> omega

/-- The position as messages show it. -/
def text (l : Location) : String := s!"{l.line}:{l.column}"

end Location
end Wireframe
