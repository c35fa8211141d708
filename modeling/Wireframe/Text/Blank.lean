import Wireframe.Text.Ranges

/-! Blank characters, and text without the blanks around it. -/

namespace Wireframe.Text

/-- White space and the separators of Unicode, the four information separators included. -/
def blanks : Ranges :=
  [(0x9, 0xD), (0x1C, 0x20), (0x85, 0x85), (0xA0, 0xA0), (0x1680, 0x1680), (0x2000, 0x200A),
   (0x2028, 0x2029), (0x202F, 0x202F), (0x205F, 0x205F), (0x3000, 0x3000)]

def isBlank (c : Char) : Bool := blanks.has c

/-- The text without its longest tail of characters that satisfy `p`. -/
def dropTail (p : Char → Bool) (cs : List Char) : List Char :=
  (cs.reverse.dropWhile p).reverse

/-- The text without what satisfies `p` at either end. -/
def trimBy (p : Char → Bool) (cs : List Char) : List Char :=
  dropTail p (cs.dropWhile p)

/-- The text without the blanks at either end. -/
def trim (cs : List Char) : List Char := trimBy isBlank cs

end Wireframe.Text
