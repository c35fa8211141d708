import Wireframe.Number.Scalar
import Wireframe.Text.Ranges

/-! The widths of characters, as estimates: a wide character is as wide as the text is high, and the
others are narrower. -/

namespace Wireframe.Typeset

variable {α : Type} [OrderedScalar α]

/-- The scripts of East Asia that are set at full width. -/
def wideRanges : Text.Ranges :=
  [(0x1100, 0x115F), (0x2E80, 0x303E), (0x3041, 0x33FF), (0x3400, 0x4DBF), (0x4E00, 0x9FFF),
   (0xA000, 0xA4CF), (0xAC00, 0xD7A3), (0xF900, 0xFAFF), (0xFE30, 0xFE4F), (0xFF00, 0xFF60),
   (0xFFE0, 0xFFE6), (0x20000, 0x3FFFD)]

def isWide (c : Char) : Bool := wideRanges.has c

/-- The width of a character as a part of the size of its text. -/
def widthRatio (c : Char) : α :=
  if isWide c then Scalar.ofInt 1
  else if c.toNat < 0x80 then OrderedScalar.ofDecimal 55 2
  else OrderedScalar.ofDecimal 7 1

def charWidth (size : α) (c : Char) : α := size * widthRatio c

def textWidth (size : α) (cs : List Char) : α := Scalar.sum (cs.map (charWidth size))

end Wireframe.Typeset
