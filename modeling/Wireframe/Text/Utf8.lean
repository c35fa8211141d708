import Wireframe.Text.Quoted

/-! Text in UTF-8. Decoding stops at the first fault and says which bytes are at fault: a byte that
starts nothing, a character cut off by the end, or the bytes of a character up to the first one that
does not continue it. -/

namespace Wireframe.Text

/-- What is wrong with a sequence of bytes. -/
inductive Utf8Fault
  | badStart
  | badContinuation
  | cutOff
  deriving DecidableEq, Repr

/-- A fault with the `length` bytes at fault, from `position` on, the first of them being `byte`. -/
structure Utf8Error where
  fault : Utf8Fault
  byte : UInt8
  position : Nat
  length : Nat
  deriving DecidableEq, Repr

def Utf8Fault.reason : Utf8Fault → String
  | badStart => "invalid start byte"
  | badContinuation => "invalid continuation byte"
  | cutOff => "unexpected end of data"

def Utf8Error.message (e : Utf8Error) : String :=
  let where_ :=
    if e.length = 1 then
      s!"byte 0x{String.ofList (hexDigits 2 e.byte.toNat)} in position {e.position}"
    else s!"bytes in position {e.position}-{e.position + e.length - 1}"
  "'utf-8' codec can't decode " ++ where_ ++ ": " ++ e.fault.reason

/-- How many bytes follow a first byte, and the range of the first that follows. -/
def continuation? (b : UInt8) : Option (Nat × UInt8 × UInt8) :=
  if b < 0xC2 then none
  else if b < 0xE0 then some (1, 0x80, 0xBF)
  else if b < 0xF0 then
    some (2, if b = 0xE0 then 0xA0 else 0x80, if b = 0xED then 0x9F else 0xBF)
  else if b < 0xF5 then
    some (3, if b = 0xF0 then 0x90 else 0x80, if b = 0xF4 then 0x8F else 0xBF)
  else none

/-- The length of the longest start of `bytes` that continues a character of `more` further bytes. -/
def continued (more : Nat) (low high : UInt8) (bytes : List UInt8) : Nat :=
  match more, bytes with
  | 0, _ => 0
  | _, [] => 0
  | more + 1, b :: rest =>
    if low ≤ b && b ≤ high then continued more 0x80 0xBF rest + 1 else 0

/-- The code point of a first byte with `more` bytes after it. -/
def assemble (more : Nat) (first : UInt8) (rest : List UInt8) : Nat :=
  rest.foldl (fun n b => n * 64 + b.toNat % 64) (first.toNat % Nat.pow 2 (6 - more))

/-- The characters of `bytes`, whose first byte stands at `position`. -/
def decodeUtf8From (position : Nat) (bytes : List UInt8) : Except Utf8Error (List Char) :=
  match bytes with
  | [] => .ok []
  | b :: rest =>
    if b < 0x80 then do
      let cs ← decodeUtf8From (position + 1) rest
      return Char.ofNat b.toNat :: cs
    else match continuation? b with
      | none => .error ⟨.badStart, b, position, 1⟩
      | some (more, low, high) =>
        let n := continued more low high rest
        if n = more then do
          let cs ← decodeUtf8From (position + 1 + more) (rest.drop more)
          return Char.ofNat (assemble more b (rest.take more)) :: cs
        else if n = rest.length then .error ⟨.cutOff, b, position, n + 1⟩
        else .error ⟨.badContinuation, b, position, n + 1⟩
  termination_by bytes.length
  decreasing_by all_goals (simp only [List.length_drop, List.length_cons]; omega)

/-- The text that the bytes encode. -/
def decodeUtf8 (bytes : List UInt8) : Except Utf8Error (List Char) := decodeUtf8From 0 bytes

/-- The bytes of a text. -/
def encodeUtf8 (s : String) : List UInt8 := s.toUTF8.toList

/-- Line ends of all three kinds as line feeds. -/
def unifyNewlines : List Char → List Char
  | [] => []
  | '\r' :: '\n' :: cs => '\n' :: unifyNewlines cs
  | '\r' :: cs => '\n' :: unifyNewlines cs
  | c :: cs => c :: unifyNewlines cs

end Wireframe.Text
