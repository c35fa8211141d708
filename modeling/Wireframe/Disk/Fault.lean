import Wireframe.Disk.Path

/-! Why a file cannot be read or written. -/

namespace Wireframe.Disk

/-- A cause that the system names by a number and a text. -/
structure Cause where
  code : Nat
  text : String
  deriving DecidableEq, Repr

namespace Cause

def noEntry : Cause := ⟨2, "No such file or directory"⟩

def notDirectory : Cause := ⟨20, "Not a directory"⟩

def isDirectory : Cause := ⟨21, "Is a directory"⟩

def nameTooLong : Cause := ⟨36, "File name too long"⟩

end Cause

inductive Fault
  | system (cause : Cause) (path : Path)
  | nullByte (e : Path.NullByte)
  deriving DecidableEq, Repr

def Fault.message : Fault → String
  | system cause path => s!"[Errno {cause.code}] {cause.text}: " ++ Text.quoted path.text
  | nullByte e => e.message

end Wireframe.Disk
