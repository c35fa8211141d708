import Std.Time
import Wireframe.Command.Basic

/-! The program: its arguments, the variables that are set and the files on the disk, handed to the
command line. -/

namespace Wireframe

/-- The cause that an error of the system stands for. -/
def causeOf : IO.Error → Disk.Cause
  | .noFileOrDirectory .. => .noEntry
  | .permissionDenied _ code text => ⟨code.toNat, text⟩
  | .inappropriateType _ code text => ⟨code.toNat, text⟩
  | .invalidArgument _ code text => ⟨code.toNat, text⟩
  | .resourceExhausted _ code text => ⟨code.toNat, text⟩
  | .otherError code text => ⟨code.toNat, text⟩
  | e => ⟨5, toString e⟩

/-- An operation on the file of a path. -/
def onDisk {α : Type} (path : Path) (operation : IO α) : IO (Except Disk.Fault α) := do
  if path.hasNull then return .error (.nullByte {})
  try
    return .ok (← operation)
  catch e => return .error (.system (causeOf e) path)

/-- The files of the system. -/
def files : Action.Handler IO where
  read path := onDisk path do return (← IO.FS.readBinFile path.text).toList
  write path bytes := onDisk path (IO.FS.writeBinFile path.text bytes.toByteArray)

/-- The variables that are set. -/
def environment : IO Config.Environment :=
  Config.Variable.all.filterMapM fun v => do return (← IO.getEnv v.name).map (v.name, ·)

/-- How many blanks a line can have in front of it. -/
def room : Int := 0x100000000

/-- The time for a record of the log. -/
def stamp : IO String := do
  return (← Std.Time.PlainDateTime.now).format "uuuu-MM-dd HH:mm:ss,SSS"

end Wireframe

open Wireframe in
def main (args : List String) : IO UInt32 := do
  let place := Path.namesOf (← IO.currentDir).toString.toList
  let outcome ← (Command.run (← environment) place room args).perform files
  IO.print outcome.out
  IO.eprint (outcome.errors (← stamp))
  match outcome.exit with
  | .ok status => return status.toUInt32
  | .error fatal =>
    IO.eprintln fatal.message
    return 1
