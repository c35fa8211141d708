import Wireframe.Disk.Fault
import Wireframe.Drawing
import Wireframe.Statement.Failure
import Wireframe.Text.Utf8

/-! What a command leaves behind: how it ended, and what it wrote to its two outputs. -/

namespace Wireframe.Command

/-- What ends a command without a status of its own. -/
inductive Fatal
  | undecodable (e : Text.Utf8Error)
  | nullByte (e : Path.NullByte)
  | numeral (e : Numeral.TooLong)
  | invalid (errors : List FieldError)
  | drawing (e : DrawingError)
  | suffix (e : Path.BadSuffix)
  | indent (e : CapacityFault)
  /-- A directory was asked for, and nothing was given for it. -/
  | noDirectory

/-- What is wrong at an end without a status. -/
def Fatal.message : Fatal → String
  | undecodable e => e.message
  | nullByte e => e.message
  | numeral e => e.message
  | invalid errors => "\n".intercalate (errors.map (·.problem.message))
  | drawing (.layout fault) => fault.message
  | drawing (.theme unknown) => unknown.message
  | drawing (.untold _) => ""
  | suffix e => e.message
  | indent e => e.message
  | noDirectory => "expected str, bytes or os.PathLike object, not list"

/-- A part of what goes to the error output: text, or a record of the log. -/
inductive Entry
  | text (s : String)
  | record (r : Record)

/-- The entry, with `stamp` for the time of a record. -/
def Entry.render (stamp : String) : Entry → String
  | text s => s
  | record r => r.line stamp

structure Outcome where
  exit : Except Fatal Nat
  out : String := ""
  err : List Entry := []

/-- The error output. -/
def Outcome.errors (o : Outcome) (stamp : String) : String :=
  String.join (o.err.map (·.render stamp))

/-- The outcome after earlier entries. -/
def Outcome.after (o : Outcome) (earlier : List Entry) : Outcome := { o with err := earlier ++ o.err }

/-- An outcome that prints and succeeds. -/
def Outcome.printed (out : String) : Outcome := { exit := .ok 0, out := out }

/-- An outcome with an entry and a status. -/
def Outcome.reported (status : Nat) (err : List Entry) : Outcome := { exit := .ok status, err := err }

def Outcome.fatal (e : Fatal) : Outcome := { exit := .error e }

end Wireframe.Command
