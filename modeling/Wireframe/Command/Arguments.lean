import Wireframe.Command.Switch
import Wireframe.Text.Digit
import Wireframe.Text.Quoted

/-! Arguments of a command. Each argument is first taken by itself as an operand, a separator or an
option; then the options take their values, and the first operand is the file. Long names may be cut
short where that leaves one reading, and a short name takes what is written behind it. -/

namespace Wireframe.Command

/-- What is wrong with the arguments. -/
inductive Mistake
  | ambiguous (arg : String) (names : List String)
  /-- A value given to a switch that takes none. -/
  | ignored (s : Switch) (value : String)
  | noValue (s : Switch)
  | noFile
  | unrecognized (args : List String)
  deriving DecidableEq, Repr

def Mistake.message : Mistake → String
  | ambiguous arg names =>
    "ambiguous option: " ++ arg ++ " could match " ++ ", ".intercalate names
  | ignored s value =>
    "argument " ++ s.label ++ ": ignored explicit argument " ++ Text.quoted value
  | noValue s => "argument " ++ s.label ++ ": expected one argument"
  | noFile => "the following arguments are required: file"
  | unrecognized args => "unrecognized arguments: " ++ " ".intercalate args

/-- Why a command does not start: it was asked for its help, or there is a mistake. -/
inductive Halt
  | help
  | mistake (m : Mistake)
  deriving DecidableEq, Repr

/-- What an argument is by itself. -/
inductive Word
  | operand
  | separator
  /-- A switch under one of its names, short or long, with the value that is written in the same
  argument. -/
  | option (s : Switch) (short : Bool) (value : Option (List Char))
  | unknown
  deriving DecidableEq, Repr

/-- The text before the first equals sign, and what is behind it if there is one. -/
def cutAtEquals (cs : List Char) : List Char × Option (List Char) :=
  match cs.dropWhile (· ≠ '=') with
  | [] => (cs, none)
  | _ :: rest => (cs.takeWhile (· ≠ '='), some rest)

/-- A minus and a number. A line end at the end does not count. -/
def isNegative : List Char → Bool
  | '-' :: cs =>
    let body := if cs.getLast? = some '\n' then cs.dropLast else cs
    let whole := body.takeWhile Text.isDecimal
    match body.dropWhile Text.isDecimal with
    | [] => whole ≠ []
    | '.' :: fraction => fraction ≠ [] && fraction.all Text.isDecimal
    | _ => false
  | _ => false

def isShort (name : List Char) : Bool := (name.drop 1).head? ≠ some '-'

/-- The readings of an argument as the start of a long name, or as a short name with its value. -/
def readings (f : Form) (cs : List Char) : List (String × Switch × Option (List Char)) :=
  match cs with
  | '-' :: '-' :: _ =>
    let (start, value) := cutAtEquals cs
    (f.named.filter fun e => start.isPrefixOf e.1.toList).map fun e => (e.1, e.2, value)
  | _ => f.named.filterMap fun e =>
    if e.1.toList = cs.take 2 then some (e.1, e.2, some (cs.drop 2)) else none

/-- An argument that starts with a minus and is no whole name. -/
def Word.ofReadings (f : Form) (arg : String) : Except Halt Word :=
  match readings f arg.toList with
  | [(name, s, value)] => .ok (option s (isShort name.toList) value)
  | [] => .ok (if isNegative arg.toList || arg.toList.contains ' ' then operand else unknown)
  | several => .error (.mistake (.ambiguous arg (several.map (·.1))))

def Word.ofArg (f : Form) (arg : String) : Except Halt Word :=
  if arg.toList.head? ≠ some '-' then .ok operand
  else match f.named.lookup arg with
    | some s => .ok (option s (isShort arg.toList) none)
    | none =>
      if arg = "-" then .ok operand
      else match cutAtEquals arg.toList with
        | (name, some value) => match f.named.lookup (String.ofList name) with
          | some s => .ok (option s (isShort name) (some value))
          | none => ofReadings f arg
        | (_, none) => ofReadings f arg

/-- The arguments as words; behind two minuses all are operands. -/
def words (f : Form) : List String → Except Halt (List (String × Word))
  | [] => .ok []
  | arg :: args =>
    if arg = "--" then .ok ((arg, .separator) :: args.map (·, .operand))
    else do
      let w ← Word.ofArg f arg
      return (arg, w) :: (← words f args)

/-- How a bundle of switches in one argument ends: with a switch and its value, or with a switch that
has no value in the argument. -/
inductive BundleEnd
  | value (s : Switch) (text : String)
  | bare (s : Switch)

/-- The switches of a bundle before its last one, and how it ends, where `text` follows the switch `s`.
A short switch that takes no value is followed by further short ones. -/
def unbundle (f : Form) (s : Switch) (short : Bool) (text : List Char) :
    Except Halt (List Switch × BundleEnd) :=
  if s.takesValue then .ok ([], .value s (String.ofList text))
  else
    let ignored := .error (.mistake (.ignored s (String.ofList text)))
    match text with
    | [] => ignored
    | c :: cs =>
      if short then match f.named.lookup (String.ofList ['-', c]), cs with
        | none, _ => ignored
        | some next, [] => .ok ([s], .bare next)
        | some next, d :: rest => (unbundle f next true (d :: rest)).map fun (ss, last) => (s :: ss, last)
      else ignored

/-- The arguments of a command. A switch that takes a value has none where two minuses stand for it. -/
structure Arguments where
  file : Option String := none
  output : Option (Option String) := none
  baseDir : Option (Option String) := none
  noImages : Bool := false
  /-- Arguments that nothing takes. -/
  extras : List String := []
  deriving DecidableEq, Repr

namespace Arguments

/-- The value that a text gives to a switch. -/
def valueOf (text : String) : Option String := if text = "--" then none else some text

/-- The arguments with a switch that takes a value. -/
def withValue (a : Arguments) (s : Switch) (text : String) : Arguments :=
  match s with
  | .output => { a with output := some (valueOf text) }
  | .baseDir => { a with baseDir := some (valueOf text) }
  | .help | .noImages => a

/-- The arguments with a switch that takes none. -/
def withSwitch (a : Arguments) : Switch → Except Halt Arguments
  | .help => .error .help
  | .noImages => .ok { a with noImages := true }
  | .output | .baseDir => .ok a

def withSwitches (a : Arguments) (ss : List Switch) : Except Halt Arguments :=
  ss.foldlM withSwitch a

def withExtra (a : Arguments) (arg : String) : Arguments := { a with extras := a.extras ++ [arg] }

/-- The switches in one argument, and how they end. -/
def bundle (f : Form) (s : Switch) (short : Bool) (value : Option (List Char)) :
    Except Halt (List Switch × BundleEnd) :=
  match value with
  | none => .ok ([], .bare s)
  | some text => unbundle f s short text

/-- The arguments after words that are taken one by one. -/
def take (f : Form) (a : Arguments) : List (String × Word) → Except Halt Arguments
  | [] => .ok a
  | (arg, .operand) :: rest => match a.file, rest with
    | some _, rest => take f (a.withExtra arg) rest
    | none, (_, .separator) :: rest => take f { a with file := some arg } rest
    | none, rest => take f { a with file := some arg } rest
  | (arg, .separator) :: rest => match a.file, rest with
    | none, (next, .operand) :: rest => take f { a with file := some next } rest
    | _, rest => take f (a.withExtra arg) rest
  | (arg, .unknown) :: rest => take f (a.withExtra arg) rest
  | (_, .option s short value) :: rest => do
    let (ss, last) ← bundle f s short value
    match last with
    | .value s text => take f ((← a.withSwitches ss).withValue s text) rest
    | .bare s =>
      if s.takesValue then match rest with
        | (next, .operand) :: rest => take f ((← a.withSwitches ss).withValue s next) rest
        | _ => throw (.mistake (.noValue s))
      else take f (← (← a.withSwitches ss).withSwitch s) rest

/-- The file of the arguments; without one, or with arguments that nothing takes, there is none. -/
def fileOf (a : Arguments) : Except Halt String :=
  match a.file with
  | none => .error (.mistake .noFile)
  | some file => if a.extras = [] then .ok file else .error (.mistake (.unrecognized a.extras))

/-- The arguments of a command with its file. -/
def read (f : Form) (args : List String) : Except Halt (Arguments × String) := do
  let a ← take f {} (← words f args)
  return (a, ← a.fileOf)

end Arguments
end Wireframe.Command
