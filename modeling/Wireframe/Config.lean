import Wireframe.Disk.Path
import Wireframe.Number.Numeral
import Wireframe.Text.Case

/-! Configuration: variables of the environment, each with its type and its default. A variable that
is unset, or that does not read as its type, has its default. -/

namespace Wireframe.Config

inductive Variable
  | logLevel
  | imageBaseDir
  | embedImages
  | outputSuffix
  | excerptIndent
  deriving DecidableEq, Repr

namespace Variable

def all : List Variable := [logLevel, imageBaseDir, embedImages, outputSuffix, excerptIndent]

def name : Variable → String
  | logLevel => "GRIDWIRE_LOG_LEVEL"
  | imageBaseDir => "GRIDWIRE_IMAGE_BASE_DIR"
  | embedImages => "GRIDWIRE_EMBED_IMAGES"
  | outputSuffix => "GRIDWIRE_OUTPUT_SUFFIX"
  | excerptIndent => "GRIDWIRE_EXCERPT_INDENT"

/-- The type of a variable. -/
abbrev Content : Variable → Type
  | logLevel => String
  | imageBaseDir => Option Path
  | embedImages => Bool
  | outputSuffix => String
  | excerptIndent => Int

def default : (v : Variable) → v.Content
  | logLevel => "INFO"
  | imageBaseDir => none
  | embedImages => true
  | outputSuffix => ".svg"
  | excerptIndent => (2 : Int)

/-- The words for yes and no. -/
def flags : List (String × Bool) :=
  [("true", true), ("1", true), ("yes", true), ("false", false), ("0", false), ("no", false)]

/-- What a word in any case, between blanks, says. -/
def flag? (raw : String) : Option Bool :=
  flags.lookup (String.ofList (Text.lower (Text.trim raw.toList)))

/-- What a text means for the variable, if anything. -/
def read? : (v : Variable) → String → Option v.Content
  | logLevel, raw => some raw
  | imageBaseDir, raw => some (some (Path.read raw))
  | embedImages, raw => flag? raw
  | outputSuffix, raw => some raw
  | excerptIndent, raw => Numeral.readInteger? raw.toList

/-- The content of the variable, given its text where it is set. -/
def get (v : Variable) (raw : Option String) : v.Content := (raw.bind v.read?).getD v.default

end Variable

/-- The content of some variable. -/
inductive Value
  | text (s : String)
  | whole (n : Int)
  | flag (b : Bool)
  | path (p : Path)
  | missing

def Value.ofContent : (v : Variable) → v.Content → Value
  | .logLevel, s => text s
  | .imageBaseDir, some p => path p
  | .imageBaseDir, none => missing
  | .embedImages, b => flag b
  | .outputSuffix, s => text s
  | .excerptIndent, n => whole n

/-- The value that is in force: the override where there is one, else that of the variable. -/
def value (v : Variable) (override : Option Value) (raw : Option String) : Value :=
  override.getD (.ofContent v (v.get raw))

/-- The variables that are set. -/
abbrev Environment := List (String × String)

def Environment.get (env : Environment) (v : Variable) : v.Content := v.get (env.lookup v.name)

/-- The directory that relative image sources start from: the override, else that of the environment,
else the directory of the source. -/
def imageBase (place : List String) (override : Option Path) (raw : Option String)
    (source : Option Path) : Except Path.NullByte (Option Path) :=
  match override, Variable.imageBaseDir.get raw, source with
  | some dir, _, _ => .ok (some dir)
  | none, some dir, _ => .ok (some dir)
  | none, none, some source => (source.resolve place).map fun p => some p.parent
  | none, none, none => .ok none

end Wireframe.Config
