/-! Switches of the command line, and the forms of the commands: which switches a command takes, and
how its usage and its help read. -/

namespace Wireframe.Command

inductive Switch
  | help
  | output
  | baseDir
  | noImages
  deriving DecidableEq, Repr

namespace Switch

def names : Switch → List String
  | help => ["-h", "--help"]
  | output => ["-o", "--output"]
  | baseDir => ["--base-dir"]
  | noImages => ["--no-images"]

def takesValue : Switch → Bool
  | help | noImages => false
  | output | baseDir => true

/-- The switch in a message. -/
def label (s : Switch) : String := "/".intercalate s.names

end Switch

/-- What a command takes besides the name of a file, and what it says about itself. -/
structure Form where
  program : String
  switches : List Switch
  /-- The usage, over one line or more. -/
  usage : String
  /-- The help below the usage. -/
  help : String

namespace Form

/-- The names of the switches with the switches that they stand for. -/
def named (f : Form) : List (String × Switch) :=
  f.switches.flatMap fun s => s.names.map (·, s)

/-- What is written about a mistake. -/
def mistake (f : Form) (message : String) : String :=
  f.usage ++ f.program ++ ": error: " ++ message ++ "\n"

/-- The whole help. -/
def fullHelp (f : Form) : String := f.usage ++ "\n" ++ f.help

/-- A form with a file alone. -/
def plain (name description : String) : Form where
  program := "python . " ++ name
  switches := [.help]
  usage := "usage: python . " ++ name ++ " [-h] file\n"
  help := description ++ "\n\n" ++
    "positional arguments:\n" ++
    "  file        Source file\n" ++
    "\n" ++
    "options:\n" ++
    "  -h, --help  show this help message and exit\n"

def check : Form := plain "check" "Parse and validate a gridwire source file"

def tokens : Form := plain "tokens" "Dump the token stream of a gridwire source file"

def compile : Form where
  program := "python . compile"
  switches := [.help, .output, .baseDir, .noImages]
  usage :=
    "usage: python . compile [-h] [-o OUTPUT] [--base-dir BASE_DIR] [--no-images]\n" ++
    "                        file\n"
  help :=
    "Compile a gridwire source file to SVG\n\n" ++
    "positional arguments:\n" ++
    "  file                  Source file\n" ++
    "\n" ++
    "options:\n" ++
    "  -h, --help            show this help message and exit\n" ++
    "  -o OUTPUT, --output OUTPUT\n" ++
    "                        Output path ('-' for stdout, default: source path with\n" ++
    "                        .svg suffix)\n" ++
    "  --base-dir BASE_DIR   Directory for relative img sources (default: source\n" ++
    "                        directory)\n" ++
    "  --no-images           Draw placeholders instead of embedding img sources\n"

end Form
end Wireframe.Command
