import Wireframe.Command.Arguments
import Wireframe.Command.Outcome
import Wireframe.Config
import Wireframe.Document.Draft
import Wireframe.Image

/-! The commands. Each reads one file; `compile` writes another one, or prints. A file that cannot be
read or written and a source that is no document are reported, with status one. The arguments and the variables
are texts of characters, and both outputs take any text; how far in an excerpt can stand is up to the machine
(`Setting.room`). -/

namespace Wireframe.Command

/-- What a command finds when it starts: the variables, where it is, the machine, and the log. -/
structure Setting where
  env : Config.Environment
  /-- The working directory. -/
  place : List String
  /-- How many blanks there is room for in front of a line. -/
  room : Int
  log : Log := .fresh

namespace Setting

/-- The entries of the records that the log writes. -/
def records (s : Setting) (rs : List Record) : List Entry := (rs.filter s.log.writes).map .record

def notes (s : Setting) (ns : List Note) : List Entry := s.records (ns.map Note.record)

/-- The entry of a record of the command line itself. -/
def say (s : Setting) (level : Level) (message : String) : List Entry :=
  s.records [⟨level, "cli", message⟩]

end Setting

/-- The outcome of a report. -/
def reported (s : Setting) (source : String) (r : Report) : Outcome :=
  match r.format (some source) (s.env.get .excerptIndent) s.room with
  | .error e => .fatal (.indent e)
  | .ok excerpt => .reported 1 [.text (r.stage.word ++ " error: " ++ excerpt ++ "\n")]

/-- The outcome of a source that is no document. -/
def failed (s : Setting) (source : String) (f : Failure) : Outcome :=
  match f with
  | .lexical fault location => reported s source ⟨.lexical, fault.message, location⟩
  | .grammar fault location => reported s source ⟨.grammatical, fault.message, location⟩
  | .semantic fault location => reported s source ⟨.semantic, fault.message, location⟩
  | .numeral e => .fatal (.numeral e)
  | .invalid errors => .fatal (.invalid errors)

/-- The outcome of a disk fault, of which the message starts with `what`. -/
def faulted (s : Setting) (what : String) (fault : Disk.Fault) : Outcome :=
  match fault with
  | .system .. => .reported 1 (s.say .error (what ++ ": " ++ fault.message))
  | .nullByte e => .fatal (.nullByte e)

/-- Goes on with the text of a file, in which all line ends are line feeds. -/
def withSource (s : Setting) (path : Path) (next : String → Action Outcome) : Action Outcome :=
  .read path fun
    | .error fault => .done (faulted s ("Cannot read " ++ path.text) fault)
    | .ok bytes => match Text.decodeUtf8 bytes with
      | .error e => .done (.fatal (.undecodable e))
      | .ok cs => next (String.ofList (Text.unifyNewlines cs))

/-- The outcome of a document, of which the notes come before the rest. -/
def withDocument (s : Setting) (source : String) (next : Document → Action Outcome) :
    Action Outcome :=
  let parsed := Document.read source
  let rest : Action Outcome := match parsed.value with
    | .error f => .done (failed s source f)
    | .ok d => next d
  rest.andThen fun o => .done (o.after (s.notes parsed.notes))

/-- The sources of the images of a document, each once. -/
def imageSources (d : Document) : List String := (d.components.filterMap Component.source?).eraseDups

/-- Images under their sources. -/
abbrev Images := List (String × Noted (Except (Option String) String))

/-- Finds the images of sources. -/
def fetchAll (s : Setting) (base : Path) : List String → Action Images
  | [] => .done []
  | src :: rest =>
    (Image.fetch s.place (some base) src).andThen fun image =>
      (fetchAll s base rest).andThen fun images =>
        .done ((src, Image.told image) :: images)

/-- The loader that knows the images. -/
def Images.loader (images : Images) : ImageLoader := fun src =>
  (images.lookup src).getD (pure (.error (some "")))

/-- Goes on with a loader for the document, where there is a directory to start from. -/
def withLoader (s : Setting) (base : Option Path) (d : Document)
    (next : Option ImageLoader → Action Outcome) : Action Outcome :=
  match base with
  | none => next none
  | some base => (fetchAll s base (imageSources d)).andThen fun images => next (some images.loader)

/-- The directory of images: none when images are not to be embedded. -/
def imageBase (s : Setting) (a : Arguments) (file : Path) : Except Fatal (Option Path) :=
  if s.env.get .embedImages && !a.noImages then
    match a.baseDir with
    | some none => .error .noDirectory
    | dir => (Config.imageBase s.place (dir.join.map Path.read)
        (s.env.lookup Config.Variable.imageBaseDir.name) (some file)).mapError .nullByte
  else .ok none

/-- The path that a drawing is written to. -/
def target (s : Setting) (a : Arguments) (file : Path) : Except Path.BadSuffix Path :=
  match Drawing.given a.output.join with
  | some output => .ok (Path.read output)
  | none => file.withSuffix (s.env.get .outputSuffix)

/-- Prints a drawing or writes it. -/
def deliver (s : Setting) (a : Arguments) (file : Path) (d : Document) (drawing : String) :
    Action Outcome :=
  if a.output = some (some "-") then .done (.printed drawing)
  else match target s a file with
    | .error e => .done (.fatal (.suffix e))
    | .ok path => .write path (Text.encodeUtf8 drawing) fun
      | .error fault => .done (faulted s ("Cannot write " ++ path.text) fault)
      | .ok () => .done (.reported 0 (s.say .info
          s!"Wrote {path.text} ({d.components.length} components)"))

/-- Draws a document and delivers the drawing, after the notes of drawing it. -/
def drawn (s : Setting) (a : Arguments) (file : Path) (d : Document)
    (loader : Option ImageLoader) : Action Outcome :=
  let drawing := d.draw loader
  let rest : Action Outcome := match drawing.value with
    | .error e => .done (.fatal (.drawing e))
    | .ok text => deliver s a file d text
  rest.andThen fun o => .done (o.after (s.notes drawing.notes))

def compile (s : Setting) (a : Arguments) (file : Path) : Action Outcome :=
  withSource s file fun source => withDocument s source fun d =>
    match imageBase s a file with
    | .error e => .done (.fatal e)
    | .ok base => withLoader s base d (drawn s a file d)

/-- The line about a document that is right. -/
def approval (file : Path) (d : Document) : String :=
  let s := d.settings
  s!"{file.text}: OK ({d.components.length} components, {s.grid.1}x{s.grid.2} grid, " ++
    s!"{s.ratio.1}:{s.ratio.2})\n"

def check (s : Setting) (file : Path) : Action Outcome :=
  withSource s file fun source => withDocument s source fun d => .done (.printed (approval file d))

/-- A token in a listing; ends of line and of the text have no value there. -/
def listed (t : Token) : String :=
  let value := if t.kind = .newline ∨ t.kind = .endOfInput then "" else t.value
  Text.padLeft 7 t.location.text ++ "  " ++ Text.padRight 11 t.kind.tag ++ " " ++ value ++ "\n"

def tokens (s : Setting) (file : Path) : Action Outcome :=
  withSource s file fun source => .done (match Tokens.read source with
    | .error fault => reported s source (Tokens.report fault)
    | .ok ts => .printed (String.join (ts.all.map listed)))

/-- A theme in the table of themes. -/
def themeRow (name : String) (t : Theme) : String :=
  Text.padRight 10 name ++ " " ++ Text.padLeft 6 (toString t.strokeWidth) ++ " " ++
    Text.padLeft 6 (toString t.borderRadius) ++ " " ++ Text.padLeft 5 (toString t.fontSize) ++
    "  " ++ t.defaultFill ++ (if name = Theme.defaultName then " (default)" else "") ++ "\n"

def themes : String :=
  "Theme      Stroke Radius  Font  Background\n" ++
    String.join (Theme.all.map fun e => themeRow e.1 e.2)

/-- The overview of all commands. -/
def overview : String :=
  "Usage: python . \x7bcommand\x7d [args]\n" ++
  "\n=== Compilation ===\n" ++
  "  compile    Compile a source file to SVG\n" ++
  "  check      Parse and validate a source file\n" ++
  "  tokens     Dump the token stream of a source file\n" ++
  "  themes     List theme presets\n" ++
  "\n=== Development ===\n" ++
  "  test       Run pytest with tier options\n" ++
  "\nExamples:\n" ++
  "  python . compile wireframe.gw              # Writes wireframe.svg\n" ++
  "  python . compile wireframe.gw -o -         # SVG to stdout\n" ++
  "  python . compile page.gw --base-dir assets # Resolve images in assets/\n" ++
  "  python . check wireframe.gw\n" ++
  "  python . test --unit\n"

/-- Goes on with the arguments of a form and the path of the file. -/
def withArguments (f : Form) (args : List String) (next : Arguments → Path → Action Outcome) :
    Action Outcome :=
  match Arguments.read f args with
  | .ok (a, file) => next a (Path.read file)
  | .error .help => .done (.printed f.fullHelp)
  | .error (.mistake m) => .done (.reported 2 [.text (f.mistake m.message)])

/-- The command of a name with its arguments. -/
def named? (s : Setting) (args : List String) : String → Option (Action Outcome)
  | "compile" => some (withArguments .compile args (compile s))
  | "check" => some (withArguments .check args fun _ => check s)
  | "tokens" => some (withArguments .tokens args fun _ => tokens s)
  | "themes" => some (.done (.printed themes))
  | _ => none

/-- The command line as a whole. The log is set up for a command that is known. -/
def run (env : Config.Environment) (place : List String) (room : Int) : List String → Action Outcome
  | [] => .done { exit := .ok 1, out := overview }
  | name :: args =>
    if name = "-h" ∨ name = "--help" then .done (.printed overview)
    else
      let log := Log.fresh.configure (Level.ofName (env.get .logLevel))
      (named? ⟨env, place, room, log⟩ args name).getD
        (.done { exit := .ok 1, out := overview, err := [.text s!"Unknown command: {name}\n"] })

end Wireframe.Command
