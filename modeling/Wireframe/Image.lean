import Wireframe.Disk.Action
import Wireframe.Log.Note
import Wireframe.Text.Base64
import Wireframe.Text.Case

/-! Image files. A relative source is resolved below a base directory and may not leave it; an absolute
source is taken as it is. The image is embedded with its type and its content. -/

namespace Wireframe.Image

/-- Why an image cannot be had. -/
inductive Fault
  /-- A relative source without a directory to start from. -/
  | noBase (src : String)
  | unresolvable (src : String) (e : Path.NullByte)
  | escapes (src : String)
  /-- A format by its suffix, or by the source where that has none. -/
  | unsupported (format : String)
  | missing (path : Path)
  | unreadable (path : Path) (fault : Disk.Fault)
  deriving DecidableEq, Repr

def Fault.message : Fault → String
  | noBase src => "Cannot resolve relative image path without base path: " ++ src
  | unresolvable src e => "Cannot resolve image path " ++ Text.quoted src ++ ": " ++ e.message
  | escapes src => "Image path escapes base directory: " ++ src
  | unsupported format => "Unsupported image format: " ++ format
  | missing path => "Image file not found: " ++ path.text
  | unreadable path fault => "Cannot read image " ++ path.text ++ ": " ++ fault.message

/-- The media types of the suffixes in lower case. -/
def mediaTypes : List (String × String) :=
  [(".png", "image/png"), (".jpg", "image/jpeg"), (".jpeg", "image/jpeg"), (".gif", "image/gif"),
   (".svg", "image/svg+xml"), (".webp", "image/webp")]

/-- The suffix of a path in lower case. -/
def format (p : Path) : String := String.ofList (Text.lower p.suffix.toList)

/-- The path of a source, for who is at `place`. -/
def resolve (place : List String) (base : Option Path) (src : String) : Except Fault Path :=
  let path := Path.read src
  if path.isAbsolute then .ok path
  else match base with
    | none => .error (.noBase src)
    | some base => do
      let base ← (base.resolve place).mapError (.unresolvable src)
      let resolved ← ((base.join path).resolve place).mapError (.unresolvable src)
      if base.names.isPrefixOf resolved.names then return resolved else throw (.escapes src)

/-- The path of a source with its media type. -/
def target (place : List String) (base : Option Path) (src : String) :
    Except Fault (Path × String) := do
  let path ← resolve place base src
  match mediaTypes.lookup (format path) with
  | some type => return (path, type)
  | none => throw (.unsupported (if format path = "" then src else format path))

/-- Content with its media type in one text. -/
def dataUri (type : String) (bytes : List UInt8) : String :=
  "data:" ++ type ++ ";base64," ++ String.ofList (Text.base64 bytes)

/-- The fault behind a failure to read the file; a path that leads to no file is missing. -/
def readFault (path : Path) : Disk.Fault → Fault
  | .system cause p =>
    if cause = .noEntry ∨ cause = .notDirectory ∨ cause = .isDirectory then .missing path
    else .unreadable path (.system cause p)
  | .nullByte _ => .missing path

/-- The image of an answer to a request for its file. -/
def embed (path : Path) (type : String) (answer : Except Disk.Fault (List UInt8)) :
    Noted (Except Fault String) :=
  match answer with
  | .error fault => pure (.error (readFault path fault))
  | .ok bytes => do
    .note (.embedded path.text bytes.length)
    return .ok (dataUri type bytes)

/-- Finds the image of a source. -/
def fetch (place : List String) (base : Option Path) (src : String) :
    Action (Noted (Except Fault String)) :=
  match target place base src with
  | .error fault => .done (pure (.error fault))
  | .ok (path, type) => .read path fun answer => .done (embed path type answer)

/-- An image with what is to be told where it cannot be had. -/
def told (image : Noted (Except Fault String)) : Noted (Except (Option String) String) :=
  ⟨image.value.mapError fun fault => some fault.message, image.notes⟩

end Wireframe.Image
