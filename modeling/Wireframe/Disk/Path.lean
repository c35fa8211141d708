import Wireframe.Text.Quoted
import Wireframe.Text.Split

/-! Paths: names from a root or from nowhere in particular. Empty names and single dots go when a path
is read; two dots stay until the path is resolved. -/

namespace Wireframe

/-- What a path starts from. Exactly two slashes are a root of their own. -/
inductive Path.Root
  | none
  | slash
  | doubleSlash
  deriving DecidableEq, Repr

structure Path where
  root : Path.Root
  names : List String
  deriving DecidableEq, Repr

namespace Path

def Root.text : Root → String
  | none => ""
  | slash => "/"
  | doubleSlash => "//"

/-- The root that the slashes in front of a path stand for. -/
def Root.ofChars : List Char → Root
  | '/' :: '/' :: '/' :: _ => slash
  | '/' :: '/' :: _ => doubleSlash
  | '/' :: _ => slash
  | _ => none

/-- The names between the slashes of a text. -/
def namesOf (cs : List Char) : List String :=
  ((Text.splitAt '/' cs).map String.ofList).filter fun name => name ≠ "" && name ≠ "."

def read (text : String) : Path := ⟨.ofChars text.toList, namesOf text.toList⟩

def text (p : Path) : String :=
  if p.root = .none ∧ p.names = [] then "." else p.root.text ++ "/".intercalate p.names

def isAbsolute (p : Path) : Bool := p.root ≠ .none

/-- The path that `q` names seen from `p`. -/
def join (p q : Path) : Path := if q.isAbsolute then q else ⟨p.root, p.names ++ q.names⟩

/-- The last name, empty where there is none. -/
def name (p : Path) : String := p.names.getLast?.getD ""

def parent (p : Path) : Path := ⟨p.root, p.names.dropLast⟩

/-- What a name has from its last dot on, unless the dot is its first or its last character. -/
def suffixOf (name : List Char) : List Char :=
  let tail := (name.reverse.takeWhile (· ≠ '.')).reverse
  if tail ≠ [] ∧ tail.length + 1 < name.length then '.' :: tail else []

def suffix (p : Path) : String := String.ofList (suffixOf p.name.toList)

/-- A suffix that no name can have. -/
structure BadSuffix where
  suffix : String
  deriving DecidableEq, Repr

def BadSuffix.message (e : BadSuffix) : String := "Invalid suffix " ++ Text.quoted e.suffix

/-- A suffix is empty, or a dot and more, without a slash. -/
def isSuffix (cs : List Char) : Bool :=
  !cs.contains '/' && (cs.isEmpty || (cs.head? == some '.' && cs ≠ ['.']))

/-- The path with another suffix to its last name. -/
def withSuffix (p : Path) (suffix : String) : Except BadSuffix Path :=
  if isSuffix suffix.toList then
    let name := p.name.toList
    let stem := name.take (name.length - (suffixOf name).length)
    .ok ⟨p.root, p.names.dropLast ++ [String.ofList stem ++ suffix]⟩
  else .error ⟨suffix⟩

/-- Where names lead to from a place below the root: two dots lead up, and stay at the root. -/
def walk (place names : List String) : List String :=
  names.foldl (fun place name => if name = ".." then place.dropLast else place ++ [name]) place

/-- A path holds a null character. -/
structure NullByte where
  deriving DecidableEq, Repr

def NullByte.message (_ : NullByte) : String := "embedded null byte"

def hasNull (p : Path) : Bool := p.names.any (·.toList.contains '\x00')

/-- The place that a path names for who is at `place`, as an absolute path. -/
def resolve (p : Path) (place : List String) : Except NullByte Path :=
  if p.hasNull then .error {}
  else .ok ⟨.slash, walk (if p.isAbsolute then [] else place) p.names⟩

end Path
end Wireframe
