import Wireframe.Disk.Action
import Wireframe.Text.Utf8

/-! A disk as a tree of directories and files. It is an ideal one: there are no links, a name is any text of
characters and never one that cannot be encoded, and a file is written as a whole or not at all. -/

namespace Wireframe

namespace Disk

inductive Node where
  | file (bytes : List UInt8)
  | dir (entries : List (String × Node))

namespace Node

/-- The node below a directory under a name. -/
def child? (name : String) : Node → Option Node
  | file _ => none
  | dir entries => entries.lookup name

/-- The node that names lead to. -/
def find? (n : Node) : List String → Option Node
  | [] => some n
  | name :: names => (n.child? name).bind (·.find? names)

def isDir : Node → Bool
  | file _ => false
  | dir _ => true

/-- Entries with a node in the place of the name, or at their end. -/
def insert (name : String) (n : Node) : List (String × Node) → List (String × Node)
  | [] => [(name, n)]
  | e :: entries => if e.1 = name then (name, n) :: entries else e :: insert name n entries

/-- The tree with a node put where the names lead; directories on the way are made. -/
def put (n : Node) (new : Node) : List String → Node
  | [] => new
  | name :: names =>
    let entries := match n with
      | file _ => []
      | dir entries => entries
    dir (insert name (((n.child? name).getD (dir [])).put new names) entries)

end Node

/-- The most bytes in a name, and the least number of bytes that is too much for a path. -/
def maxName : Nat := 255

def maxPath : Nat := 4096

def isTooLong (name : String) : Bool := maxName < name.utf8ByteSize

end Disk

/-- A tree and the place in it that relative paths start from. -/
structure Disk where
  tree : Disk.Node
  place : List String

namespace Disk

/-- Where names lead from a place, one after the other; each is looked up in a directory. -/
def walk (tree : Node) (place : List String) : List String → Except Cause (List String)
  | [] => .ok place
  | name :: names =>
    match tree.find? place with
    | some (.dir entries) =>
      if name = ".." then walk tree place.dropLast names
      else if isTooLong name then .error .nameTooLong
      else if (entries.lookup name).isSome then walk tree (place ++ [name]) names
      else .error .noEntry
    | _ => .error .notDirectory

/-- Where a path starts. -/
def origin (d : Disk) (p : Path) : List String := if p.isAbsolute then [] else d.place

/-- The fault of a path that is not even looked up. -/
def refused? (p : Path) : Option Fault :=
  if p.hasNull then some (.nullByte {})
  else if maxPath ≤ p.text.utf8ByteSize then some (.system .nameTooLong p)
  else none

/-- The content of the file that a path leads to. -/
def contents (d : Disk) (p : Path) : Except Cause (List UInt8) := do
  match d.tree.find? (← walk d.tree (d.origin p) p.names) with
  | some (.file bytes) => return bytes
  | some (.dir _) => throw .isDirectory
  | none => throw .noEntry

def read (d : Disk) (p : Path) : Except Fault (List UInt8) :=
  match refused? p with
  | some fault => .error fault
  | none => (d.contents p).mapError (.system · p)

/-- Where a file at a path stands or would stand: in a directory, under a name that is no directory. -/
def destination (d : Disk) (p : Path) : Except Cause (List String) := do
  let place ← walk d.tree (d.origin p) p.names.dropLast
  match p.names.getLast?, d.tree.find? place with
  | none, _ => throw .isDirectory
  | some name, some (.dir entries) =>
    if name = ".." then throw .isDirectory
    else if isTooLong name then throw .nameTooLong
    else if (entries.lookup name).any Node.isDir then throw .isDirectory
    else return place ++ [name]
  | some _, _ => throw .notDirectory

def write (d : Disk) (p : Path) (bytes : List UInt8) : Except Fault Unit × Disk :=
  match refused? p with
  | some fault => (.error fault, d)
  | none => match d.destination p with
    | .error cause => (.error (.system cause p), d)
    | .ok place => (.ok (), { d with tree := d.tree.put (.file bytes) place })

/-- A disk answers requests. -/
def handler : Action.Handler (StateM Disk) where
  read p := fun d => (d.read p, d)
  write p bytes := fun d => d.write p bytes

/-- The value of an action on a disk, and the disk after it. -/
def run {α : Type} (d : Disk) (a : Action α) : α × Disk := (a.perform handler).run d

end Disk
end Wireframe
