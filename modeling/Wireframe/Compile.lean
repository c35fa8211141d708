import Wireframe.Document.Draft
import Wireframe.Drawing
import Wireframe.Image

/-! Compilation: a source text is read as a document, and the document is drawn. Images come from a
loader that is given, or else from the files below a directory. -/

namespace Wireframe

namespace Image

/-- The loader of the files below a directory, as a disk answers for them. -/
def fileLoader (disk : Action.Handler Id) (place : List String) (base : Path) : ImageLoader := fun src =>
  let image := (fetch place (some base) src).perform disk
  told image

/-- The loader in force: the one that is given, else that of the directory, where there is one. -/
def loader? (disk : Action.Handler Id) (place : List String) (base : Option Path)
    (given : Option ImageLoader) : Option ImageLoader :=
  given.or (base.map (fileLoader disk place))

end Image

/-- Why a source text has no drawing. -/
inductive CompileError
  | reading (failure : Failure)
  | drawing (error : DrawingError)

/-- The drawing of a source text. -/
def Document.compile (source : String) (loader : Option ImageLoader) :
    Noted (Except CompileError String) := do
  match ← read source with
  | .error failure => return .error (.reading failure)
  | .ok d => return (← d.draw loader).mapError .drawing

end Wireframe
