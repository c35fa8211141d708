import Wireframe.Disk.Fault

/-! Actions: what a program does with files, as a tree of its requests and of what it does with the
answers. Whoever performs an action answers the requests. To read or to write is one request, with all the
bytes of a file: nothing comes between them. -/

namespace Wireframe

/-- An action that ends in a value of `α`. -/
inductive Action (α : Type) where
  | done (a : α)
  /-- Reads a file. -/
  | read (path : Path) (next : Except Disk.Fault (List UInt8) → Action α)
  /-- Writes a file as a whole. -/
  | write (path : Path) (bytes : List UInt8) (next : Except Disk.Fault Unit → Action α)

namespace Action

variable {α β : Type}

/-- An action that goes on with the value of another one. -/
def andThen : Action α → (α → Action β) → Action β
  | done a, f => f a
  | read path next, f => read path fun answer => (next answer).andThen f
  | write path bytes next, f => write path bytes fun answer => (next answer).andThen f

instance : Monad Action where
  pure := done
  bind := andThen

/-- Who answers the requests of an action. -/
structure Handler (m : Type → Type) where
  read : Path → m (Except Disk.Fault (List UInt8))
  write : Path → List UInt8 → m (Except Disk.Fault Unit)

/-- The value of an action, performed by a handler. -/
def perform {m : Type → Type} [Monad m] (h : Handler m) : Action α → m α
  | done a => pure a
  | read path next => do (next (← h.read path)).perform h
  | write path bytes next => do (next (← h.write path bytes)).perform h

end Action
end Wireframe
