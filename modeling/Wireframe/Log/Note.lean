import Wireframe.Document.Component
import Wireframe.Log.Record

/-! Notes: what reading and drawing a document have to tell besides their result. -/

namespace Wireframe

inductive Note
  /-- A property that means nothing for the kind of its component. -/
  | ignored (key : String) (kind : Component.Kind)
  | parsed (components : Nat) (cols rows : Int)
  | embedded (path : String) (bytes : Nat)
  /-- An image that could not be had, and why. -/
  | replaced (src reason : String)
  | rendered (components : Nat) (width height : Int)
  deriving DecidableEq, Repr

/-- The record that a note makes in a log. -/
def Note.record : Note → Record
  | ignored key kind =>
    ⟨.debug, "gridwire.parser.lib", s!"Ignoring '{key}' on {kind.name} component"⟩
  | parsed components cols rows =>
    ⟨.debug, "gridwire.parser.lib", s!"Parsed {components} components on {cols}x{rows} grid"⟩
  | embedded path bytes =>
    ⟨.debug, "gridwire.render.images", s!"Embedded {path} ({bytes} bytes)"⟩
  | replaced src reason =>
    ⟨.warning, "gridwire.render.components", s!"Image '{src}' replaced by placeholder: {reason}"⟩
  | rendered components width height =>
    ⟨.debug, "gridwire.render.lib",
      s!"Rendered {components} components on {width}x{height} canvas"⟩

/-- A value, and the notes made on the way to it. -/
structure Noted (α : Type) where
  value : α
  notes : List Note := []

namespace Noted

variable {α β : Type}

/-- A value without a note. -/
def plain (a : α) : Noted α := ⟨a, []⟩

/-- A value computed from another one, with the notes of both. -/
def andThen (x : Noted α) (f : α → Noted β) : Noted β :=
  ⟨(f x.value).value, x.notes ++ (f x.value).notes⟩

instance : Monad Noted where
  pure := plain
  bind := andThen

/-- A note alone. -/
def note (n : Note) : Noted Unit := ⟨(), [n]⟩

@[simp] theorem value_pure (a : α) : (pure a : Noted α).value = a := rfl

@[simp] theorem value_bind (x : Noted α) (f : α → Noted β) :
    (x >>= f).value = (f x.value).value := rfl

section Failing

variable {ε : Type}

theorem value_run_pure (a : α) : (pure a : ExceptT ε Noted α).run.value = pure a := rfl

theorem value_run_except (e : Except ε α) : (liftM e : ExceptT ε Noted α).run.value = e := rfl

theorem value_run_noted (x : Noted α) : (liftM x : ExceptT ε Noted α).run.value = pure x.value := rfl

/-- The value of what can fail is computed as without notes. -/
theorem value_run_bind (x : ExceptT ε Noted α) (f : α → ExceptT ε Noted β) :
    (x >>= f).run.value = x.run.value >>= fun a => (f a).run.value := by
  rw [ExceptT.run_bind, value_bind]
  cases x.run.value <;> rfl

end Failing

end Noted
end Wireframe
