import Wireframe.Proofs.ReaderRelocation
import Wireframe.Proofs.ShapeReaders

/-! Readers and positions. Of tokens of the same shapes at other positions the reader of a statement takes
equally many, and the statement that it reads differs in positions only (`Statement.exists_run_of_shapes`):
moved all to one position the tokens are the same, and what is read moves with them. -/

namespace Wireframe

/-- The statements are the same apart from positions. -/
inductive Statement.Alike : Statement → Statement → Prop
  | same (s : Statement) : Alike s s
  | grid {cols rows : Nat} (l l' : Location) : Alike (.grid cols rows l) (.grid cols rows l')
  | weights {axis : Axis} {values : List Float} (l l' : Location) :
      Alike (.weights axis values l) (.weights axis values l')
  | component {range : Range} {entries entries' : List (String × Token)}
      (h : entries.map Reader.entryShape = entries'.map Reader.entryShape) (l l' : Location) :
      Alike (.component range entries l) (.component range entries' l')

namespace Reader

/-- The tokens are the same apart from their positions. -/
abbrev SameShapes (ts us : List Token) : Prop := ts.map Token.shape = us.map Token.shape

variable {t u : Token} {ts us : List Token} {f : Location → Location}

theorem kind_eq_of_shape (h : t.shape = u.shape) : t.kind = u.kind := congrArg Prod.fst h

theorem value_eq_of_shape (h : t.shape = u.shape) : t.value = u.value := congrArg Prod.snd h

theorem SameShapes.exists_cons (h : SameShapes (t :: ts) us) :
    ∃ u left, us = u :: left ∧ t.shape = u.shape ∧ SameShapes ts left := by
  obtain ⟨u, left, rfl, hu, hleft⟩ := List.map_eq_cons_iff.mp h.symm
  exact ⟨u, left, rfl, hu.symm, hleft.symm⟩

theorem sameShapes_of_moved (h : ts.map (Token.moved f) = us.map (Token.moved f)) : SameShapes ts us := by
  have hshapes := congrArg (List.map Token.shape) h
  rwa [List.map_map, List.map_map] at hshapes

/-- Tokens of the same shapes are the same when they are moved to one position. -/
theorem SameShapes.map_moved (h : SameShapes ts us) (l : Location) :
    ts.map (Token.moved fun _ => l) = us.map (Token.moved fun _ => l) := by
  have hplaced := congrArg (List.map fun s => (⟨s.1, s.2, l⟩ : Token)) h
  rwa [List.map_map, List.map_map] at hplaced

end Reader

namespace Statement

open Reader

variable {t u : Token} {s s' : Statement} {f : Location → Location}

theorem decimal_congr (h : t.shape = u.shape) : decimal t = decimal u := by
  rw [decimal, decimal, value_eq_of_shape h]

theorem alike_of_moved (h : s.moved f = s'.moved f) : Alike s s' := by
  have hentries {entries entries' : List (String × Token)}
      (h : entries.map (Token.movedEntry f) = entries'.map (Token.movedEntry f)) :
      entries.map entryShape = entries'.map entryShape := by
    have hshapes := congrArg (List.map entryShape) h
    rwa [List.map_map, List.map_map] at hshapes
  cases s with
  | ratio | gap | padding | colors | theme =>
      cases s' <;> cases h
      exact .same _
  | grid cols rows l =>
      cases s' with
      | grid cols' rows' l' =>
          obtain ⟨rfl, rfl, -⟩ := Statement.grid.inj h
          exact .grid l l'
      | _ => cases h
  | weights axis values l =>
      cases s' with
      | weights axis' values' l' =>
          obtain ⟨rfl, rfl, -⟩ := Statement.weights.inj h
          exact .weights l l'
      | _ => cases h
  | component range entries l =>
      cases s' with
      | component range' entries' l' =>
          obtain ⟨rfl, hsame, -⟩ := Statement.component.inj h
          exact .component (hentries hsame) l l'
      | _ => cases h

/-- A statement says the same wherever it stands. -/
theorem exists_run_of_shapes {stop : Token} {ts us rest : List Token} (hshapes : SameShapes ts us)
    (h : reader.run stop ts = .ok (s, rest)) :
    ∃ s' left, reader.run stop us = .ok (s', left) ∧ Alike s s' ∧ SameShapes rest left := by
  have hts := moves_reader (f := fun _ => .start) stop ts
  have hus := moves_reader (f := fun _ => .start) stop us
  rw [h, hshapes.map_moved] at hts
  rw [hts] at hus
  cases hrun : reader.run stop us with
  | error e =>
      rw [hrun] at hus
      cases hus
  | ok r =>
      rw [hrun] at hus
      obtain ⟨hs, hrest⟩ := Prod.mk.inj (Except.ok.inj hus)
      exact ⟨r.1, r.2, rfl, alike_of_moved hs, sameShapes_of_moved hrest⟩

end Statement
end Wireframe
