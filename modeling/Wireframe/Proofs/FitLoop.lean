import Wireframe.Theme
import Wireframe.Typeset.Fit

/-! The search for the size of a text. The sizes fall to the least one in fewer steps than the bound
allows, so the bounded search is the unbounded one: it stops only where the text fits or the least size
is reached (`fit_settles`). What it finds has a line at least (`fit_ne_nil`). -/

namespace Wireframe

namespace Typeset

variable {α : Type} [OrderedScalar α] {width height size : α} {cs : List Char} {found other : Fitted α}

/-- The search is over at a size: the text fits, or no smaller size is left. -/
def Stops (width height : α) (cs : List Char) (size : α) : Prop :=
  (heightFits height size (wrap width size cs).length || OrderedScalar.le size minSize) = true

/-- The search without a bound to its steps goes from a size to what it finds. -/
inductive Settles (width height : α) (cs : List Char) : α → Fitted α → Prop
  | stop {size : α} (h : Stops width height cs size) :
      Settles width height cs size ⟨wrap width size cs, size⟩
  | next {size : α} {found : Fitted α} (h : ¬Stops width height cs size)
      (rest : Settles width height cs (smaller size) found) : Settles width height cs size found

/-- From a size the least one is reached in that many steps. -/
def reachesLeast : Nat → α → Bool
  | 0, size => OrderedScalar.le size minSize
  | steps + 1, size => OrderedScalar.le size minSize || reachesLeast steps (smaller size)

theorem stops_of_le (h : OrderedScalar.le size minSize = true) : Stops width height cs size := by
  rw [Stops, h, Bool.or_true]

theorem settles_fitFrom {steps : Nat} (h : reachesLeast steps size = true) :
    Settles width height cs size (fitFrom width height cs steps size) := by
  induction steps generalizing size with
  | zero => exact .stop (stops_of_le h)
  | succ steps ih =>
      rw [fitFrom]
      split
      · next hstops => exact .stop hstops
      · next hstops =>
        refine .next hstops (ih ?_)
        rw [reachesLeast, Bool.or_eq_true] at h
        exact h.resolve_left fun hle => hstops (stops_of_le hle)

/-- The search finds one thing only. -/
theorem Settles.unique (h : Settles width height cs size found)
    (h' : Settles width height cs size other) : found = other := by
  induction h with
  | stop hstops =>
      cases h' with
      | stop => rfl
      | next hgoes => exact absurd hstops hgoes
  | next hgoes _ ih =>
      cases h' with
      | stop hstops => exact absurd hstops hgoes
      | next _ rest => exact ih rest

theorem Settles.lines_eq (h : Settles width height cs size found) :
    found.lines = wrap width found.size cs := by
  induction h with
  | stop => rfl
  | next _ _ ih => exact ih

theorem wrapLine_ne_nil (limit size : α) (line : List Char) : wrapLine limit size line ≠ [] := by
  rw [wrapLine]
  split
  · exact List.cons_ne_nil _ _
  · next groups hne =>
    intro hnil
    exact hne (List.map_eq_nil_iff.mp hnil)

/-- Each part of a text between line ends has a line at least, and there is one part at least. -/
theorem wrap_ne_nil (limit size : α) (cs : List Char) : wrap limit size cs ≠ [] := by
  rw [wrap]
  intro hnil
  obtain ⟨part, hpart⟩ := List.exists_mem_of_ne_nil _ (Text.splitAt_ne_nil '\n' cs)
  exact wrapLine_ne_nil limit size part (List.flatMap_eq_nil_iff.mp hnil part hpart)

end Typeset

namespace Theme

variable {name : Option String} {theme : Theme}

theorem mem_all_of_named? (h : named? name = .ok theme) : theme ∈ all.map (·.2) := by
  have hdefault : default ∈ all.map (·.2) := by decide
  cases name with
  | none =>
      cases h
      exact hdefault
  | some name =>
      rw [named?] at h
      split at h
      · cases h
        exact hdefault
      split at h
      · next found =>
        cases h
        obtain ⟨before, after, hall, -⟩ := List.lookup_eq_some_iff.mp found
        rw [hall]
        exact List.mem_map.mpr ⟨(name, _), List.mem_append_right _ List.mem_cons_self, rfl⟩
      · cases h

/-- From the size of each theme the least size is reached within the bound. -/
theorem reachesLeast_fontSize (h : named? name = .ok theme) :
    Typeset.reachesLeast (OrderedScalar.bound theme.fontSize.toFloat) theme.fontSize.toFloat = true := by
  have hall : ∀ t ∈ all.map (·.2),
      Typeset.reachesLeast (OrderedScalar.bound t.fontSize.toFloat) t.fontSize.toFloat = true := by
    decide +kernel
  exact hall theme (mem_all_of_named? h)

end Theme

namespace Typeset

variable {name : Option String} {theme : Theme}

/-- From the size of a theme the search ends in every box, with every text. -/
theorem fit_settles (h : Theme.named? name = .ok theme) (width height padding : Float)
    (cs : List Char) :
    Settles (inside width padding) (inside height padding) cs theme.fontSize.toFloat
      (fit width height padding theme.fontSize.toFloat cs) :=
  settles_fitFrom (Theme.reachesLeast_fontSize h)

theorem fit_ne_nil (h : Theme.named? name = .ok theme) (width height padding : Float)
    (cs : List Char) : (fit width height padding theme.fontSize.toFloat cs).lines ≠ [] := by
  rw [(fit_settles h width height padding cs).lines_eq]
  exact wrap_ne_nil _ _ cs

end Typeset
end Wireframe
