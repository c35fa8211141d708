import Wireframe.Document.Settings
import Wireframe.Proofs.Results

/-! The rules of settings and of components, as one statement each. The lists of errors are empty
exactly when every field keeps its rule and the weights match the grid (`Settings.errors_eq_nil_iff`). -/

namespace Wireframe

theorem FieldError.unless_eq_nil_iff {ok : Bool} {field : String} {problem : FieldProblem} :
    FieldError.unless ok field problem = [] ↔ ok = true := by
  cases ok <;> simp [FieldError.unless]

namespace Component

variable {p : Properties} {padding : Option Float}

theorem paddingErrors_eq_nil_iff :
    paddingErrors padding = [] ↔ ∀ x, padding = some x → notNegative x = true := by
  cases padding with
  | none => simp [paddingErrors]
  | some x => simp [paddingErrors, FieldError.unless_eq_nil_iff]

theorem textErrors_eq_nil_iff {field : String} {text : Option String} :
    textErrors field text = [] ↔ text.isSome = true :=
  FieldError.unless_eq_nil_iff

/-- Properties whose texts are there and whose padding and alignment keep their rules make a component
of any kind. -/
theorem exists_ofProperties (kind : Kind) (range : Range)
    (hpadding : ∀ x, p.padding = some x → notNegative x = true)
    (hvalue : p.value.isSome = true) (hlabel : p.label.isSome = true)
    (halign : (Align.ofName? p.align).isSome = true) :
    ∃ c, ofProperties kind range p = .ok c := by
  have hpad := paddingErrors_eq_nil_iff.mpr hpadding
  have hname : FieldError.unless (Align.ofName? p.align).isSome "align" .notAlign = [] :=
    FieldError.unless_eq_nil_iff.mpr halign
  have htext : textErrors "value" p.value = [] := textErrors_eq_nil_iff.mpr hvalue
  have hfield : textErrors "label" p.label = [] := textErrors_eq_nil_iff.mpr hlabel
  cases kind <;> simp [ofProperties, hpad, hname, htext, hfield]

end Component

namespace Settings

variable {s : Settings}

/-- Every field of the settings keeps its rule. -/
structure IsSound (s : Settings) : Prop where
  ratio_pos : 0 < s.ratio.1 ∧ 0 < s.ratio.2
  grid_inLimits : inGridLimits s.grid.1 = true ∧ inGridLimits s.grid.2 = true
  gap_notNegative : Component.notNegative s.gap.toFloat = true
  padding_notNegative : ∀ x, s.padding = some x → Component.notNegative x = true
  weights_positive : ∀ axis ws, s.weights axis = some ws → ∀ w ∈ ws, isPositive w = true
  theme_known : ∃ theme, Theme.named? s.theme = .ok theme

theorem inGridLimits_iff {n : Int} : inGridLimits n = true ↔ 1 ≤ n ∧ n ≤ 26 := by
  rw [inGridLimits, Bool.and_eq_true, decide_eq_true_eq, decide_eq_true_eq]
  exact Iff.rfl

theorem weightErrors_eq_nil_iff {field : String} {weights : Option (List Float)} :
    weightErrors field weights = [] ↔ ∀ ws, weights = some ws → ∀ w ∈ ws, isPositive w = true := by
  rw [weightErrors, List.flatMap_eq_nil_iff]
  simp only [FieldError.unless_eq_nil_iff]
  constructor
  · rintro h ws rfl w hw
    obtain ⟨i, hi, rfl⟩ := List.mem_iff_getElem.mp hw
    exact h (ws[i], i) (List.mk_mem_zipIdx_iff_getElem?.mpr (List.getElem?_eq_getElem hi))
  · intro h p hp
    cases weights with
    | none => cases hp
    | some ws => exact h ws rfl p.1 (List.fst_mem_of_mem_zipIdx hp)

theorem themeErrors_eq_nil_iff {theme : Option String} :
    themeErrors theme = [] ↔ ∃ t, Theme.named? theme = .ok t := by
  rw [themeErrors]
  split <;> simp_all

theorem fieldErrors_eq_nil_iff : s.fieldErrors = [] ↔ s.IsSound := by
  simp only [fieldErrors, List.append_eq_nil_iff, FieldError.unless_eq_nil_iff, gridErrors,
    Component.paddingErrors_eq_nil_iff, weightErrors_eq_nil_iff, themeErrors_eq_nil_iff,
    Bool.and_eq_true, decide_eq_true_eq]
  constructor
  · rintro ⟨⟨⟨⟨⟨⟨⟨hwidth, hheight⟩, hgrid⟩, hgap⟩, hpadding⟩, hcols⟩, hrows⟩, htheme⟩
    refine ⟨⟨hwidth, hheight⟩, hgrid, hgap, hpadding, ?_, htheme⟩
    intro axis
    cases axis with
    | columns => exact hcols
    | rows => exact hrows
  · intro h
    exact ⟨⟨⟨⟨⟨⟨h.ratio_pos, h.grid_inLimits⟩, h.gap_notNegative⟩, h.padding_notNegative⟩,
      h.weights_positive .columns⟩, h.weights_positive .rows⟩, h.theme_known⟩

theorem miscounted_eq_none_iff {axis : Axis} :
    s.miscounted axis = none ↔ ∀ ws, s.weights axis = some ws → (ws.length : Int) = s.count axis := by
  rw [miscounted]
  cases s.weights axis with
  | none => simp
  | some ws => simp

theorem countErrors_eq_nil_iff : s.countErrors = [] ↔ ∀ axis, s.miscounted axis = none := by
  rw [countErrors]
  constructor
  · intro h axis
    split at h
    · cases h
    · cases h
    · next hcols hrows =>
      cases axis with
      | columns => exact hcols
      | rows => exact hrows
  · intro h
    rw [h .columns, h .rows]

theorem errors_eq_nil_iff : s.errors = [] ↔ s.IsSound ∧ ∀ axis, s.miscounted axis = none := by
  rw [errors, ← fieldErrors_eq_nil_iff, ← countErrors_eq_nil_iff]
  split
  · next h => simp [h]
  · next h => simp [h]

/-- The settings of a document that makes none keep the rules. -/
theorem isSound_default : IsSound {} := by
  refine ⟨by decide, by decide, by decide, ?_, ?_, Theme.default, rfl⟩
  · intro x hx
    cases hx
  · intro axis ws hws
    cases axis <;> cases hws

end Settings
end Wireframe
