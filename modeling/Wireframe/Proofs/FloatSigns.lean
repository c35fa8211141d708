import Wireframe.Document.Settings
import Wireframe.Number.Decimal
import Wireframe.Proofs.FloatPacking

/-! Signs of binary64 numbers. Rounding keeps the sign, and so do products and quotients of numbers
with a plus sign; a decimal, which has no sign of its own, is therefore never below zero and never no
number, however long it is (`notNegative_read`). -/

namespace Wireframe

namespace Binary64

open Float.Model (Format UnpackedFloat)

variable {u v : UnpackedFloat} {x : Float}

theorem isNonneg_roundWithAccuracy (m : Nat) (e : Int) (accuracy : UnpackedFloat.Accuracy) :
    IsNonneg (UnpackedFloat.roundWithAccuracy Format.binary64 .positive m e accuracy) := by
  simp only [UnpackedFloat.roundWithAccuracy]
  split <;> rfl

theorem isNonneg_round (m : Nat) (e : Int) :
    IsNonneg (UnpackedFloat.round Format.binary64 .positive m e) :=
  isNonneg_roundWithAccuracy _ _ _

theorem isNonneg_ofNat (n : Nat) : IsNonneg (UnpackedFloat.ofNat Format.binary64 n) := by
  simp only [UnpackedFloat.ofNat, UnpackedFloat.ofInt, UnpackedFloat.normalize]
  split
  · next h =>
    rw [Int.compare_eq_lt] at h
    omega
  · rfl
  · exact isNonneg_round _ _

theorem isNonneg_div (hu : IsNonneg u) (hv : IsPos v) (hfinite : v.isFinite = true) :
    IsNonneg (UnpackedFloat.div Format.binary64 u v) := by
  cases v with
  | infinity s => cases hfinite
  | zero s => exact hv.elim
  | notANumber => exact hv.elim
  | finite s m e hm =>
      cases hv
      cases u with
      | infinity s => cases hu; rfl
      | zero s => cases hu; rfl
      | finite s' m' e' hm' =>
          cases hu
          exact isNonneg_roundWithAccuracy _ _ _
      | notANumber => exact hu.elim

theorem isNonneg_mul_finite {m₁ m₂ : Nat} {e₁ e₂ : Int} {h₁ : 0 < m₁} {h₂ : 0 < m₂} :
    IsNonneg (UnpackedFloat.mul Format.binary64 (.finite .positive m₁ e₁ h₁)
      (.finite .positive m₂ e₂ h₂)) :=
  isNonneg_roundWithAccuracy _ _ _

theorem isNonneg_ofScientific (m : Nat) (e : Int) :
    IsNonneg (UnpackedFloat.ofScientific Format.binary64 m e) := by
  rw [UnpackedFloat.ofScientific]
  split
  · rfl
  split
  · rfl
  split
  · rfl
  split
  · exact isNonneg_mul_finite
  · exact isNonneg_div rfl rfl rfl

theorem unpack_zero : (0.0 : Float).toModel.unpack = .zero .positive := by rfl

theorem zero_le_iff :
    0.0 ≤ x ↔ (UnpackedFloat.zero .positive).le x.toModel.unpack = true := by
  rw [← unpack_zero]
  change Float.le 0.0 x = true ↔ _
  simp only [Float.le, decide_eq_true_eq]
  exact Iff.rfl

theorem zero_lt_iff :
    0.0 < x ↔ (UnpackedFloat.zero .positive).lt x.toModel.unpack = true := by
  rw [← unpack_zero]
  change Float.lt 0.0 x = true ↔ _
  simp only [Float.lt, decide_eq_true_eq]
  exact Iff.rfl

theorem notNegative_of_isNonneg (h : IsNonneg x.toModel.unpack) :
    Component.notNegative x = true := by
  rw [Component.notNegative, decide_eq_true_eq, zero_le_iff]
  cases hx : x.toModel.unpack with
  | infinity s =>
      rw [hx] at h
      cases h
      rfl
  | zero s => rfl
  | finite s m e hm =>
      rw [hx] at h
      cases h
      rfl
  | notANumber =>
      rw [hx] at h
      exact h.elim

theorem isPositive_iff : Settings.isPositive x = true ↔ IsPos x.toModel.unpack := by
  rw [Settings.isPositive, decide_eq_true_eq, zero_lt_iff]
  cases x.toModel.unpack with
  | infinity s => cases s <;> simp [UnpackedFloat.lt, UnpackedFloat.compare, IsPos]
  | zero s => simp [UnpackedFloat.lt, UnpackedFloat.compare, IsPos]
  | finite s m e hm => cases s <;> simp [UnpackedFloat.lt, UnpackedFloat.compare, IsPos]
  | notANumber => simp [UnpackedFloat.lt, UnpackedFloat.compare, IsPos]

/-- The powers of ten that decimals of few digits are divided by. -/
theorem isPos_powersOfTen : ∀ x ∈ Float.exactlyRepresentablePowersOfTen.toList,
    IsPos x.toModel.unpack ∧ x.toModel.unpack.isFinite = true := by
  have hpos : ∀ x ∈ Float.exactlyRepresentablePowersOfTen.toList,
      Settings.isPositive x = true ∧ x.toModel.unpack.isFinite = true := by
    decide
  intro x hx
  obtain ⟨hsign, hfinite⟩ := hpos x hx
  exact ⟨isPositive_iff.mp hsign, hfinite⟩

theorem isNonneg_unpack_ofScientific (m k : Nat) :
    IsNonneg (Float.ofScientific m true k).toModel.unpack := by
  rw [Float.ofScientific]
  split
  · next h =>
    obtain ⟨hpos, hfinite⟩ :=
      isPos_powersOfTen _ (Array.getElem_mem_toList (i := k) (by
        simp [Float.exactlyRepresentablePowersOfTen]
        omega))
    exact isNonneg_unpack_pack
      (isNonneg_div (isNonneg_unpack_pack (isNonneg_ofNat _)) hpos hfinite)
  · exact isNonneg_unpack_pack (isNonneg_ofScientific _ _)

end Binary64

theorem Decimal.notNegative_read (cs : List Char) : Component.notNegative (Decimal.read cs) = true :=
  Binary64.notNegative_of_isNonneg (Binary64.isNonneg_unpack_ofScientific _ _)

end Wireframe
