import Wireframe.Proofs.FloatPacking

/-! Rounding to the binary64 format. A rounded number has a mantissa of at most 53 bits, and one that is
not below the least exponent is not rounded to zero (`isPos_roundWithAccuracy`). Sums of two numbers
inherit both. -/

namespace Wireframe.Binary64

open Float.Model (Format UnpackedFloat totalExponent)
open Float.Model.UnpackedFloat (Sign Accuracy ExtendedMantissa shiftToExponent shiftToTargetExponent
  roundWithAccuracy round decreaseExponent)

/-- The exponent that the format has for a number. -/
def target (m : Nat) (e : Int) : Int := Format.binary64.targetExponent (totalExponent m e)

theorem target_eq (m : Nat) (e : Int) : target m e = max (m.log2 + e - 52) (-1074) := by
  rw [target, Format.targetExponent, totalExponent]
  show max ((m.log2 : Int) + 1 + e - (1 + 52 : Nat)) (3 - 2 ^ (11 - 1) - (1 + 52 : Nat)) = _
  omega

theorem mantissa_shiftRight (em : ExtendedMantissa) (n : Nat) :
    (em >>> n).mantissa = em.mantissa / 2 ^ n := by
  show (n.repeat ExtendedMantissa.shiftRightOne em).mantissa = _
  induction n with
  | zero => rw [Nat.pow_zero, Nat.div_one]; rfl
  | succ n ih =>
      rw [Nat.repeat, ExtendedMantissa.shiftRightOne, ih, Nat.pow_succ, Nat.div_div_eq_div_mul]

theorem mantissa_ofMantissaAndAccuracy (m : Nat) (accuracy : Accuracy) :
    (ExtendedMantissa.ofMantissaAndAccuracy m accuracy).mantissa = m := by
  cases accuracy with
  | exact => rfl
  | inexact o => cases o <;> rfl

/-- The mantissa and the exponent of a number that is shifted to its target. -/
theorem shiftToTargetExponent_eq (m : Nat) (e : Int) (accuracy : Accuracy) :
    (shiftToTargetExponent Format.binary64 m e accuracy).1.mantissa = m / 2 ^ (target m e - e).toNat ∧
      (shiftToTargetExponent Format.binary64 m e accuracy).2 = max e (target m e) := by
  simp only [shiftToTargetExponent, shiftToExponent]
  rw [mantissa_shiftRight, mantissa_ofMantissaAndAccuracy]
  refine ⟨rfl, ?_⟩
  show e + ((target m e - e).toNat : Int) = _
  omega

theorem roundedMantissa_bounds (em : ExtendedMantissa) :
    em.mantissa ≤ em.roundedMantissa ∧ em.roundedMantissa ≤ em.mantissa + 1 := by
  obtain ⟨m, r, s⟩ := em
  cases r <;> cases s <;>
    simp only [ExtendedMantissa.roundedMantissa, ExtendedMantissa.accuracy, Accuracy.roundToNearestEven] <;>
    omega

/-- The two shifts of rounding: a mantissa that is what the first shift leaves, give or take a carry,
and the result of the second shift. -/
theorem roundWithAccuracy_cases (s : Sign) (m : Nat) (e : Int) (accuracy : Accuracy) :
    ∃ r e', m / 2 ^ (target m e - e).toNat ≤ r ∧ r ≤ m / 2 ^ (target m e - e).toNat + 1 ∧
      e' = max e (target m e) ∧
      (r / 2 ^ (target r e' - e').toNat = 0 ∧
          roundWithAccuracy Format.binary64 s m e accuracy = .zero s ∨
        ∃ h, roundWithAccuracy Format.binary64 s m e accuracy =
          .finite s (r / 2 ^ (target r e' - e').toNat) (max e' (target r e')) h) := by
  obtain ⟨hmantissa, hexponent⟩ := shiftToTargetExponent_eq m e accuracy
  have hbounds := roundedMantissa_bounds (shiftToTargetExponent Format.binary64 m e accuracy).1
  rw [hmantissa] at hbounds
  refine ⟨_, _, hbounds.1, hbounds.2, hexponent, ?_⟩
  -- a carry makes the mantissa too long, and it is shifted once more
  obtain ⟨hmantissa', hexponent'⟩ := shiftToTargetExponent_eq
    (shiftToTargetExponent Format.binary64 m e accuracy).1.roundedMantissa
    (shiftToTargetExponent Format.binary64 m e accuracy).2 .exact
  simp only [roundWithAccuracy]
  split
  · next hzero =>
    rw [hmantissa'] at hzero
    exact Or.inl ⟨hzero, rfl⟩
  · next hpos =>
    rw [hmantissa'] at hpos
    refine Or.inr ⟨Nat.pos_of_ne_zero hpos, ?_⟩
    rw [UnpackedFloat.finite.injEq]
    exact ⟨rfl, hmantissa', hexponent'⟩

theorem div_two_pow_lt (m : Nat) (k : Nat) (h : m.log2 ≤ 52 + k) : m / 2 ^ k < 2 ^ 53 := by
  by_cases hzero : m = 0
  · subst hzero
    rw [Nat.zero_div]
    exact Nat.two_pow_pos 53
  · rw [Nat.div_lt_iff_lt_mul (Nat.two_pow_pos k), ← Nat.pow_add]
    exact (Nat.log2_lt hzero).mp (by omega)

theorem div_two_pow_pos {m k : Nat} (hm : 0 < m) (h : k ≤ m.log2) : 0 < m / 2 ^ k := by
  refine Nat.div_pos ?_ (Nat.two_pow_pos k)
  exact (Nat.le_log2 (Nat.pos_iff_ne_zero.mp hm)).mp h

theorem fitsBelow_roundWithAccuracy (s : Sign) (m : Nat) (e : Int) (accuracy : Accuracy) :
    FitsBelow (roundWithAccuracy Format.binary64 s m e accuracy) := by
  obtain ⟨r, e', -, -, -, ⟨-, hround⟩ | ⟨_, hround⟩⟩ := roundWithAccuracy_cases s m e accuracy
  · rw [hround]
    trivial
  · rw [hround]
    have htarget := target_eq r e'
    exact ⟨div_two_pow_lt _ _ (by omega), by omega⟩

/-- A number that is not below the least exponent keeps a part of its mantissa. -/
theorem isPos_roundWithAccuracy {m : Nat} {e : Int} (hm : 0 < m) (he : -1074 ≤ e)
    (accuracy : Accuracy) : IsPos (roundWithAccuracy Format.binary64 .positive m e accuracy) := by
  obtain ⟨r, e', hlow, -, he', hcases⟩ := roundWithAccuracy_cases .positive m e accuracy
  have htarget := target_eq m e
  have hfirst : 0 < m / 2 ^ (target m e - e).toNat := div_two_pow_pos hm (by omega)
  have hr : 0 < r := Nat.lt_of_lt_of_le hfirst hlow
  have htarget' := target_eq r e'
  have hsecond : 0 < r / 2 ^ (target r e' - e').toNat := div_two_pow_pos hr (by omega)
  rcases hcases with ⟨hzero, -⟩ | ⟨_, hround⟩
  · omega
  · rw [hround]
    rfl

theorem shiftLeft_pos {m : Nat} (hm : 0 < m) (k : Nat) : 0 < m <<< k := by
  rw [Nat.shiftLeft_eq]
  exact Nat.mul_pos hm (Nat.two_pow_pos k)

theorem round_eq (s : Sign) (m : Nat) (e : Int) :
    round Format.binary64 s m e = roundWithAccuracy Format.binary64 s
      (m <<< (e - target m e).toNat) (e - (e - target m e).toNat) .exact :=
  rfl

theorem fitsBelow_round (s : Sign) (m : Nat) (e : Int) : FitsBelow (round Format.binary64 s m e) := by
  rw [round_eq]
  exact fitsBelow_roundWithAccuracy _ _ _ _

theorem isPos_round {m : Nat} {e : Int} (hm : 0 < m) (he : -1074 ≤ e) :
    IsPos (round Format.binary64 .positive m e) := by
  have htarget := target_eq m e
  rw [round_eq]
  exact isPos_roundWithAccuracy (shiftLeft_pos hm _) (by omega) _

/-! ### Sums -/

/-- The mantissa of a sum, at the smaller of the two exponents. -/
def sumMantissa (m₁ : Nat) (e₁ : Int) (m₂ : Nat) (e₂ : Int) : Nat :=
  m₁ <<< (e₁ - min e₁ e₂).toNat + m₂ <<< (e₂ - min e₁ e₂).toNat

theorem sumMantissa_pos {m₁ m₂ : Nat} (hm : 0 < m₁) (e₁ e₂ : Int) : 0 < sumMantissa m₁ e₁ m₂ e₂ :=
  Nat.add_pos_left (shiftLeft_pos hm _) _

theorem add_finite {m₁ m₂ : Nat} {e₁ e₂ : Int} (h₁ : 0 < m₁) (h₂ : 0 < m₂) :
    UnpackedFloat.add Format.binary64 (.finite .positive m₁ e₁ h₁) (.finite .positive m₂ e₂ h₂) =
      round Format.binary64 .positive (sumMantissa m₁ e₁ m₂ e₂) (min e₁ e₂) := by
  have hpos : 0 < ((sumMantissa m₁ e₁ m₂ e₂ : Nat) : Int) :=
    Int.natCast_pos.mpr (sumMantissa_pos h₁ e₁ e₂)
  show UnpackedFloat.normalize Format.binary64 ((sumMantissa m₁ e₁ m₂ e₂ : Nat) : Int) (min e₁ e₂)
    .positive = _
  rw [UnpackedFloat.normalize, Int.compare_eq_gt.mpr hpos, Int.toNat_natCast]

/-- A sum with a number above zero is above zero, and its mantissa fits the format. -/
theorem isPos_add {u v : UnpackedFloat} (hu : IsNonneg u) (hv : IsPos v) (hfitsU : FitsBelow u)
    (hfitsV : FitsBelow v) :
    IsPos (UnpackedFloat.add Format.binary64 u v) ∧
      FitsBelow (UnpackedFloat.add Format.binary64 u v) := by
  cases v with
  | zero s => exact hv.elim
  | notANumber => exact hv.elim
  | infinity s =>
      cases hv
      cases u with
      | infinity s => cases hu; exact ⟨rfl, trivial⟩
      | zero s => cases hu; exact ⟨rfl, trivial⟩
      | finite s m e hm => cases hu; exact ⟨rfl, trivial⟩
      | notANumber => exact hu.elim
  | finite s m e hm =>
      cases hv
      cases u with
      | infinity s => cases hu; exact ⟨rfl, trivial⟩
      | zero s => cases hu; exact ⟨rfl, hfitsV⟩
      | finite s m' e' hm' =>
          cases hu
          rw [add_finite]
          refine ⟨isPos_round (sumMantissa_pos hm' _ _) ?_, fitsBelow_round _ _ _⟩
          obtain ⟨-, he⟩ := hfitsV
          obtain ⟨-, he'⟩ := hfitsU
          omega
      | notANumber => exact hu.elim

end Wireframe.Binary64
