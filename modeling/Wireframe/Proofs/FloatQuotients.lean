import Wireframe.Proofs.FloatMonotone

/-! Quotients of binary64 numbers. A quotient is cut off, and two bits more keep what a rounding has to
know of the rest (`jammed`). Rounded from there, a quotient is between any two numbers of the format
that the exact one is between (`hasUnits_div`). -/

namespace Wireframe.Binary64

open Float.Model (Format UnpackedFloat totalExponent)
open Float.Model.UnpackedFloat (Sign Accuracy ExtendedMantissa accuracyOfFraction roundWithAccuracy
  shiftToTargetExponent shiftToExponent)

section Jam

variable {q n d k : Nat} {e : Int} {accuracy : Accuracy}

/-- The two bits below a mantissa by which its accuracy is told. -/
def residue : Accuracy → Nat
  | .exact => 0
  | .inexact .lt => 1
  | .inexact .eq => 2
  | .inexact .gt => 3

theorem residue_lt (accuracy : Accuracy) : residue accuracy < 4 := by
  cases accuracy with
  | exact => decide
  | inexact o => cases o <;> decide

theorem shiftRight_residue (q : Nat) (accuracy : Accuracy) :
    ExtendedMantissa.ofMantissaAndAccuracy (4 * q + residue accuracy) .exact >>> 2 =
      ExtendedMantissa.ofMantissaAndAccuracy q accuracy := by
  show ((ExtendedMantissa.ofMantissaAndAccuracy _ .exact).shiftRightOne).shiftRightOne = _
  cases accuracy with
  | exact =>
      simp [ExtendedMantissa.ofMantissaAndAccuracy, ExtendedMantissa.shiftRightOne, residue]
      omega
  | inexact o =>
      cases o <;> simp [ExtendedMantissa.ofMantissaAndAccuracy, ExtendedMantissa.shiftRightOne, residue] <;>
        omega

/-- A mantissa of some bits more is rounded as it is without them, with the accuracy that they tell. -/
theorem roundWithAccuracy_shiftRight (sign : Sign) {q' : Nat} {e' : Int} {accuracy' : Accuracy}
    (he : e ≤ target q e) (hexp : e' = e - k) (htarget : target q' e' = target q e)
    (hshift : ExtendedMantissa.ofMantissaAndAccuracy q' accuracy' >>> k =
      ExtendedMantissa.ofMantissaAndAccuracy q accuracy) :
    roundWithAccuracy Format.binary64 sign q e accuracy =
      roundWithAccuracy Format.binary64 sign q' e' accuracy' := by
  have hshifted : shiftToTargetExponent Format.binary64 q e accuracy =
      shiftToTargetExponent Format.binary64 q' e' accuracy' := by
    have hbits : (target q e - e').toNat = k + (target q e - e).toNat := by omega
    have hsum : e' + ((k + (target q e - e).toNat : Nat) : Int) = e + (target q e - e).toNat := by omega
    show shiftToExponent q e accuracy (target q e) = shiftToExponent q' e' accuracy' (target q' e')
    simp only [shiftToExponent]
    rw [htarget, hbits, hsum, shiftRight_add, hshift]
  simp only [roundWithAccuracy, hshifted]

/-- A mantissa with an accuracy is rounded as the exact one of two bits more is. -/
theorem roundWithAccuracy_residue (sign : Sign) (he : e ≤ target q e)
    (htarget : target (4 * q + residue accuracy) (e - 2) = target q e) :
    roundWithAccuracy Format.binary64 sign q e accuracy =
      roundWithAccuracy Format.binary64 sign (4 * q + residue accuracy) (e - 2) .exact :=
  roundWithAccuracy_shiftRight sign he rfl htarget (shiftRight_residue q accuracy)

/-- A quotient cut off after two bits more, of which the last is set where anything is left. -/
def jammed (n d : Nat) : Nat := 4 * (n / d) + residue (accuracyOfFraction (n % d) d)

theorem exists_residue (n : Nat) (hd : 0 < d) :
    ∃ r, jammed n d = 4 * (n / d) + r ∧ r * d < 4 * (n % d) + d ∧ 4 * (n % d) < (r + 1) * d ∧
      (n % d ≠ 0 → 0 < r) := by
  have hmod : n % d < d := Nat.mod_lt n hd
  refine ⟨_, rfl, ?_⟩
  rw [accuracyOfFraction]
  by_cases hzero : n % d = 0
  · rw [if_pos hzero]
    simp only [residue]
    omega
  · rw [if_neg hzero]
    rcases lt_trichotomy (2 * (n % d)) d with hlt | heq | hgt
    · rw [compare_lt_iff_lt.mpr hlt]
      simp only [residue]
      omega
    · rw [compare_eq_iff_eq.mpr heq]
      simp only [residue]
      omega
    · rw [compare_gt_iff_gt.mpr hgt]
      simp only [residue]
      omega

theorem le_jammed (hd : 0 < d) (h : k * d ≤ 4 * n) : k ≤ jammed n d := by
  obtain ⟨r, hr, -, hhigh, -⟩ := exists_residue n hd
  have hlt : k * d < (4 * (n / d) + (r + 1)) * d := by
    calc
      k * d ≤ 4 * (d * (n / d) + n % d) := by rwa [Nat.div_add_mod]
      _ = 4 * (n / d) * d + 4 * (n % d) := by ring
      _ < 4 * (n / d) * d + (r + 1) * d := Nat.add_lt_add_left hhigh _
      _ = (4 * (n / d) + (r + 1)) * d := by ring
  rw [hr]
  exact Nat.le_of_lt_succ (Nat.lt_of_mul_lt_mul_right hlt)

theorem jammed_le (hd : 0 < d) (h : 4 * n ≤ k * d) : jammed n d ≤ k := by
  obtain ⟨r, hr, hlow, -, -⟩ := exists_residue n hd
  have hlt : (4 * (n / d) + r) * d < (k + 1) * d := by
    calc
      (4 * (n / d) + r) * d = 4 * (n / d) * d + r * d := by ring
      _ < 4 * (n / d) * d + (4 * (n % d) + d) := Nat.add_lt_add_left hlow _
      _ = 4 * (d * (n / d) + n % d) + d := by ring
      _ ≤ k * d + d := Nat.add_le_add_right (by rwa [Nat.div_add_mod]) d
      _ = (k + 1) * d := by ring
  rw [hr]
  exact Nat.le_of_lt_succ (Nat.lt_of_mul_lt_mul_right hlt)

theorem jammed_pos (hn : 0 < n) (hd : 0 < d) : 0 < jammed n d := by
  obtain ⟨r, hr, -, -, hpos⟩ := exists_residue n hd
  rw [hr]
  by_cases hzero : n % d = 0
  · have hq : 0 < n / d := Nat.div_pos (Nat.le_of_dvd hn (Nat.dvd_of_mod_eq_zero hzero)) hd
    omega
  · have hr := hpos hzero
    omega

theorem log2_four_mul_add (hq : 0 < q) {r : Nat} (hr : r < 4) : (4 * q + r).log2 = q.log2 + 2 := by
  have hlow := Nat.log2_self_le (Nat.pos_iff_ne_zero.mp hq)
  have hhigh := @Nat.lt_log2_self q
  rw [Nat.pow_succ] at hhigh
  rw [Nat.log2_eq_iff (by omega), Nat.pow_succ, Nat.pow_add _ _ 2]
  omega

theorem target_jammed (h : q = 0 → e ≤ -1074) :
    target (4 * q + residue accuracy) (e - 2) = target q e := by
  have hr := residue_lt accuracy
  rw [target_eq, target_eq]
  by_cases hq : q = 0
  · subst hq
    have hlog : (4 * 0 + residue accuracy).log2 ≤ (3 : Nat).log2 := log2_mono (by omega)
    have hthree : (3 : Nat).log2 = 1 := by decide
    have hzero : (0 : Nat).log2 = 0 := by decide
    have he := h rfl
    omega
  · rw [log2_four_mul_add (Nat.pos_of_ne_zero hq) hr]
    omega

end Jam

section Quotient

variable {m m₁ m₂ : Nat} {e e₁ e₂ : Int} {h₁ : 0 < m₁} {h₂ : 0 < m₂}

/-- The exponent at which a quotient is cut off. -/
def quotientExponent (m₁ : Nat) (e₁ : Int) (m₂ : Nat) (e₂ : Int) : Int :=
  min (e₁ - e₂) (Format.binary64.targetExponent (totalExponent m₁ e₁ - totalExponent m₂ e₂))

theorem quotientExponent_eq (m₁ : Nat) (e₁ : Int) (m₂ : Nat) (e₂ : Int) :
    quotientExponent m₁ e₁ m₂ e₂ =
      min (e₁ - e₂) (max ((m₁.log2 + e₁) - (m₂.log2 + e₂) - 53) (-1074)) := by
  rw [quotientExponent, Format.targetExponent, totalExponent, totalExponent]
  show min _ (max ((m₁.log2 : Int) + 1 + e₁ - (m₂.log2 + 1 + e₂) - (1 + 52 : Nat))
    (3 - 2 ^ (11 - 1) - (1 + 52 : Nat))) = _
  omega

/-- The mantissa of a quotient, with two bits more. -/
def quotientCode (m₁ : Nat) (e₁ : Int) (m₂ : Nat) (e₂ : Int) : Nat :=
  jammed (m₁ <<< (e₁ - e₂ - quotientExponent m₁ e₁ m₂ e₂).toNat) m₂

/-- Above the least exponent a quotient fills its bits. -/
theorem log2_quotient (h₁ : 0 < m₁) (h₂ : 0 < m₂) (h : -1074 < quotientExponent m₁ e₁ m₂ e₂) :
    0 < m₁ <<< (e₁ - e₂ - quotientExponent m₁ e₁ m₂ e₂).toNat / m₂ ∧
      52 ≤ (m₁ <<< (e₁ - e₂ - quotientExponent m₁ e₁ m₂ e₂).toNat / m₂).log2 := by
  have hexp := quotientExponent_eq m₁ e₁ m₂ e₂
  obtain ⟨k, hk⟩ : ∃ k, k = (e₁ - e₂ - quotientExponent m₁ e₁ m₂ e₂).toNat := ⟨_, rfl⟩
  have hfull : 2 ^ 52 ≤ m₁ <<< k / m₂ := by
    rw [Nat.le_div_iff_mul_le h₂, Nat.shiftLeft_eq]
    calc
      2 ^ 52 * m₂ ≤ 2 ^ 52 * 2 ^ (m₂.log2 + 1) := Nat.mul_le_mul_left _ Nat.lt_log2_self.le
      _ = 2 ^ (52 + (m₂.log2 + 1)) := (Nat.pow_add ..).symm
      _ ≤ 2 ^ (m₁.log2 + k) := Nat.pow_le_pow_right (by decide) (by omega)
      _ = 2 ^ m₁.log2 * 2 ^ k := Nat.pow_add ..
      _ ≤ m₁ * 2 ^ k := Nat.mul_le_mul_right _ (Nat.log2_self_le (Nat.pos_iff_ne_zero.mp h₁))
  rw [← hk]
  exact ⟨by omega, (Nat.le_log2 (by omega)).mpr hfull⟩

theorem div_finite : UnpackedFloat.div Format.binary64 (.finite .positive m₁ e₁ h₁) (.finite .positive m₂ e₂ h₂) =
    roundWithAccuracy Format.binary64 .positive (quotientCode m₁ e₁ m₂ e₂)
      (quotientExponent m₁ e₁ m₂ e₂ - 2) .exact := by
  have hfull := @log2_quotient m₁ m₂ e₁ e₂ h₁ h₂
  rw [quotientCode, jammed, ← roundWithAccuracy_residue]
  · rfl
  · rw [target_eq]
    omega
  · apply target_jammed
    omega

/-- The units of a quotient are those of its code, rounded. -/
theorem hasUnits_quotientCode {s : Nat} (hs : -(1074 + s : Int) ≤ quotientExponent m₁ e₁ m₂ e₂ - 2) :
    HasUnits (UnpackedFloat.div Format.binary64 (.finite .positive m₁ e₁ h₁) (.finite .positive m₂ e₂ h₂))
      (rounded s (quotientCode m₁ e₁ m₂ e₂ * 2 ^ (quotientExponent m₁ e₁ m₂ e₂ - 2 + 1074 + s).toNat)) := by
  have hfull := @log2_quotient m₁ m₂ e₁ e₂ h₁ h₂
  have htarget : quotientExponent m₁ e₁ m₂ e₂ - 2 ≤
      target (quotientCode m₁ e₁ m₂ e₂) (quotientExponent m₁ e₁ m₂ e₂ - 2) := by
    rw [quotientCode, jammed, target_jammed (by omega), target_eq]
    omega
  rw [div_finite]
  exact hasUnits_roundWithAccuracy .positive (jammed_pos (shiftLeft_pos h₁ _) h₂) htarget hs

theorem scale_le {x y a b a' b' : Nat} (h : a + b' = a' + b) :
    x * 2 ^ a ≤ y * 2 ^ b ↔ x * 2 ^ a' ≤ y * 2 ^ b' := by
  have hleft : x * 2 ^ a * 2 ^ b' = x * 2 ^ a' * 2 ^ b := by
    rw [Nat.mul_assoc, ← Nat.pow_add, h, Nat.pow_add, Nat.mul_assoc]
  have hright : y * 2 ^ b * 2 ^ b' = y * 2 ^ b' * 2 ^ b := Nat.mul_right_comm ..
  rw [← Nat.mul_le_mul_right_iff (Nat.two_pow_pos b'), hleft, hright,
    Nat.mul_le_mul_right_iff (Nat.two_pow_pos b)]

variable {j k : Nat}

/-- A number that the quotient does not exceed has an exponent at which the quotient is cut off, or a
greater one. -/
theorem quotientExponent_le (h₁ : 0 < m₁) (hm : m < 2 ^ 53) (he : -1074 ≤ e)
    (hjk : (j : Int) - k = e₁ - e₂ - e) (h : m₁ * 2 ^ j ≤ m * m₂ * 2 ^ k) :
    quotientExponent m₁ e₁ m₂ e₂ ≤ e := by
  have hexp := quotientExponent_eq m₁ e₁ m₂ e₂
  have hlt : 2 ^ (m₁.log2 + j) < 2 ^ (53 + (m₂.log2 + 1) + k) := by
    calc
      2 ^ (m₁.log2 + j) = 2 ^ m₁.log2 * 2 ^ j := Nat.pow_add ..
      _ ≤ m₁ * 2 ^ j := Nat.mul_le_mul_right _ (Nat.log2_self_le (Nat.pos_iff_ne_zero.mp h₁))
      _ ≤ m * m₂ * 2 ^ k := h
      _ < 2 ^ 53 * 2 ^ (m₂.log2 + 1) * 2 ^ k :=
        Nat.mul_lt_mul_of_pos_right (Nat.mul_lt_mul'' hm Nat.lt_log2_self) (Nat.two_pow_pos k)
      _ = 2 ^ (53 + (m₂.log2 + 1) + k) := by rw [← Nat.pow_add, ← Nat.pow_add]
  have hlog := (Nat.pow_lt_pow_iff_right (by decide)).mp hlt
  omega

/-- A quotient is between any two numbers that the exact one is between, where it is cut off below their
exponents. -/
theorem quotientCode_bounds (h₂ : 0 < m₂) (hm : m < 2 ^ 53) (he : -1074 ≤ e)
    (hfine : quotientExponent m₁ e₁ m₂ e₂ - 2 ≤ e) (hjk : (j : Int) - k = e₁ - e₂ - e) {s : Nat}
    (hs : -(1074 + s : Int) ≤ quotientExponent m₁ e₁ m₂ e₂ - 2) :
    (m₁ * 2 ^ j ≤ m * m₂ * 2 ^ k →
      rounded s (quotientCode m₁ e₁ m₂ e₂ * 2 ^ (quotientExponent m₁ e₁ m₂ e₂ - 2 + 1074 + s).toNat) ≤
        magnitude m e) ∧
    (m * m₂ * 2 ^ k ≤ m₁ * 2 ^ j → magnitude m e ≤
      rounded s (quotientCode m₁ e₁ m₂ e₂ *
        2 ^ (quotientExponent m₁ e₁ m₂ e₂ - 2 + 1074 + s).toNat)) := by
  obtain ⟨d, hd⟩ : ∃ d, d = quotientExponent m₁ e₁ m₂ e₂ := ⟨_, rfl⟩
  have hdle : d ≤ e₁ - e₂ := by
    rw [hd]
    exact Int.min_le_left _ _
  rw [quotientCode, ← hd, Nat.shiftLeft_eq]
  rw [← hd] at hfine hs
  -- the number in quarters of what the quotient is cut off at
  obtain ⟨b, hb⟩ : ∃ b, b = m * 2 ^ (e - (d - 2)).toNat := ⟨_, rfl⟩
  have hsame : b * 2 ^ (d - 2 + 1074 + s).toNat = magnitude m e * 2 ^ s := by
    rw [hb, magnitude, Nat.mul_assoc, Nat.mul_assoc, ← Nat.pow_add, ← Nat.pow_add]
    congr 2
    omega
  have hround : rounded s (b * 2 ^ (d - 2 + 1074 + s).toNat) = magnitude m e := by
    rw [hsame, rounded_mul_two_pow, rounded_magnitude hm]
  have hquarters : 4 * (m₁ * 2 ^ (e₁ - e₂ - d).toNat) = m₁ * 2 ^ (2 + (e₁ - e₂ - d).toNat) := by
    rw [Nat.pow_add]
    ring
  have hproduct : b * m₂ = m * m₂ * 2 ^ (e - (d - 2)).toNat := by
    rw [hb, Nat.mul_right_comm]
  rw [← hround]
  constructor
  · intro h
    refine rounded_mono s (Nat.mul_le_mul_right _ (jammed_le h₂ ?_))
    rw [hquarters, hproduct]
    refine (scale_le ?_).mp h
    omega
  · intro h
    refine rounded_mono s (Nat.mul_le_mul_right _ (le_jammed h₂ ?_))
    rw [hquarters, hproduct]
    refine (scale_le ?_).mp h
    omega

/-- Where a quotient is cut off above a number, a power of two is between the two. -/
theorem exists_power_between (m₂ : Nat) (h₁ : 0 < m₁) (hm : m < 2 ^ 53) (he : -1074 ≤ e)
    (hcoarse : e < quotientExponent m₁ e₁ m₂ e₂ - 2) :
    ∃ (e' : Int) (j k : Nat), -1074 ≤ e' ∧ quotientExponent m₁ e₁ m₂ e₂ ≤ e' ∧
      (j : Int) - k = e₁ - e₂ - e' ∧ 1 * m₂ * 2 ^ k ≤ m₁ * 2 ^ j ∧ magnitude m e ≤ magnitude 1 e' := by
  have hexp := quotientExponent_eq m₁ e₁ m₂ e₂
  obtain ⟨d, hd⟩ : ∃ d, d = quotientExponent m₁ e₁ m₂ e₂ := ⟨_, rfl⟩
  rw [← hd] at hcoarse hexp ⊢
  -- the quotient is not below `2 ^ (d + 50)`, and the number, of 53 bits from below `d - 2` on, is
  refine ⟨d + 50, (e₁ - e₂ - (d + 50)).toNat, (-(e₁ - e₂ - (d + 50))).toNat, by omega, by omega, by omega,
    ?_, ?_⟩
  · calc
      1 * m₂ * 2 ^ (-(e₁ - e₂ - (d + 50))).toNat ≤
          2 ^ (m₂.log2 + 1) * 2 ^ (-(e₁ - e₂ - (d + 50))).toNat := by
        rw [Nat.one_mul]
        exact Nat.mul_le_mul_right _ Nat.lt_log2_self.le
      _ = 2 ^ (m₂.log2 + 1 + (-(e₁ - e₂ - (d + 50))).toNat) := (Nat.pow_add ..).symm
      _ ≤ 2 ^ (m₁.log2 + (e₁ - e₂ - (d + 50)).toNat) := Nat.pow_le_pow_right (by decide) (by omega)
      _ = 2 ^ m₁.log2 * 2 ^ (e₁ - e₂ - (d + 50)).toNat := Nat.pow_add ..
      _ ≤ m₁ * 2 ^ (e₁ - e₂ - (d + 50)).toNat :=
        Nat.mul_le_mul_right _ (Nat.log2_self_le (Nat.pos_iff_ne_zero.mp h₁))
  · calc
      m * 2 ^ (e + 1074).toNat ≤ 2 ^ 53 * 2 ^ (e + 1074).toNat := Nat.mul_le_mul_right _ hm.le
      _ = 2 ^ (53 + (e + 1074).toNat) := (Nat.pow_add ..).symm
      _ ≤ 2 ^ (d + 50 + 1074).toNat := Nat.pow_le_pow_right (by decide) (by omega)
      _ = magnitude 1 (d + 50) := (Nat.one_mul _).symm

/-- A quotient is between any two numbers of the format that the exact one is between. -/
theorem hasUnits_div (e₁ e₂ : Int) (h₁ : 0 < m₁) (h₂ : 0 < m₂) :
    ∃ z : Nat, HasUnits (UnpackedFloat.div Format.binary64 (.finite .positive m₁ e₁ h₁)
        (.finite .positive m₂ e₂ h₂)) z ∧
      ∀ (m j k : Nat) (e : Int), m < 2 ^ 53 → -1074 ≤ e → (j : Int) - k = e₁ - e₂ - e →
        (m₁ * 2 ^ j ≤ m * m₂ * 2 ^ k → z ≤ magnitude m e) ∧
        (m * m₂ * 2 ^ k ≤ m₁ * 2 ^ j → magnitude m e ≤ z) := by
  -- `s` bits below the least exponent have room for the two that are kept of the rest
  obtain ⟨s, hs⟩ : ∃ s : Nat, s = (-(quotientExponent m₁ e₁ m₂ e₂ - 2 + 1074)).toNat := ⟨_, rfl⟩
  refine ⟨_, hasUnits_quotientCode (s := s) (by omega), ?_⟩
  intro m j k e hm he hjk
  constructor
  · intro h
    have hfine := quotientExponent_le h₁ hm he hjk h
    exact (quotientCode_bounds h₂ hm he (by omega) hjk (by omega)).1 h
  · intro h
    by_cases hfine : quotientExponent m₁ e₁ m₂ e₂ - 2 ≤ e
    · exact (quotientCode_bounds h₂ hm he hfine hjk (by omega)).2 h
    · obtain ⟨e', j', k', he', hfine', hjk', hle, hbetween⟩ :=
        exists_power_between m₂ h₁ hm he (not_le.mp hfine)
      refine Nat.le_trans hbetween ?_
      exact (quotientCode_bounds h₂ (by decide) he' (by omega) hjk' (by omega)).2 hle

end Quotient

section Bounds

variable {x y w : Float} {n d m j k : Nat} {e : Int}

theorem magnitude_mul_two_pow (m k : Nat) (he : -1074 ≤ e) :
    magnitude (m * 2 ^ k) e = magnitude m (e + k) := by
  rw [magnitude, magnitude, Nat.mul_assoc, ← Nat.pow_add]
  congr 2
  omega

/-- A quotient of natural numbers is between any two numbers that the exact one is between. -/
theorem level_divNat (hn : 0 < n) (hd : 0 < d) (hm : m < 2 ^ 53) (he : -1074 ≤ e) (htop : e ≤ 971)
    (hjk : (j : Int) - k = -e) :
    (n * 2 ^ j ≤ m * d * 2 ^ k → level (divNat n d) ≤ magnitude m e) ∧
      (m * d * 2 ^ k ≤ n * 2 ^ j → magnitude m e ≤ level (divNat n d)) := by
  obtain ⟨z, hz, hbounds⟩ := hasUnits_div 0 0 hn hd
  obtain ⟨hupper, hlower⟩ := hbounds m j k e hm he (by omega)
  have hlt := magnitude_lt_top hm htop
  have hlevel : level (divNat n d) = clamp z := by
    rw [divNat, dif_pos hn, dif_pos hd]
    exact (level_pack hz).2
  rw [hlevel, clamp]
  refine ⟨fun h => ?_, fun h => ?_⟩
  · have hle := hupper h
    omega
  · have hle := hlower h
    omega

theorem magnitude_eq_mul (n : Nat) (e : Int) : magnitude n e = n * magnitude 1 e := by
  rw [magnitude, magnitude, Nat.one_mul]

theorem ofNat_pos (hn : 0 < n) (hmax : n ≤ 2 ^ 53) : 0.0 < Float.ofNat n := by
  rw [lt_iff isNumber_zero (level_ofNat n).1, level_zero, level_ofNat_of_le hmax]
  exact Int.natCast_pos.mpr (magnitude_pos hn 0)

/-- The number is between zero and a whole one. -/
structure IsUpTo (n : Nat) (x : Float) : Prop where
  nonneg : 0.0 ≤ x
  le : x ≤ Float.ofNat n

theorem isUpTo_ofNat (n : Nat) : IsUpTo n (Float.ofNat n) :=
  ⟨zero_le_ofNat n, le_self (level_ofNat n).1⟩

theorem isUpTo_of_level (hn : n ≤ 2 ^ 53) (hx : IsNumber x) (hnonneg : 0 ≤ level x)
    (hle : level x ≤ magnitude n 0) : IsUpTo n x := by
  refine ⟨?_, ?_⟩
  · rw [le_iff isNumber_zero hx, level_zero]
    exact hnonneg
  · rw [le_iff hx (level_ofNat n).1, level_ofNat_of_le hn]
    exact hle

namespace IsUpTo

theorem level_nonneg (h : IsUpTo n x) : 0 ≤ level x := level_le h.nonneg

theorem level_le (h : IsUpTo n x) (hn : n ≤ 2 ^ 53) : level x ≤ magnitude n 0 := by
  rw [← level_ofNat_of_le hn]
  exact Binary64.level_le h.le

theorem isFinite (h : IsUpTo n x) (hn : n ≤ 2 ^ 53) : x.isFinite = true :=
  isFinite_of_le h.nonneg h.le (isFinite_ofNat hn)

theorem mono (h : IsUpTo m x) (hmn : m ≤ n) : IsUpTo n x :=
  ⟨h.nonneg, Binary64.le_trans h.le (ofNat_le_ofNat hmn)⟩

theorem add (hx : IsUpTo m x) (hy : IsUpTo n y) (hmn : m + n ≤ 2 ^ 53) : IsUpTo (m + n) (x + y) := by
  obtain ⟨hnumber, hlevel⟩ := level_add_of_nonneg (zero_le_ofNat m) (zero_le_ofNat n)
  have hsum : Float.ofNat m + Float.ofNat n ≤ Float.ofNat (m + n) := by
    rw [le_iff hnumber (level_ofNat _).1, hlevel, level_ofNat_of_le (by omega), level_ofNat_of_le (by omega),
      (level_ofNat _).2, magnitude_add, ← Int.natCast_add, roundedInt_natCast]
  exact ⟨Binary64.add_nonneg hx.nonneg hy.nonneg,
    Binary64.le_trans (Binary64.add_le_add hx.nonneg hy.nonneg hx.le hy.le) hsum⟩

/-- What is left of a whole number. -/
theorem sub (h : IsUpTo n x) (hn : n ≤ 2 ^ 53) : IsUpTo n (Float.ofNat n - x) := by
  have hfinite := isFinite_ofNat hn
  obtain ⟨hnumber, hlevel⟩ := level_sub hfinite (h.isFinite hn)
  have hmono : clamp (roundedInt 0 0) ≤ clamp (roundedInt 0 (level (Float.ofNat n) - level x)) := by
    have hle := Binary64.level_le h.le
    exact clamp_roundedInt_mono 0 (by omega)
  rw [roundedInt_zero, clamp_zero, ← hlevel] at hmono
  refine ⟨?_, Binary64.sub_le_self hfinite h.nonneg (h.isFinite hn)⟩
  rw [le_iff isNumber_zero hnumber, level_zero]
  exact hmono

end IsUpTo

theorem isUpTo_divNat (hd : 0 < d) (hm : m < 2 ^ 53) (h : n ≤ m * d) : IsUpTo m (divNat n d) := by
  by_cases hn : n = 0
  · rw [hn, divNat, dif_neg (Nat.lt_irrefl 0)]
    exact ⟨le_self isNumber_zero, zero_le_ofNat m⟩
  · have hpos := Nat.pos_of_ne_zero hn
    obtain ⟨z, hz, -⟩ := hasUnits_div 0 0 hpos hd
    have hnumber : IsNumber (divNat n d) := by
      rw [divNat, dif_pos hpos, dif_pos hd]
      exact (level_pack hz).1
    have hupper := (level_divNat (m := m) (j := 0) (k := 0) (e := 0) hpos hd hm (by decide) (by decide)
      rfl).1 (by omega)
    have hlower := (level_divNat (m := 0) (j := 0) (k := 0) (e := 0) hpos hd (by decide) (by decide)
      (by decide) rfl).2 (by omega)
    have hzero : magnitude 0 0 = 0 := Nat.zero_mul _
    exact isUpTo_of_level hm.le hnumber (by omega) hupper

theorem unpack_of_pos (hx : 0.0 < x) (hx' : x.isFinite = true) :
    ∃ m e hm, x.toModel.unpack = .finite .positive m e hm ∧ level x = magnitude m e ∧ m < 2 ^ 53 ∧
      -1074 ≤ e := by
  have hpos := isPositive_iff.mp (decide_eq_true hx)
  have hcanonical := canonical_unpack x.toModel
  change x.toModel.unpack.isFinite = true at hx'
  rw [level]
  cases hxu : x.toModel.unpack with
  | infinity | notANumber =>
      rw [hxu] at hx'
      cases hx'
  | zero s =>
      rw [hxu] at hpos
      exact hpos.elim
  | finite s m e hm =>
      rw [hxu] at hpos hcanonical
      cases hpos
      exact ⟨m, e, hm, rfl, rfl, hcanonical.1, hcanonical.2.1⟩

theorem unpack_of_nonneg (hx : 0.0 ≤ x) (hx' : x.isFinite = true) :
    (∃ s, x.toModel.unpack = .zero s) ∨ 0.0 < x := by
  have hlevel := level_le hx
  rw [level_zero, level] at hlevel
  rw [lt_iff isNumber_zero (isNumber_of_isFinite hx'), level_zero, level]
  change x.toModel.unpack.isFinite = true at hx'
  cases hxu : x.toModel.unpack with
  | infinity | notANumber =>
      rw [hxu] at hx'
      cases hx'
  | zero s => exact Or.inl ⟨s, rfl⟩
  | finite s m e hm =>
      have hmag := magnitude_pos hm e
      rw [hxu] at hlevel
      cases s <;> simp only [units, UnpackedFloat.Sign.apply] at hlevel ⊢ <;> omega

theorem isUpTo_zero (s : Sign) : IsUpTo 0 (.ofModel (Float.Model.pack (.zero s))) := by
  obtain ⟨hnumber, hlevel⟩ := level_pack (hasUnits_zero s)
  rw [clamp_zero] at hlevel
  exact isUpTo_of_level (by decide) hnumber hlevel.ge (hlevel.le.trans (Int.natCast_nonneg _))

theorem isUpTo_div_infinity (hx : 0.0 ≤ x) (hx' : x.isFinite = true)
    (hy : y.toModel.unpack = .infinity .positive) : IsUpTo 0 (x / y) := by
  have hdiv : x / y = .ofModel (Float.Model.pack
      (UnpackedFloat.div Format.binary64 x.toModel.unpack (.infinity .positive))) := by
    rw [← hy]
    rfl
  rw [hdiv]
  rcases unpack_of_nonneg hx hx' with ⟨s, hxu⟩ | hpos
  · have hzero : UnpackedFloat.div Format.binary64 (.zero s) (.infinity .positive) =
        .zero (s / .positive) := rfl
    rw [hxu, hzero]
    exact isUpTo_zero _
  · obtain ⟨m, e, hm, hxu, -⟩ := unpack_of_pos hpos hx'
    have hzero : UnpackedFloat.div Format.binary64 (.finite .positive m e hm) (.infinity .positive) =
        .zero (.positive / .positive) := rfl
    rw [hxu, hzero]
    exact isUpTo_zero _

/-- The quotient of a number that is at most so many times another one by that one. -/
theorem isUpTo_div (hx : 0.0 ≤ x) (hx' : x.isFinite = true) (hy : 0.0 < y) (hn : n < 2 ^ 53)
    (h : level x ≤ n * level y) : IsUpTo n (x / y) := by
  have hyzero : 0.0 ≤ y := Binary64.le_of_lt hy
  rcases isFinite_or_infinity hyzero with hy' | hinfinite
  · obtain ⟨m₂, e₂, hm₂, hyu, hylevel, -, he₂⟩ := unpack_of_pos hy hy'
    have hdiv : x / y = .ofModel (Float.Model.pack
        (UnpackedFloat.div Format.binary64 x.toModel.unpack (.finite .positive m₂ e₂ hm₂))) := by
      rw [← hyu]
      rfl
    rw [hdiv]
    rcases unpack_of_nonneg hx hx' with ⟨s, hxu⟩ | hpos
    · have hzero : UnpackedFloat.div Format.binary64 (.zero s) (.finite .positive m₂ e₂ hm₂) =
          .zero (s / .positive) := rfl
      rw [hxu, hzero]
      exact (isUpTo_zero _).mono (Nat.zero_le n)
    · obtain ⟨m₁, e₁, hm₁, hxu, hxlevel, -, he₁⟩ := unpack_of_pos hpos hx'
      obtain ⟨z, hz, hbounds⟩ := hasUnits_div e₁ e₂ hm₁ hm₂
      obtain ⟨hnumber, hlevel⟩ := level_pack hz
      have hexact : m₁ * 2 ^ (e₁ + 1074).toNat ≤ n * m₂ * 2 ^ (e₂ + 1074).toNat := by
        rw [hxlevel, hylevel] at h
        rw [Nat.mul_assoc]
        exact Int.ofNat_le.mp h
      have hle : z ≤ magnitude n 0 := (hbounds n _ _ 0 hn (by decide) (by omega)).1 hexact
      rw [clamp] at hlevel
      rw [hxu]
      exact isUpTo_of_level hn.le hnumber (by omega) (by omega)
  · exact (isUpTo_div_infinity hx hx' hinfinite).mono (Nat.zero_le n)

theorem mul_magnitude (z : Int) (n : Nat) {s : Nat} (hs : s = 1074) :
    z * magnitude n 0 = z * n * 2 ^ s := by
  have hexp : (0 + 1074 : Int).toNat = s := hs.symm
  rw [magnitude, hexp, Nat.cast_mul, Nat.cast_pow, Nat.cast_ofNat, mul_assoc]

/-- The product with a whole number is no greater than a whole number that the exact one is not above. -/
theorem isUpTo_mul_ofNat (hx : 0.0 ≤ x) (hx' : x.isFinite = true) (hk : k ≤ 2 ^ 53) (hn : n ≤ 2 ^ 53)
    (h : level x * k ≤ magnitude n 0) : IsUpTo n (x * Float.ofNat k) := by
  -- behind a name, or the powers of two are computed
  obtain ⟨s, hs⟩ : ∃ s, s = 1074 := ⟨_, rfl⟩
  obtain ⟨hnumber, hlevel⟩ := level_mul hx' (isFinite_ofNat hk)
  have hnonneg : 0 ≤ level x * k := Int.mul_nonneg (level_le hx) (Int.natCast_nonneg k)
  have hlow := clamp_roundedInt_mono 0 hnonneg
  have hhigh := clamp_roundedInt_mono 0 h
  rw [level_ofNat_of_le hk, mul_magnitude _ k hs, ← hs, roundedInt_mul_two_pow] at hlevel
  rw [roundedInt_zero, clamp_zero, ← hlevel] at hlow
  rw [roundedInt_natCast, rounded_whole hn, clamp_of_lt (magnitude_lt_top_of_le hn), ← hlevel] at hhigh
  exact isUpTo_of_level hn hnumber hlow hhigh

/-- The product with a number up to a power of two is at most so many times the other number. -/
theorem level_mul_le (hx : IsUpTo (2 ^ k) x) (hk : k ≤ 53) (hw : 0.0 < w) (hw' : w.isFinite = true) :
    level (x * w) ≤ level w * 2 ^ k := by
  obtain ⟨s, hs⟩ : ∃ s, s = 1074 := ⟨_, rfl⟩
  have hpower : 2 ^ k ≤ 2 ^ 53 := Nat.pow_le_pow_right (by decide) hk
  obtain ⟨m, e, hm, -, hwlevel, hmbits, he⟩ := unpack_of_pos hw hw'
  have hscaled : level w * 2 ^ k = (magnitude m (e + k) : Nat) := by
    rw [hwlevel, ← magnitude_mul_two_pow m k he, magnitude, magnitude]
    push_cast
    ring
  have hproduct : level x * level w ≤ level w * 2 ^ k * 2 ^ s := by
    have hnonneg : 0 ≤ level w := by
      rw [hwlevel]
      exact Int.natCast_nonneg _
    have hle := Int.mul_le_mul_of_nonneg_left (hx.level_le hpower) hnonneg
    rw [mul_magnitude _ _ hs, Nat.cast_pow, Nat.cast_ofNat] at hle
    rwa [mul_comm]
  have hround := clamp_roundedInt_mono s hproduct
  rw [roundedInt_mul_two_pow, hscaled, roundedInt_natCast, rounded_magnitude hmbits] at hround
  rw [(level_mul (hx.isFinite hpower) hw').2, ← hs, hscaled]
  refine hround.trans ?_
  rw [clamp]
  omega

end Bounds
end Wireframe.Binary64
