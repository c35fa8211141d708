import Wireframe.Proofs.FloatRounding
import Wireframe.Proofs.FloatUnits

/-! Rounding keeps the order. In units a rounded number is a function of the exact one alone, whatever
mantissa and exponent it is given by (`hasUnits_roundWithAccuracy`), and this function is monotone
(`roundedInt_mono`). The units of sums, differences and products are this function of the exact ones
(`hasUnits_add`, `hasUnits_sub`, `hasUnits_mul`). -/

namespace Wireframe.Binary64

open Float.Model (Format UnpackedFloat)
open Float.Model.UnpackedFloat (Sign Accuracy ExtendedMantissa shiftToTargetExponent roundWithAccuracy
  round)

section Shift

/-- The mantissa with its two residual bits as one number. -/
def code (em : ExtendedMantissa) : Nat := 4 * em.mantissa + 2 * em.roundBit.toNat + em.stickyBit.toNat

theorem code_shiftRightOne (em : ExtendedMantissa) :
    code em.shiftRightOne = 2 * em.mantissa + (em.roundBit || em.stickyBit).toNat := by
  obtain ⟨m, r, s⟩ := em
  simp only [code, ExtendedMantissa.shiftRightOne]
  rcases Nat.mod_two_eq_zero_or_one m with h | h <;> simp [h] <;> omega

theorem code_shiftRightOne_le {a b : ExtendedMantissa} (h : code a ≤ code b) :
    code a.shiftRightOne ≤ code b.shiftRightOne := by
  rw [code_shiftRightOne, code_shiftRightOne]
  obtain ⟨m, r, s⟩ := a
  obtain ⟨m', r', s'⟩ := b
  simp only [code] at h ⊢
  cases r <;> cases s <;> cases r' <;> cases s' <;> simp at h ⊢ <;> omega

theorem shiftRight_succ (em : ExtendedMantissa) (k : Nat) :
    em >>> (k + 1) = (em >>> k).shiftRightOne := rfl

theorem shiftRight_add (em : ExtendedMantissa) (j k : Nat) : em >>> (j + k) = (em >>> j) >>> k := by
  induction k with
  | zero => rfl
  | succ k ih => rw [← Nat.add_assoc, shiftRight_succ, ih, shiftRight_succ]

theorem code_shiftRight_le {a b : ExtendedMantissa} (h : code a ≤ code b) (k : Nat) :
    code (a >>> k) ≤ code (b >>> k) := by
  induction k with
  | zero => exact h
  | succ k ih => exact code_shiftRightOne_le ih

theorem roundedMantissa_le {a b : ExtendedMantissa} (h : code a ≤ code b) :
    a.roundedMantissa ≤ b.roundedMantissa := by
  obtain ⟨m, r, s⟩ := a
  obtain ⟨m', r', s'⟩ := b
  simp only [code] at h
  cases r <;> cases s <;> cases r' <;> cases s' <;>
    simp [ExtendedMantissa.roundedMantissa, ExtendedMantissa.accuracy, Accuracy.roundToNearestEven] at h ⊢ <;>
    omega

/-- The mantissa without its last `k` bits, rounded to the nearest, a tie to the even one. -/
def nearest (m k : Nat) : Nat :=
  (ExtendedMantissa.ofMantissaAndAccuracy m .exact >>> k).roundedMantissa

theorem nearest_mono {m n : Nat} (h : m ≤ n) (k : Nat) : nearest m k ≤ nearest n k := by
  refine roundedMantissa_le (code_shiftRight_le ?_ k)
  simp only [code, ExtendedMantissa.ofMantissaAndAccuracy]
  omega

theorem nearest_bounds (m k : Nat) : m / 2 ^ k ≤ nearest m k ∧ nearest m k ≤ m / 2 ^ k + 1 := by
  have h := roundedMantissa_bounds (ExtendedMantissa.ofMantissaAndAccuracy m .exact >>> k)
  rwa [mantissa_shiftRight, mantissa_ofMantissaAndAccuracy] at h

theorem nearest_zero (m : Nat) : nearest m 0 = m := rfl

theorem shiftRight_mul_two_pow (m j : Nat) :
    ExtendedMantissa.ofMantissaAndAccuracy (m * 2 ^ j) .exact >>> j =
      ExtendedMantissa.ofMantissaAndAccuracy m .exact := by
  induction j generalizing m with
  | zero =>
      rw [Nat.pow_zero, Nat.mul_one]
      rfl
  | succ j ih =>
      have hpow : m * 2 ^ (j + 1) = 2 * m * 2 ^ j := by
        rw [Nat.pow_succ]
        ring
      rw [hpow, shiftRight_succ, ih]
      simp [ExtendedMantissa.ofMantissaAndAccuracy, ExtendedMantissa.shiftRightOne]

/-- Zeros at the end of a mantissa are taken off without rounding. -/
theorem nearest_mul_two_pow (m j k : Nat) : nearest (m * 2 ^ j) (j + k) = nearest m k := by
  rw [nearest, shiftRight_add, shiftRight_mul_two_pow]
  rfl

end Shift

section Rounded

/-- The last bits that a mantissa of so many bits loses, where `s` are lost in any case. -/
def excess (s n : Nat) : Nat := max (n.log2 - 52) s

/-- A number in units of `2 ^ -(1074 + s)`, rounded, in units of `2 ^ -1074`. -/
def rounded (s n : Nat) : Nat := nearest n (excess s n) * 2 ^ (excess s n - s)

variable {s m n : Nat}

theorem log2_mono (h : m ≤ n) : m.log2 ≤ n.log2 := by
  by_cases hm : m = 0
  · subst hm
    exact Nat.zero_le _
  · exact (Nat.le_log2 (by omega)).mpr (Nat.le_trans (Nat.log2_self_le hm) h)

theorem nearest_le_of_excess (s n : Nat) : nearest n (excess s n) ≤ 2 ^ 53 := by
  have hdiv := div_two_pow_lt n (excess s n) (by rw [excess]; omega)
  have hbounds := (nearest_bounds n (excess s n)).2
  omega

theorem le_nearest_of_excess (h : s < excess s n) : 2 ^ 52 ≤ nearest n (excess s n) := by
  have hlog : n.log2 = 52 + excess s n := by
    rw [excess] at h ⊢
    omega
  have hne : n ≠ 0 := by
    rintro rfl
    rw [excess] at h
    simp at h
  refine Nat.le_trans ?_ (nearest_bounds n (excess s n)).1
  rw [Nat.le_div_iff_mul_le (Nat.two_pow_pos _), ← Nat.pow_add, ← hlog]
  exact Nat.log2_self_le hne

/-- Rounding keeps the order of numbers. -/
theorem rounded_mono (s : Nat) (h : m ≤ n) : rounded s m ≤ rounded s n := by
  have hlog := log2_mono h
  have hexcess : excess s m ≤ excess s n := by
    rw [excess, excess]
    omega
  rcases Nat.eq_or_lt_of_le hexcess with heq | hlt
  · rw [rounded, rounded, heq]
    exact Nat.mul_le_mul_right _ (nearest_mono h _)
  · -- the greater number has more bits, and a carry of the smaller one does not reach it
    have hs : s ≤ excess s m := Nat.le_max_right _ _
    calc
      nearest m (excess s m) * 2 ^ (excess s m - s) ≤ 2 ^ 53 * 2 ^ (excess s m - s) :=
        Nat.mul_le_mul_right _ (nearest_le_of_excess s m)
      _ = 2 ^ (53 + (excess s m - s)) := (Nat.pow_add ..).symm
      _ ≤ 2 ^ (52 + (excess s n - s)) := Nat.pow_le_pow_right (by decide) (by omega)
      _ = 2 ^ 52 * 2 ^ (excess s n - s) := Nat.pow_add ..
      _ ≤ nearest n (excess s n) * 2 ^ (excess s n - s) :=
        Nat.mul_le_mul_right _ (le_nearest_of_excess (by omega))

theorem rounded_zero (s : Nat) : rounded s 0 = 0 := by
  have h := nearest_mul_two_pow 0 (excess s 0) 0
  rw [Nat.zero_mul, Nat.add_zero, nearest_zero] at h
  rw [rounded, h, Nat.zero_mul]

theorem log2_mul_two_pow (hm : 0 < m) (k : Nat) : (m * 2 ^ k).log2 = m.log2 + k := by
  have hne : m ≠ 0 := Nat.pos_iff_ne_zero.mp hm
  rw [Nat.log2_eq_iff (Nat.pos_iff_ne_zero.mp (Nat.mul_pos hm (Nat.two_pow_pos k))), Nat.pow_add]
  refine ⟨Nat.mul_le_mul_right _ (Nat.log2_self_le hne), ?_⟩
  rw [Nat.add_right_comm, Nat.pow_add]
  exact Nat.mul_lt_mul_of_pos_right Nat.lt_log2_self (Nat.two_pow_pos k)

end Rounded

section Results

variable {m : Nat} {e : Int}

/-- A mantissa that fits its bits is not shifted. -/
theorem shiftToTargetExponent_of_lt (hm : m < 2 ^ 53) (he : -1074 ≤ e) :
    (shiftToTargetExponent Format.binary64 m e .exact).1.mantissa = m ∧
      (shiftToTargetExponent Format.binary64 m e .exact).2 = e := by
  have hlog : m.log2 ≤ 52 := by
    by_cases hzero : m = 0
    · subst hzero
      exact Nat.zero_le _
    · exact Nat.lt_succ_iff.mp ((Nat.log2_lt hzero).mpr hm)
  have htarget := target_eq m e
  have hnone : (target m e - e).toNat = 0 := by omega
  obtain ⟨hmantissa, hexponent⟩ := shiftToTargetExponent_eq m e .exact
  rw [hnone, Nat.pow_zero, Nat.div_one] at hmantissa
  exact ⟨hmantissa, hexponent.trans (by omega)⟩

/-- A mantissa that a carry has made a bit too long is halved. -/
theorem shiftToTargetExponent_carry (he : -1074 ≤ e) :
    (shiftToTargetExponent Format.binary64 (2 ^ 53) e .exact).1.mantissa = 2 ^ 52 ∧
      (shiftToTargetExponent Format.binary64 (2 ^ 53) e .exact).2 = e + 1 := by
  have hlog : (2 ^ 53).log2 = 53 := Nat.log2_two_pow
  have htarget := target_eq (2 ^ 53) e
  have hone : (target (2 ^ 53) e - e).toNat = 1 := by omega
  have hhalf : (2 ^ 53 : Nat) / 2 ^ 1 = 2 ^ 52 := by decide
  obtain ⟨hmantissa, hexponent⟩ := shiftToTargetExponent_eq (2 ^ 53) e .exact
  rw [hone, hhalf] at hmantissa
  exact ⟨hmantissa, hexponent.trans (by omega)⟩

/-- A number whose last bits are rounded off at its target, and once more where a carry makes it too
long. -/
theorem roundWithAccuracy_eq (sign : Sign) (he : e ≤ target m e) :
    ∃ r, r = nearest m (target m e - e).toNat ∧
      (r = 0 ∧ roundWithAccuracy Format.binary64 sign m e .exact = .zero sign ∨
        r < 2 ^ 53 ∧ (∃ h, roundWithAccuracy Format.binary64 sign m e .exact =
          .finite sign r (target m e) h) ∨
        r = 2 ^ 53 ∧ ∃ h, roundWithAccuracy Format.binary64 sign m e .exact =
          .finite sign (2 ^ 52) (target m e + 1) h) := by
  have htarget := target_eq m e
  have hmost := div_two_pow_lt m (target m e - e).toNat (by omega)
  have hbounds := nearest_bounds m (target m e - e).toNat
  have hshift : (shiftToTargetExponent Format.binary64 m e .exact).1.roundedMantissa =
      nearest m (target m e - e).toNat := rfl
  have hexp : (shiftToTargetExponent Format.binary64 m e .exact).2 = target m e := by
    rw [(shiftToTargetExponent_eq m e .exact).2]
    omega
  refine ⟨_, rfl, ?_⟩
  generalize nearest m (target m e - e).toNat = r at hbounds hshift ⊢
  simp only [roundWithAccuracy, hshift, hexp]
  by_cases hlt : r < 2 ^ 53
  · obtain ⟨hmantissa, hexponent⟩ := shiftToTargetExponent_of_lt hlt (e := target m e) (by omega)
    split
    · next hzero => exact Or.inl ⟨hmantissa.symm.trans hzero, rfl⟩
    · next hpos =>
      rw [hmantissa] at hpos
      refine Or.inr (Or.inl ⟨hlt, Nat.pos_of_ne_zero hpos, ?_⟩)
      rw [UnpackedFloat.finite.injEq]
      exact ⟨rfl, hmantissa, hexponent⟩
  · obtain rfl : r = 2 ^ 53 := by omega
    obtain ⟨hmantissa, hexponent⟩ := shiftToTargetExponent_carry (e := target m e) (by omega)
    split
    · next hzero =>
      rw [hmantissa] at hzero
      exact absurd hzero (by decide)
    · refine Or.inr (Or.inr ⟨rfl, by decide, ?_⟩)
      rw [UnpackedFloat.finite.injEq]
      exact ⟨rfl, hmantissa, hexponent⟩

/-- In units a rounded number depends on the exact one alone: `s` counts the bits of the exact one below
the units. -/
theorem hasUnits_roundWithAccuracy (sign : Sign) (hm : 0 < m) (he : e ≤ target m e) {s : Nat}
    (hs : -(1074 + s : Int) ≤ e) :
    HasUnits (roundWithAccuracy Format.binary64 sign m e .exact)
      (sign.apply (rounded s (m * 2 ^ (e + 1074 + s).toNat))) := by
  have htarget := target_eq m e
  have hlog := log2_mul_two_pow hm (e + 1074 + s).toNat
  have hexcess : excess s (m * 2 ^ (e + 1074 + s).toNat) =
      (e + 1074 + s).toNat + (target m e - e).toNat := by
    rw [excess, hlog]
    omega
  have hrounded : rounded s (m * 2 ^ (e + 1074 + s).toNat) =
      nearest m (target m e - e).toNat * 2 ^ (target m e + 1074).toNat := by
    rw [rounded, hexcess, nearest_mul_two_pow]
    congr 2
    omega
  have hfull : target m e = -1074 ∨ 2 ^ 52 ≤ nearest m (target m e - e).toNat := by
    by_cases hleast : target m e = -1074
    · exact Or.inl hleast
    · right
      refine Nat.le_trans ?_ (nearest_bounds m _).1
      rw [Nat.le_div_iff_mul_le (Nat.two_pow_pos _), ← Nat.pow_add]
      refine Nat.le_trans (Nat.pow_le_pow_right (by decide) ?_)
        (Nat.log2_self_le (Nat.pos_iff_ne_zero.mp hm))
      omega
  rw [hrounded]
  obtain ⟨r, hr, ⟨hzero, hround⟩ | ⟨hlt, h, hround⟩ | ⟨hcarry, h, hround⟩⟩ :=
    roundWithAccuracy_eq sign he
  · have hnone : sign.apply ((0 : Nat) : Int) = 0 := by cases sign <;> rfl
    rw [hround, ← hr, hzero, Nat.zero_mul, hnone]
    exact hasUnits_zero _
  · rw [hround, ← hr]
    rw [← hr] at hfull
    exact hasUnits_of_isFinite (u := .finite sign r (target m e) h) ⟨hlt, by omega, by omega⟩ rfl
  · have hsame : magnitude (2 ^ 52) (target m e + 1) = 2 ^ 53 * 2 ^ (target m e + 1074).toNat := by
      rw [magnitude, ← Nat.pow_add, ← Nat.pow_add]
      congr 1
      omega
    rw [hround, ← hr, hcarry, ← hsame]
    exact hasUnits_of_isFinite (u := .finite sign (2 ^ 52) (target m e + 1) h)
      ⟨by decide, by omega, Or.inl (Nat.le_refl _)⟩ rfl

theorem target_shiftLeft (hm : 0 < m) (k : Nat) : target (m <<< k) (e - k) = target m e := by
  rw [target_eq, target_eq, Nat.shiftLeft_eq, log2_mul_two_pow hm]
  omega

theorem hasUnits_round (sign : Sign) (hm : 0 < m) (he : -1074 ≤ e) :
    HasUnits (round Format.binary64 sign m e) (sign.apply (rounded 0 (magnitude m e))) := by
  have htarget := target_eq m e
  have hshift : target (m <<< (e - target m e).toNat) (e - (e - target m e).toNat) = target m e :=
    target_shiftLeft hm _
  have hsame : m <<< (e - target m e).toNat *
      2 ^ (e - (e - target m e).toNat + 1074 + (0 : Nat)).toNat = magnitude m e := by
    rw [Nat.shiftLeft_eq, Nat.mul_assoc, ← Nat.pow_add, magnitude]
    congr 2
    omega
  have h := hasUnits_roundWithAccuracy sign (shiftLeft_pos hm (e - target m e).toNat)
    (e := e - (e - target m e).toNat) (by omega) (s := 0) (by omega)
  rw [hsame] at h
  exact h

end Results

section Signed

variable {s : Nat} {z z' e : Int}

/-- A whole number with its sign, rounded. -/
def roundedInt (s : Nat) : Int → Int
  | .ofNat n => rounded s n
  | .negSucc n => -(rounded s (n + 1) : Int)

theorem roundedInt_natCast (s n : Nat) : roundedInt s n = rounded s n := rfl

theorem roundedInt_zero (s : Nat) : roundedInt s 0 = 0 := congrArg Int.ofNat (rounded_zero s)

theorem roundedInt_apply (s : Nat) (sign : Sign) (n : Nat) :
    roundedInt s (sign.apply n) = sign.apply (rounded s n) := by
  cases sign with
  | positive => rfl
  | negative =>
      cases n with
      | zero =>
          show (rounded s 0 : Int) = -(rounded s 0 : Int)
          rw [rounded_zero]
          rfl
      | succ n => rfl

theorem roundedInt_mono (s : Nat) (h : z ≤ z') : roundedInt s z ≤ roundedInt s z' := by
  cases z with
  | ofNat n =>
      cases z' with
      | ofNat n' => exact Int.ofNat_le.mpr (rounded_mono s (Int.ofNat_le.mp h))
      | negSucc n' =>
          have hle := Int.le_trans (Int.natCast_nonneg n) h
          exact absurd hle (Int.not_le.mpr (Int.negSucc_lt_zero n'))
  | negSucc n =>
      cases z' with
      | ofNat n' =>
          simp only [roundedInt]
          omega
      | negSucc n' =>
          have hle : rounded s (n' + 1) ≤ rounded s (n + 1) := rounded_mono s (by omega)
          simp only [roundedInt]
          omega

/-- A number is rounded from its mantissa with a sign. -/
theorem hasUnits_normalize (he : -1074 ≤ e) (zeroSign : Sign) :
    HasUnits (UnpackedFloat.normalize Format.binary64 z e zeroSign)
      (roundedInt 0 (z * 2 ^ (e + 1074).toNat)) := by
  rw [UnpackedFloat.normalize]
  split
  · next hlt =>
    rw [compare_lt_iff_lt] at hlt
    obtain ⟨n, rfl⟩ : ∃ n : Nat, z = -(n : Int) := ⟨z.natAbs, by omega⟩
    have hexact : -(n : Int) * 2 ^ (e + 1074).toNat = Sign.negative.apply (magnitude n e) := by
      rw [Sign.apply, magnitude, Nat.cast_mul, Nat.cast_pow, Nat.cast_ofNat, Int.neg_mul]
    rw [Int.neg_neg, Int.toNat_natCast, hexact, roundedInt_apply]
    exact hasUnits_round .negative (by omega) he
  · next heq =>
    rw [compare_eq_iff_eq] at heq
    rw [heq, Int.zero_mul, roundedInt_zero]
    exact hasUnits_zero _
  · next hgt =>
    rw [compare_gt_iff_gt] at hgt
    obtain ⟨n, rfl⟩ : ∃ n : Nat, z = n := ⟨z.toNat, by omega⟩
    have hexact : (n : Int) * 2 ^ (e + 1074).toNat = Sign.positive.apply (magnitude n e) := by
      rw [Sign.apply, magnitude, Nat.cast_mul, Nat.cast_pow, Nat.cast_ofNat]
    rw [Int.toNat_natCast, hexact, roundedInt_apply]
    exact hasUnits_round .positive (by omega) he

end Signed

section Operations

variable {u v : UnpackedFloat} {m : Nat} {e : Int}

/-- Bits below the units that are all zero do not matter. -/
theorem rounded_mul_two_pow (s n : Nat) : rounded s (n * 2 ^ s) = rounded 0 n := by
  by_cases hn : n = 0
  · rw [hn, Nat.zero_mul, rounded_zero, rounded_zero]
  · have hlog := log2_mul_two_pow (Nat.pos_of_ne_zero hn) s
    have hexcess : excess s (n * 2 ^ s) = s + excess 0 n := by
      rw [excess, excess, hlog]
      omega
    rw [rounded, rounded, hexcess, nearest_mul_two_pow, Nat.add_sub_cancel_left, Nat.sub_zero]

theorem roundedInt_mul_two_pow (s : Nat) (z : Int) :
    roundedInt s (z * 2 ^ s) = roundedInt 0 z := by
  obtain ⟨n, rfl | rfl⟩ := z.eq_nat_or_neg
  · have hsame := rounded_mul_two_pow s n
    have hcast : (n : Int) * 2 ^ s = ((n * 2 ^ s : Nat) : Int) := by simp
    rw [hcast, roundedInt_natCast, roundedInt_natCast, hsame]
  · have hsame := rounded_mul_two_pow s n
    have hcast : -(n : Int) * 2 ^ s = Sign.negative.apply ((n * 2 ^ s : Nat) : Int) := by
      simp [Sign.apply]
    have hneg : -(n : Int) = Sign.negative.apply (n : Int) := rfl
    rw [hcast, hneg, roundedInt_apply, roundedInt_apply, hsame]

/-- The numbers of the format are not changed by rounding. -/
theorem rounded_magnitude (hm : m < 2 ^ 53) (e : Int) : rounded 0 (magnitude m e) = magnitude m e := by
  by_cases hzero : m = 0
  · rw [hzero, magnitude, Nat.zero_mul, rounded_zero]
  · have hlog : m.log2 < 53 := (Nat.log2_lt hzero).mpr hm
    have hexcess : excess 0 (magnitude m e) ≤ (e + 1074).toNat := by
      rw [excess, magnitude, log2_mul_two_pow (Nat.pos_of_ne_zero hzero)]
      omega
    have hsplit : magnitude m e =
        m * 2 ^ ((e + 1074).toNat - excess 0 (magnitude m e)) * 2 ^ excess 0 (magnitude m e) := by
      rw [Nat.mul_assoc, ← Nat.pow_add, Nat.sub_add_cancel hexcess, ← magnitude]
    rw [rounded, Nat.sub_zero]
    have hnearest := nearest_mul_two_pow
      (m * 2 ^ ((e + 1074).toNat - excess 0 (magnitude m e))) (excess 0 (magnitude m e)) 0
    rw [Nat.add_zero, ← hsplit, nearest_zero] at hnearest
    rw [hnearest, ← hsplit]

theorem roundedInt_units (hu : Canonical u) : roundedInt 0 (units u) = units u := by
  cases u with
  | finite s m e hm => rw [units, roundedInt_apply, rounded_magnitude hu.1]
  | infinity s => rw [units, roundedInt_apply, top, rounded_magnitude (by decide)]
  | zero | notANumber => exact roundedInt_zero 0

/-- The units of a mantissa with its sign that is written at a smaller exponent. -/
theorem apply_shiftLeft (s : Sign) (m : Nat) {e e' : Int} (h : e' ≤ e) (he : -1074 ≤ e') :
    s.apply (m <<< (e - e').toNat : Nat) * 2 ^ (e' + 1074).toNat = s.apply (magnitude m e) := by
  have hsame : (m <<< (e - e').toNat) * 2 ^ (e' + 1074).toNat = magnitude m e := by
    rw [Nat.shiftLeft_eq, Nat.mul_assoc, ← Nat.pow_add, magnitude]
    congr 2
    omega
  rw [← hsame]
  cases s <;> simp [Sign.apply]

/-- The sum of two numbers is the exact one, rounded. -/
theorem hasUnits_add (hu : Canonical u) (hv : Canonical v) (hu' : u.isFinite = true)
    (hv' : v.isFinite = true) :
    HasUnits (UnpackedFloat.add Format.binary64 u v) (roundedInt 0 (units u + units v)) := by
  cases u with
  | infinity s => cases hu'
  | notANumber => cases hu'
  | zero s =>
      cases v with
      | infinity s' => cases hv'
      | notANumber => cases hv'
      | zero s' =>
          rw [units.eq_3, units.eq_3, Int.add_zero, roundedInt_zero]
          cases s <;> cases s' <;> exact hasUnits_zero _
      | finite s' m' e' hm' =>
          rw [units.eq_3, Int.zero_add, roundedInt_units hv]
          exact hasUnits_of_isFinite hv rfl
  | finite s m e hm =>
      cases v with
      | infinity s' => cases hv'
      | notANumber => cases hv'
      | zero s' =>
          rw [units.eq_3, Int.add_zero, roundedInt_units hu]
          exact hasUnits_of_isFinite hu rfl
      | finite s' m' e' hm' =>
          have hleast : -1074 ≤ min e e' := by
            have := hu.2.1
            have := hv.2.1
            omega
          have hsum := hasUnits_normalize (z := s.apply (m <<< (e - min e e').toNat : Nat) +
            s'.apply (m' <<< (e' - min e e').toNat : Nat)) hleast .positive
          rw [Int.add_mul, apply_shiftLeft s m (by omega) hleast, apply_shiftLeft s' m' (by omega) hleast]
            at hsum
          exact hsum

theorem apply_neg (s : Sign) (z : Int) : (-s).apply z = -s.apply z := by
  cases s with
  | negative => exact (Int.neg_neg z).symm
  | positive => rfl

theorem units_neg (u : UnpackedFloat) : units u.neg = -units u := by
  cases u with
  | finite s m e hm => exact apply_neg s _
  | infinity s => exact apply_neg s _
  | zero s => rfl
  | notANumber => rfl

theorem canonical_neg (hu : Canonical u) : Canonical u.neg := by
  cases u with
  | finite s m e hm => exact hu
  | infinity | zero | notANumber => trivial

theorem isFinite_neg (u : UnpackedFloat) : u.neg.isFinite = u.isFinite := by
  cases u <;> rfl

/-- A difference is the sum with the other number of the opposite sign. -/
theorem sub_eq (u v : UnpackedFloat) :
    UnpackedFloat.sub Format.binary64 u v = UnpackedFloat.add Format.binary64 u v.neg := by
  cases u with
  | notANumber => rfl
  | infinity s => cases v <;> rfl
  | zero s => cases v <;> rfl
  | finite s m e hm =>
      cases v with
      | finite s' m' e' hm' =>
          simp only [UnpackedFloat.sub, UnpackedFloat.add, UnpackedFloat.neg, apply_neg, Int.sub_eq_add_neg]
      | infinity | zero | notANumber => rfl

theorem hasUnits_sub (hu : Canonical u) (hv : Canonical v) (hu' : u.isFinite = true)
    (hv' : v.isFinite = true) :
    HasUnits (UnpackedFloat.sub Format.binary64 u v) (roundedInt 0 (units u - units v)) := by
  rw [sub_eq, Int.sub_eq_add_neg, ← units_neg]
  exact hasUnits_add hu (canonical_neg hv) hu' ((isFinite_neg v).trans hv')

theorem apply_mul (s s' : Sign) (y z : Int) : (s * s').apply (y * z) = s.apply y * s'.apply z := by
  cases s <;> cases s'
  · exact (Int.neg_mul_neg y z).symm
  · exact (Int.neg_mul y z).symm
  · exact (Int.mul_neg y z).symm
  · rfl

theorem le_log2_mul {m n k : Nat} (hm : 2 ^ k ≤ m) (hn : 0 < n) : k ≤ (m * n).log2 := by
  have hle : 2 ^ k ≤ m * n := Nat.le_trans hm (Nat.le_mul_of_pos_right m hn)
  exact (Nat.le_log2 (by have := Nat.two_pow_pos k; omega)).mpr hle

/-- No bits of a product of two mantissas stand above their target. -/
theorem le_target_mul {m' : Nat} {e' : Int} (hm : 0 < m) (hm' : 0 < m')
    (hfull : 2 ^ 52 ≤ m ∨ e = -1074) (hfull' : 2 ^ 52 ≤ m' ∨ e' = -1074) :
    e + e' ≤ target (m * m') (e + e') := by
  rw [target_eq]
  rcases hfull with hfull | hleast
  · have hlog := le_log2_mul hfull hm'
    omega
  rcases hfull' with hfull' | hleast'
  · have hlog := le_log2_mul hfull' hm
    rw [Nat.mul_comm] at hlog
    omega
  · omega

theorem magnitude_mul {m' : Nat} {e' : Int} (he : -1074 ≤ e) (he' : -1074 ≤ e') :
    m * m' * 2 ^ (e + e' + 1074 + (1074 : Nat)).toNat = magnitude m e * magnitude m' e' := by
  rw [magnitude, magnitude, Nat.mul_mul_mul_comm, ← Nat.pow_add]
  congr 2
  omega

/-- The product of two numbers is the exact one, rounded. -/
theorem hasUnits_mul (hu : Canonical u) (hv : Canonical v) (hu' : u.isFinite = true)
    (hv' : v.isFinite = true) :
    HasUnits (UnpackedFloat.mul Format.binary64 u v) (roundedInt 1074 (units u * units v)) := by
  cases u with
  | infinity s => cases hu'
  | notANumber => cases hu'
  | zero s =>
      cases v with
      | infinity s' => cases hv'
      | notANumber => cases hv'
      | zero s' =>
          rw [units.eq_3, Int.zero_mul, roundedInt_zero]
          exact hasUnits_zero _
      | finite s' m' e' hm' =>
          rw [units.eq_3, Int.zero_mul, roundedInt_zero]
          exact hasUnits_zero _
  | finite s m e hm =>
      cases v with
      | infinity s' => cases hv'
      | notANumber => cases hv'
      | zero s' =>
          rw [units.eq_3, Int.mul_zero, roundedInt_zero]
          exact hasUnits_zero _
      | finite s' m' e' hm' =>
          obtain ⟨-, he, hfull⟩ := hu
          obtain ⟨-, he', hfull'⟩ := hv
          have htarget := le_target_mul hm hm' hfull hfull'
          rw [units, units, ← apply_mul, ← Nat.cast_mul, ← magnitude_mul he he', roundedInt_apply]
          exact hasUnits_roundWithAccuracy (s * s') (Nat.mul_pos hm hm') htarget (by omega)

end Operations

end Wireframe.Binary64
