import Wireframe.Proofs.FloatQuotients

/-! A quotient of natural numbers depends on their ratio only (`divNat_mul_mul`). Division shifts the first
number, by as many bits as the lengths of both numbers call for, and cuts the quotient off; numbers of one
ratio can be shifted differently. But a quotient that is cut off further down is rounded to the same number:
the bits that are cut off later are in the two that the shorter one keeps of its rest
(`shiftRightOne_cutOff`). -/

namespace Wireframe.Binary64

open Float.Model (Format UnpackedFloat)
open Float.Model.UnpackedFloat (ExtendedMantissa accuracyOfFraction roundWithAccuracy)

variable {n d k i j : Nat}

theorem double_div_half (n d : Nat) : 2 * n / d / 2 = n / d := by
  rw [Nat.div_div_eq_div_mul, Nat.mul_comm d, Nat.mul_div_mul_left n d (by decide)]

/-- The next bit of a quotient is that of its rest. -/
theorem nextBit_eq (hd : 0 < d) (n : Nat) : 2 * n / d % 2 = 2 * (n % d) / d := by
  have hsplit : 2 * n = d * (2 * (n / d)) + 2 * (n % d) := by
    calc
      2 * n = 2 * (d * (n / d) + n % d) := by rw [Nat.div_add_mod]
      _ = d * (2 * (n / d)) + 2 * (n % d) := by ring
  have hbit : 2 * (n % d) / d < 2 := by
    rw [Nat.div_lt_iff_lt_mul hd]
    have hlt := Nat.mod_lt n hd
    omega
  rw [hsplit, Nat.mul_add_div hd, Nat.mul_add_mod, Nat.mod_eq_of_lt hbit]

theorem nextRest_eq (n d : Nat) : 2 * n % d = 2 * (n % d) % d := by
  rw [Nat.mul_mod, Nat.mul_mod 2 (n % d), Nat.mod_mod]

/-- The whole part of a quotient, with two bits for its rest. -/
def cutOff (n d : Nat) : ExtendedMantissa :=
  .ofMantissaAndAccuracy (n / d) (accuracyOfFraction (n % d) d)

/-- The round bit is the next bit of the quotient, and the sticky bit tells if anything is behind it. -/
theorem cutOff_eq (hd : 0 < d) (n : Nat) : cutOff n d = ⟨n / d, 2 * n / d % 2 != 0, 2 * n % d != 0⟩ := by
  have hlt : n % d < d := Nat.mod_lt n hd
  rw [cutOff, nextBit_eq hd, nextRest_eq, accuracyOfFraction]
  by_cases hzero : n % d = 0
  · rw [if_pos hzero, hzero, Nat.mul_zero, Nat.zero_div, Nat.zero_mod]
    rfl
  · rw [if_neg hzero]
    rcases lt_trichotomy (2 * (n % d)) d with hlow | heq | hhigh
    · have hbehind : (2 * (n % d) != 0) = true := bne_iff_ne.mpr (by omega)
      rw [compare_lt_iff_lt.mpr hlow, Nat.div_eq_of_lt hlow, Nat.mod_eq_of_lt hlow, hbehind]
      rfl
    · rw [compare_eq_iff_eq.mpr heq, heq, Nat.div_self hd, Nat.mod_self]
      rfl
    · have hone : 2 * (n % d) / d = 1 := Nat.div_eq_of_lt_le (by omega) (by omega)
      have hbehind : (2 * (n % d) % d != 0) = true := by
        rw [bne_iff_ne, Nat.mod_eq_sub_mul_div, hone]
        omega
      rw [compare_gt_iff_gt.mpr hhigh, hone, hbehind]
      rfl

/-- A quotient of one bit more, with that bit cut off. -/
theorem shiftRightOne_cutOff (hd : 0 < d) (n : Nat) : (cutOff (2 * n) d).shiftRightOne = cutOff n d := by
  have hrest : (2 * (2 * n) / d % 2 != 0 || 2 * (2 * n) % d != 0) = (2 * n % d != 0) := by
    rw [nextBit_eq hd (2 * n), nextRest_eq (2 * n), Bool.eq_iff_iff, Bool.or_eq_true, bne_iff_ne, bne_iff_ne,
      bne_iff_ne]
    have hsplit := Nat.div_add_mod (2 * (2 * n % d)) d
    constructor
    · rintro (hbit | hbehind) hzero
      · rw [hzero, Nat.mul_zero, Nat.zero_div] at hbit
        exact hbit rfl
      · rw [hzero, Nat.mul_zero, Nat.zero_mod] at hbehind
        exact hbehind rfl
    · intro hne
      by_contra hnone
      obtain ⟨hbit, hbehind⟩ := not_or.mp hnone
      rw [not_not.mp hbit, not_not.mp hbehind, Nat.mul_zero] at hsplit
      omega
  rw [cutOff_eq hd, cutOff_eq hd, ExtendedMantissa.shiftRightOne]
  simp only [double_div_half, hrest]

/-- A quotient that is cut off after `j` bits and rounded from there. -/
def roundedFrom (n d j : Nat) : UnpackedFloat :=
  roundWithAccuracy Format.binary64 .positive (n * 2 ^ j / d) (-j) (accuracyOfFraction (n * 2 ^ j % d) d)

/-- After `j` bits the quotient is not yet rounded. -/
def IsFine (n d j : Nat) : Prop := -(j : Int) ≤ target (n * 2 ^ j / d) (-j)

theorem mul_two_pow_succ (n j : Nat) : n * 2 ^ (j + 1) = 2 * (n * 2 ^ j) := by
  rw [Nat.pow_succ, Nat.mul_comm _ 2, Nat.mul_left_comm]

theorem target_succ (hfine : IsFine n d j) :
    target (n * 2 ^ (j + 1) / d) (-(j + 1 : Nat)) = target (n * 2 ^ j / d) (-j) := by
  have hhalf := double_div_half (n * 2 ^ j) d
  rw [IsFine, target_eq] at hfine
  rw [mul_two_pow_succ, target_eq, target_eq, Nat.log2_def]
  rw [← hhalf] at hfine ⊢
  generalize 2 * (n * 2 ^ j) / d = q at hfine ⊢
  split
  · omega
  · -- without a whole part both are shifted to the least exponent
    have hzero : (0 : Nat).log2 = 0 := by decide
    have hhalf : q / 2 = 0 := by omega
    rw [hhalf, hzero] at hfine ⊢
    omega

theorem roundedFrom_succ (hd : 0 < d) (hfine : IsFine n d j) :
    IsFine n d (j + 1) ∧ roundedFrom n d (j + 1) = roundedFrom n d j := by
  have htarget := target_succ hfine
  constructor
  · rw [IsFine, htarget]
    rw [IsFine] at hfine
    omega
  · refine (roundWithAccuracy_shiftRight (k := 1) .positive hfine (by omega) htarget ?_).symm
    rw [mul_two_pow_succ]
    exact shiftRightOne_cutOff hd (n * 2 ^ j)

theorem roundedFrom_add (hd : 0 < d) (hfine : IsFine n d j) (i : Nat) :
    IsFine n d (j + i) ∧ roundedFrom n d (j + i) = roundedFrom n d j := by
  induction i with
  | zero => exact ⟨hfine, rfl⟩
  | succ i ih =>
      obtain ⟨hmore, hsame⟩ := roundedFrom_succ hd ih.1
      exact ⟨hmore, hsame.trans ih.2⟩

/-- A quotient is rounded to the same number wherever it is cut off below the bits that stay. -/
theorem roundedFrom_eq (hd : 0 < d) (hi : IsFine n d i) (hj : IsFine n d j) :
    roundedFrom n d i = roundedFrom n d j := by
  rcases Nat.le_total i j with hle | hle
  · obtain ⟨k, rfl⟩ := Nat.exists_eq_add_of_le hle
    exact (roundedFrom_add hd hi k).2.symm
  · obtain ⟨k, rfl⟩ := Nat.exists_eq_add_of_le hle
    exact (roundedFrom_add hd hj k).2

theorem exists_isFine (hn : 0 < n) (hd : 0 < d) :
    ∃ j, IsFine n d j ∧ divNat n d = .ofModel (Float.Model.pack (roundedFrom n d j)) := by
  have hfull := @log2_quotient n d 0 0 hn hd
  have hexp := quotientExponent_eq n 0 d 0
  obtain ⟨j, hj⟩ : ∃ j, j = (-quotientExponent n 0 d 0).toNat := ⟨_, rfl⟩
  have hshift : (0 - 0 - quotientExponent n 0 d 0).toNat = j := by omega
  have hcut : quotientExponent n 0 d 0 = -j := by omega
  rw [hshift, Nat.shiftLeft_eq] at hfull
  refine ⟨j, ?_, ?_⟩
  · rw [IsFine, target_eq]
    omega
  · rw [divNat, dif_pos hn, dif_pos hd, roundedFrom, ← hcut, ← Nat.shiftLeft_eq, ← hshift]
    rfl

theorem accuracyOfFraction_mul (hk : 0 < k) (n d : Nat) :
    accuracyOfFraction (k * n) (k * d) = accuracyOfFraction n d := by
  have hzero : k * n = 0 ↔ n = 0 := by
    rw [Nat.mul_eq_zero, or_iff_right (Nat.pos_iff_ne_zero.mp hk)]
  have hcompare : compare (2 * (k * n)) (k * d) = compare (2 * n) d := by
    rw [Nat.mul_left_comm, Nat.compare_eq_ite_lt, Nat.compare_eq_ite_lt]
    simp only [Nat.mul_lt_mul_left hk]
  rw [accuracyOfFraction, accuracyOfFraction, hcompare]
  simp only [hzero]

theorem mul_quotient (hk : 0 < k) (n d j : Nat) : k * n * 2 ^ j / (k * d) = n * 2 ^ j / d ∧
    accuracyOfFraction (k * n * 2 ^ j % (k * d)) (k * d) = accuracyOfFraction (n * 2 ^ j % d) d := by
  rw [Nat.mul_assoc, Nat.mul_div_mul_left _ _ hk, Nat.mul_mod_mul_left]
  exact ⟨rfl, accuracyOfFraction_mul hk _ _⟩

/-- A quotient of natural numbers depends on their ratio only. -/
theorem divNat_mul_mul (hk : 0 < k) (hd : 0 < d) (n : Nat) : divNat (k * n) (k * d) = divNat n d := by
  by_cases hn : n = 0
  · rw [hn, Nat.mul_zero, divNat, divNat, dif_neg (Nat.lt_irrefl 0), dif_neg (Nat.lt_irrefl 0)]
  obtain ⟨i, hi, hleft⟩ := exists_isFine (Nat.mul_pos hk (Nat.pos_of_ne_zero hn)) (Nat.mul_pos hk hd)
  obtain ⟨j, hj, hright⟩ := exists_isFine (Nat.pos_of_ne_zero hn) hd
  obtain ⟨hquotient, haccuracy⟩ := mul_quotient hk n d i
  rw [IsFine, hquotient] at hi
  rw [hleft, hright, ← roundedFrom_eq hd hi hj, roundedFrom, roundedFrom, hquotient, haccuracy]

end Wireframe.Binary64
