import Wireframe.Layout.Canvas
import Wireframe.Proofs.FloatQuotients

/-! The binary64 arithmetic of a layout. Sums of weights stay above zero, so that nothing is divided by
zero; a quotient of the canvas with a half added is finite, so that its pixels can be counted; and a
number of pixels is within the binary64 numbers. The edges of a canvas have a pixel at least for ratios
up to 2560 to 1 (`Canvas.otherEdge_bounds`). -/

namespace Wireframe

namespace Binary64

open Float.Model (Format UnpackedFloat)

variable {x y : Float}

theorem isNonneg_of_isPositive (h : Settings.isPositive x = true) : IsNonneg x.toModel.unpack :=
  (isPositive_iff.mp h).isNonneg

theorem isNonneg_ofInt_zero : IsNonneg (Float.ofInt 0).toModel.unpack := by
  have hzero : (Float.ofInt 0).toModel.unpack = .zero .positive := by rfl
  rw [hzero]
  rfl

theorem isPositive_add (hx : IsNonneg x.toModel.unpack) (hy : Settings.isPositive y = true) :
    Settings.isPositive (x + y) = true := by
  obtain ⟨hpos, hfits⟩ := isPos_add hx (isPositive_iff.mp hy) (fitsBelow_unpack _) (fitsBelow_unpack _)
  rw [isPositive_iff]
  exact isPos_unpack_pack hpos hfits

theorem beq_zero_iff :
    (x == 0.0) = true ↔ x.toModel.unpack.beq (.zero .positive) = true := by
  rw [← unpack_zero]
  exact Iff.rfl

theorem beq_zero_of_isPositive (h : Settings.isPositive x = true) : (x == 0.0) = false := by
  have hpos := isPositive_iff.mp h
  rw [← Bool.not_eq_true, beq_zero_iff]
  cases hx : x.toModel.unpack with
  | infinity s =>
      rw [hx] at hpos
      cases hpos
      decide
  | finite s m e hm =>
      rw [hx] at hpos
      cases hpos
      simp [UnpackedFloat.beq, UnpackedFloat.compare]
  | zero s =>
      rw [hx] at hpos
      exact hpos.elim
  | notANumber =>
      rw [hx] at hpos
      exact hpos.elim

theorem lt_zero_iff : x < 0.0 ↔ x.toModel.unpack.lt (.zero .positive) = true := by
  rw [← unpack_zero]
  change Float.lt x 0.0 = true ↔ _
  simp only [Float.lt, decide_eq_true_eq]
  exact Iff.rfl

theorem not_lt_zero_of_notNegative (h : Component.notNegative x = true) : ¬x < 0.0 := by
  rw [Component.notNegative, decide_eq_true_eq, zero_le_iff] at h
  rw [lt_zero_iff]
  cases hx : x.toModel.unpack with
  | infinity s =>
      rw [hx] at h
      cases s
      · cases h
      · decide
  | zero s => simp [UnpackedFloat.lt, UnpackedFloat.compare]
  | finite s m e hm =>
      rw [hx] at h
      cases s
      · cases h
      · simp [UnpackedFloat.lt, UnpackedFloat.compare]
  | notANumber => simp [UnpackedFloat.lt, UnpackedFloat.compare]

theorem natAbs_truncate_le (negative : Bool) (units : Nat) :
    (truncate (.finite negative units)).natAbs ≤ units / one := by
  cases negative with
  | false =>
      exact Nat.le_of_eq (Int.natAbs_natCast (units / one))
  | true =>
      have habs : (-((units / one : Nat) : Int)).natAbs = units / one := by
        rw [Int.natAbs_neg, Int.natAbs_natCast]
      exact Nat.le_of_eq habs

theorem magnitude_one : magnitude 1 0 = one := by decide +kernel

theorem one_pos : 0 < one := by
  rw [← magnitude_one]
  exact magnitude_pos Nat.one_pos 0

theorem two_pow_lt_limit : 2 ^ 53 < limit := by decide +kernel

theorem lt_limit {n : Nat} (h : n ≤ 2 ^ 53) : n < limit := Nat.lt_of_le_of_lt h two_pow_lt_limit

/-- The whole part of a number is within the binary64 numbers. -/
theorem natAbs_truncate_lt (x : Float) : (truncate (ofFloat x)).natAbs < limit := by
  have hlimit : 0 < limit := lt_limit (Nat.zero_le _)
  have hcanonical := canonical_unpack x.toModel
  have hbounded := bounded_unpack x.toModel
  rw [ofFloat]
  cases hx : x.toModel.unpack with
  | infinity s => exact hlimit
  | notANumber => exact hlimit
  | zero s =>
      apply Nat.lt_of_le_of_lt (natAbs_truncate_le _ _)
      rw [Nat.zero_div]
      exact hlimit
  | finite s m e hm =>
      rw [hx] at hcanonical hbounded
      have he : e ≤ 971 := hbounded
      obtain ⟨top, htop⟩ : ∃ top, top = 2045 := ⟨_, rfl⟩
      have hgreatest : (2 ^ 53 - 1) * Nat.pow 2 top / one < limit := by
        rw [htop]
        decide +kernel
      have hpower : Nat.pow 2 (e + 1074).toNat ≤ Nat.pow 2 top :=
        Nat.pow_le_pow_right (by decide) (by omega)
      apply Nat.lt_of_le_of_lt (natAbs_truncate_le _ _)
      refine Nat.lt_of_le_of_lt (Nat.div_le_div_right ?_) hgreatest
      exact Nat.mul_le_mul (Nat.le_sub_one_of_lt hcanonical.1) hpower

theorem truncate_ofFloat (h : x.isFinite = true) (hx : 0 ≤ level x) :
    truncate (ofFloat x) = level x / one := by
  change x.toModel.unpack.isFinite = true at h
  rw [level] at hx ⊢
  rw [ofFloat]
  cases hu : x.toModel.unpack with
  | infinity | notANumber =>
      rw [hu] at h
      cases h
  | zero s =>
      have hle := natAbs_truncate_le (s == .negative) 0
      rw [Nat.zero_div] at hle
      rw [units, Int.zero_ediv]
      exact Int.natAbs_eq_zero.mp (Nat.le_zero.mp hle)
  | finite s m e hm =>
      have hmag := magnitude_pos hm e
      rw [hu] at hx
      cases s with
      | negative =>
          simp only [units, UnpackedFloat.Sign.apply] at hx
          omega
      | positive =>
          show ((magnitude m e / one : Nat) : Int) = (magnitude m e : Int) / one
          exact Int.natCast_div _ _

/-- A pixel and a half one, in the parts that a number just below a half is a multiple of. -/
theorem one_eq_mul :
    one = 2 ^ 53 * magnitude 1 (-53) ∧ magnitude 1 (-1) = 2 ^ 52 * magnitude 1 (-53) := by
  have hone := magnitude_mul_two_pow 1 53 (show -1074 ≤ (-53 : Int) by decide)
  have hhalf := magnitude_mul_two_pow 1 52 (show -1074 ≤ (-53 : Int) by decide)
  rw [magnitude_eq_mul, Nat.one_mul] at hone hhalf
  exact ⟨magnitude_one.symm.trans hone.symm, hhalf.symm⟩

theorem unpack_half :
    (0.5 : Float).toModel.unpack = .finite .positive (2 ^ 52) (-53) (by decide) := by rfl

theorem level_half : level 0.5 = magnitude 1 (-1) := by
  have hscale := magnitude_mul_two_pow 1 52 (show -1074 ≤ (-53 : Int) by decide)
  rw [Nat.one_mul] at hscale
  rw [level, unpack_half]
  exact congrArg Nat.cast hscale

theorem isUpTo_half : IsUpTo 1 0.5 := ⟨by decide, by decide⟩

/-- A number with a half added is between any two numbers that the exact sum is between. -/
theorem level_add_half {m : Nat} {e : Int} (hx : x.isFinite = true) (hm : m < 2 ^ 53) (he : e ≤ 971) :
    (level x + magnitude 1 (-1) ≤ magnitude m e → level (x + 0.5) ≤ magnitude m e) ∧
      ((magnitude m e : Int) ≤ level x + magnitude 1 (-1) → magnitude m e ≤ level (x + 0.5)) := by
  have hlt := magnitude_lt_top hm he
  have hhalf : (0.5 : Float).isFinite = true := isUpTo_half.isFinite (by decide)
  have hsame : clamp (roundedInt 0 (magnitude m e)) = magnitude m e := by
    rw [roundedInt_natCast, rounded_magnitude hm, clamp_of_lt hlt]
  rw [(level_add hx hhalf).2, level_half]
  refine ⟨fun h => ?_, fun h => ?_⟩
  · rw [← hsame]
    exact clamp_roundedInt_mono 0 h
  · rw [← hsame]
    exact clamp_roundedInt_mono 0 h

end Binary64

namespace Canvas

open Binary64 (IsUpTo level magnitude divNat one magnitude_one level_add_half)

variable {short long : Int} {q : Float}

theorem quotient_edge (hshort : 0 < short) (hle : short ≤ long) :
    Length.quotient (longest * short) long = .ok (divNat (1280 * short.natAbs) long.natAbs) ∧
      IsUpTo 1280 (divNat (1280 * short.natAbs) long.natAbs) := by
  have hratio : (longest * short).natAbs = 1280 * short.natAbs := by
    rw [longest]
    omega
  have hlimit : 1280 < Binary64.limit := Binary64.lt_limit (by decide)
  have hroom : ¬Binary64.limit * long.natAbs ≤ 1280 * short.natAbs := by
    have hmul := Nat.mul_lt_mul_of_pos_right hlimit (show 0 < long.natAbs by omega)
    omega
  have hsigns : (longest * short < 0) = (long < 0) := by
    rw [longest]
    exact propext ⟨fun h => by omega, fun h => by omega⟩
  refine ⟨?_, Binary64.isUpTo_divNat (by omega) (by decide) (by omega)⟩
  rw [Length.quotient, if_neg (by omega), hratio, if_neg hroom, Binary64.divInt, if_pos hsigns, hratio]

theorem isFinite_add_half (hq : IsUpTo 1280 q) : (q + 0.5).isFinite = true ∧ 0 ≤ level (q + 0.5) := by
  have hsum := hq.add Binary64.isUpTo_half (by decide)
  exact ⟨hsum.isFinite (by decide), hsum.level_nonneg⟩

/-- The other edge of a canvas is counted in pixels: the quotient behind it exists, and with a half
added it is finite. -/
theorem exists_otherEdge (hshort : 0 < short) (hle : short ≤ long) :
    ∃ q, Length.quotient (longest * short) long = .ok q ∧ (q + 0.5).isFinite = true ∧
      otherEdge short long = .ok (pixels q) := by
  obtain ⟨hquotient, hupTo⟩ := quotient_edge hshort hle
  refine ⟨_, hquotient, (isFinite_add_half hupTo).1, ?_⟩
  rw [otherEdge, hquotient]
  rfl

theorem pixels_eq (hq : IsUpTo 1280 q) : pixels q = level (q + 0.5) / one := by
  obtain ⟨hfinite, hnonneg⟩ := isFinite_add_half hq
  exact Binary64.truncate_ofFloat hfinite hnonneg

/-- The pixels of a quotient are none below a half, and no more than the longest edge. -/
theorem pixels_bounds (hq : IsUpTo 1280 q) :
    0 ≤ pixels q ∧ pixels q ≤ longest ∧ ((magnitude 1 (-1) : Int) ≤ level q → 1 ≤ pixels q) ∧
      (level q ≤ magnitude (2 ^ 52 - 1) (-53) → pixels q < 1) := by
  have hone : (0 : Int) < one := Int.natCast_pos.mpr Binary64.one_pos
  have hfinite := hq.isFinite (by decide)
  have hmost := hq.level_le (by decide)
  have hpart := Binary64.magnitude_pos Nat.one_pos (-53)
  obtain ⟨hpixel, hhalf⟩ := Binary64.one_eq_mul
  have hlongest : magnitude 1280 0 + magnitude 1 (-1) = magnitude 2561 (-1) ∧
      magnitude 2561 (-1) < 1281 * one := by
    rw [Binary64.magnitude_eq_mul 1280, Binary64.magnitude_eq_mul 2561, magnitude_one]
    omega
  have hbelow : magnitude (2 ^ 52 - 1) (-53) + magnitude 1 (-1) = magnitude (2 ^ 53 - 1) (-53) ∧
      magnitude (2 ^ 53 - 1) (-53) < one := by
    rw [Binary64.magnitude_eq_mul (2 ^ 52 - 1), Binary64.magnitude_eq_mul (2 ^ 53 - 1)]
    omega
  have hleast : one = magnitude 1 (-1) + magnitude 1 (-1) := by omega
  rw [pixels_eq hq]
  refine ⟨Int.ediv_nonneg (isFinite_add_half hq).2 hone.le, ?_, fun h => ?_, fun h => ?_⟩
  · have hle := (level_add_half hfinite (show 2561 < 2 ^ 53 by decide) (show (-1 : Int) ≤ 971 by decide)).1
      (by omega)
    have hlt : level (q + 0.5) / one < 1281 := Int.ediv_lt_of_lt_mul hone (by omega)
    rw [longest]
    omega
  · have hle := (level_add_half hfinite (show 1 < 2 ^ 53 by decide) (show (0 : Int) ≤ 971 by decide)).2 (by
      rw [magnitude_one]
      omega)
    rw [magnitude_one] at hle
    exact (Int.le_ediv_iff_mul_le hone).mpr (by omega)
  · have hle := (level_add_half hfinite (show 2 ^ 53 - 1 < 2 ^ 53 by decide)
      (show (-53 : Int) ≤ 971 by decide)).1 (by omega)
    exact Int.ediv_lt_of_lt_mul hone (by omega)

/-- The other edge is no longer than the longest one. It has a pixel at least where the ratio is up to
2560 to 1, and of ratios of integers up to `2 ^ 52` only there. -/
theorem otherEdge_bounds {n : Int} (hshort : 0 < short) (hle : short ≤ long)
    (h : otherEdge short long = .ok n) :
    0 ≤ n ∧ n ≤ longest ∧ (long ≤ 2560 * short → 1 ≤ n) ∧
      (long ≤ 2 ^ 52 → 1 ≤ n → long ≤ 2560 * short) := by
  obtain ⟨hquotient, hupTo⟩ := quotient_edge hshort hle
  rw [otherEdge, hquotient] at h
  cases h
  obtain ⟨hnonneg, hmost, hone, hnone⟩ := pixels_bounds hupTo
  have hn : 0 < 1280 * short.natAbs := by omega
  have hd : 0 < long.natAbs := by omega
  refine ⟨hnonneg, hmost, fun hratio => hone ?_, fun hlong hpixel => ?_⟩
  · have hhalf := (Binary64.level_divNat (m := 1) (j := 1) (k := 0) (e := -1) hn hd (by decide) (by decide)
      (by decide) rfl).2
    exact hhalf (by omega)
  · by_contra hratio
    have hhalf := (Binary64.level_divNat (m := 2 ^ 52 - 1) (j := 53) (k := 0) (e := -53) hn hd (by decide)
      (by decide) (by decide) rfl).1
    have hlt := hnone (hhalf (by omega))
    omega

end Canvas
end Wireframe
