import Mathlib
import Wireframe.Number.Binary64

/-! Packing of binary64 numbers. A number that is packed into its bits and taken out again keeps its
sign, and it stays above zero when its mantissa and its exponent fit the format from below
(`isPos_unpack_pack`). -/

namespace Wireframe.Binary64

open Float.Model (Format UnpackedFloat)
open Float.Model.UnpackedFloat (Sign packComponents unpackSign
  unpackMantissa_packComponents unpackExponent_packComponents)

/-- A number with a plus sign. -/
def IsNonneg : UnpackedFloat → Prop
  | .infinity s | .zero s | .finite s .. => s = .positive
  | .notANumber => False

/-- A number with a plus sign that is not zero. -/
def IsPos : UnpackedFloat → Prop
  | .infinity s | .finite s .. => s = .positive
  | .zero _ | .notANumber => False

/-- The least exponent of the format, and the number of bits of a mantissa. -/
def FitsBelow : UnpackedFloat → Prop
  | .finite _ m e _ => m < 2 ^ 53 ∧ -1074 ≤ e
  | _ => True

theorem IsPos.isNonneg {u : UnpackedFloat} (h : IsPos u) : IsNonneg u := by
  cases u with
  | infinity s => exact h
  | finite s m e hm => exact h
  | zero s => exact h.elim
  | notANumber => exact h

theorem unpackSign_packComponents (spec : Format) (s : Sign) (e : BitVec spec.exponentBits)
    (m : BitVec spec.mantissaBitsWithoutImplicit) :
    unpackSign (packComponents spec s e m) = s.toBitVec := by
  apply BitVec.eq_of_getLsbD_eq
  intro i hi
  have hzero : i = 0 := by omega
  subst hzero
  simp [unpackSign, packComponents, BitVec.getLsbD_append, BitVec.getElem_append]

theorem ofBitVec_toBitVec (s : Sign) : Sign.ofBitVec s.toBitVec = s := by
  cases s <;> rfl

theorem isNonneg_unpack_packComponents {e : BitVec 11} {m : BitVec 52}
    (hnumber : e = -1#11 → m = 0#52) :
    IsNonneg (UnpackedFloat.unpack Format.binary64 (packComponents Format.binary64 .positive e m)) := by
  simp only [UnpackedFloat.unpack, unpackMantissa_packComponents, unpackExponent_packComponents,
    unpackSign_packComponents, ofBitVec_toBitVec]
  split
  · next h =>
    rw [if_pos (hnumber h)]
    rfl
  · split
    · split <;> rfl
    · rfl

theorem isPos_unpack_packComponents {e : BitVec 11} {m : BitVec 52}
    (hnumber : e = -1#11 → m = 0#52) (hzero : e = 0#11 → m ≠ 0#52) :
    IsPos (UnpackedFloat.unpack Format.binary64 (packComponents Format.binary64 .positive e m)) := by
  simp only [UnpackedFloat.unpack, unpackMantissa_packComponents, unpackExponent_packComponents,
    unpackSign_packComponents, ofBitVec_toBitVec]
  split
  · next h =>
    rw [if_pos (hnumber h)]
    rfl
  · split
    · next h =>
      rw [dif_neg (hzero h)]
      rfl
    · rfl

theorem ofNat_ne_neg_one {b : Nat} (h : ¬2048 ≤ b + 1) : BitVec.ofNat 11 b ≠ -1#11 := by
  intro heq
  have htoNat := congrArg BitVec.toNat heq
  simp at htoNat
  omega

theorem ofNat_ne_zero {w n : Nat} (hpos : 0 < n) (h : n < 2 ^ w) : BitVec.ofNat w n ≠ 0#w := by
  intro heq
  have htoNat := congrArg BitVec.toNat heq
  rw [BitVec.toNat_ofNat, Nat.mod_eq_of_lt h, BitVec.toNat_zero] at htoNat
  omega

theorem zero_ne_neg_one : 0#11 ≠ -1#11 := by decide

variable {u : UnpackedFloat}

theorem isNonneg_unpack_pack (h : IsNonneg u) : IsNonneg (Float.Model.pack u).unpack := by
  cases u with
  | infinity s =>
      obtain rfl : s = .positive := h
      exact isNonneg_unpack_packComponents fun _ => rfl
  | zero s =>
      obtain rfl : s = .positive := h
      exact isNonneg_unpack_packComponents fun hones => absurd hones zero_ne_neg_one
  | finite s m e hm =>
      obtain rfl : s = .positive := h
      simp only [Float.Model.unpack, Float.Model.pack, UnpackedFloat.pack]
      split
      · exact isNonneg_unpack_packComponents fun _ => rfl
      · next hle =>
        split
        · exact isNonneg_unpack_packComponents fun hones => absurd hones (ofNat_ne_neg_one hle)
        · exact isNonneg_unpack_packComponents fun hones => absurd hones zero_ne_neg_one
  | notANumber => exact h.elim

theorem isPos_unpack_pack (h : IsPos u) (hfits : FitsBelow u) :
    IsPos (Float.Model.pack u).unpack := by
  cases u with
  | infinity s =>
      obtain rfl : s = .positive := h
      exact isPos_unpack_packComponents (fun _ => rfl) fun hzero => absurd hzero.symm zero_ne_neg_one
  | zero s => exact h.elim
  | finite s m e hm =>
      obtain rfl : s = .positive := h
      obtain ⟨hbits, hexp⟩ := hfits
      simp only [Float.Model.unpack, Float.Model.pack, UnpackedFloat.pack]
      split
      · exact isPos_unpack_packComponents (fun _ => rfl)
          fun hzero => absurd hzero.symm zero_ne_neg_one
      · next hle =>
        split
        · apply isPos_unpack_packComponents (fun hones => absurd hones (ofNat_ne_neg_one hle))
          intro hzero
          refine absurd hzero (ofNat_ne_zero ?_ ?_)
          · simp only [Format.exponentBias]
            omega
          · omega
        · next hnormal =>
          apply isPos_unpack_packComponents (fun hones => absurd hones zero_ne_neg_one)
          intro _
          have hne : m ≠ 0 := Nat.pos_iff_ne_zero.mp hm
          have hlog : m.log2 < 53 := (Nat.log2_lt hne).mpr hbits
          simp only [Format.mantissaBits] at hnormal
          exact ofNat_ne_zero hm ((Nat.log2_lt hne).mp (by omega))
  | notANumber => exact h.elim

theorem toNat_pos {e : BitVec 11} (h : e ≠ 0#11) : 0 < e.toNat := by
  apply Nat.pos_of_ne_zero
  intro hzero
  apply h
  apply BitVec.eq_of_toNat_eq
  rw [hzero, BitVec.toNat_zero]

theorem toNat_le {e : BitVec 11} (h : e ≠ -1#11) : e.toNat ≤ 2046 := by
  have hlt := e.isLt
  apply Nat.le_of_not_lt
  intro hgt
  apply h
  apply BitVec.eq_of_toNat_eq
  show e.toNat = 2047
  omega

/-- What is taken out of the bits of a number fits the format. -/
theorem fitsBelow_unpack (x : Float.Model) : FitsBelow x.unpack := by
  simp only [Float.Model.unpack, UnpackedFloat.unpack]
  split
  · split <;> trivial
  · split
    · split
      · trivial
      · refine ⟨Nat.lt_trans (BitVec.isLt _) (by decide), ?_⟩
        simp only [Format.exponentBias]
        omega
    · next hzero =>
      refine ⟨BitVec.isLt _, ?_⟩
      have hpos := toNat_pos hzero
      simp only [Format.exponentBias]
      omega

end Wireframe.Binary64
