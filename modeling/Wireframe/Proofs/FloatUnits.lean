import Wireframe.Proofs.FloatSigns

/-! Binary64 numbers as whole numbers. Every finite one is a whole number of units of `2 ^ -1074`; with
the infinities at `2 ^ 1024` the order of numbers is the order of these whole numbers (`le_iff`,
`lt_iff`). What is packed into bits comes out with the same units, up to the infinities
(`units_unpack_pack`). -/

namespace Wireframe.Binary64

open Float.Model (Format UnpackedFloat)
open Float.Model.UnpackedFloat (Sign packComponents unpackMantissa_packComponents
  unpackExponent_packComponents)

/-- The units of a mantissa at an exponent. -/
def magnitude (m : Nat) (e : Int) : Nat := m * 2 ^ (e + 1074).toNat

/-- The units at which the infinities stand. -/
def top : Nat := magnitude 1 1024

/-- The number in units of `2 ^ -1074`; zero for no number. -/
def units : UnpackedFloat → Int
  | .finite s m e _ => s.apply (magnitude m e)
  | .infinity s => s.apply top
  | .zero _ | .notANumber => 0

/-- The mantissa fills its bits, or the exponent is the least one. -/
def Canonical : UnpackedFloat → Prop
  | .finite _ m e _ => m < 2 ^ 53 ∧ -1074 ≤ e ∧ (2 ^ 52 ≤ m ∨ e = -1074)
  | _ => True

/-- The exponent is one of those that the format has. -/
def Bounded : UnpackedFloat → Prop
  | .finite _ _ e _ => e ≤ 971
  | _ => True

/-- A number that packing takes as it is, of so many units. -/
structure HasUnits (u : UnpackedFloat) (z : Int) : Prop where
  canonical : Canonical u
  number : u ≠ .notANumber
  units_eq : units u = z

variable {m m₁ m₂ : Nat} {e e₁ e₂ z : Int} {u v : UnpackedFloat} {x y : Float}

theorem hasUnits_of_isFinite (hu : Canonical u) (hfinite : u.isFinite = true) : HasUnits u (units u) := by
  refine ⟨hu, fun h => ?_, rfl⟩
  rw [h] at hfinite
  cases hfinite

theorem hasUnits_zero (sign : UnpackedFloat.Sign) : HasUnits (.zero sign) 0 :=
  hasUnits_of_isFinite trivial rfl

theorem magnitude_pos (hm : 0 < m) (e : Int) : 0 < magnitude m e :=
  Nat.mul_pos hm (Nat.two_pow_pos _)

theorem magnitude_lt_top (hm : m < 2 ^ 53) (he : e ≤ 971) : magnitude m e < top := by
  have hpower : 2 ^ 53 * 2 ^ (e + 1074).toNat ≤ top := by
    rw [← Nat.pow_add, top, magnitude, Nat.one_mul]
    exact Nat.pow_le_pow_right (by decide) (by omega)
  exact Nat.lt_of_lt_of_le (Nat.mul_lt_mul_of_pos_right hm (Nat.two_pow_pos _)) hpower

theorem top_le_magnitude (hm : 2 ^ 52 ≤ m) (he : 971 < e) : top ≤ magnitude m e := by
  have hpower : top ≤ 2 ^ 52 * 2 ^ (e + 1074).toNat := by
    rw [← Nat.pow_add, top, magnitude, Nat.one_mul]
    exact Nat.pow_le_pow_right (by decide) (by omega)
  exact Nat.le_trans hpower (Nat.mul_le_mul_right _ hm)

/-- Of two numbers the one of the greater exponent is greater. -/
theorem magnitude_lt (hm₁ : m₁ < 2 ^ 53) (he₁ : -1074 ≤ e₁) (hm₂ : 2 ^ 52 ≤ m₂) (he : e₁ < e₂) :
    magnitude m₁ e₁ < magnitude m₂ e₂ := by
  calc
    m₁ * 2 ^ (e₁ + 1074).toNat < 2 ^ 53 * 2 ^ (e₁ + 1074).toNat :=
      Nat.mul_lt_mul_of_pos_right hm₁ (Nat.two_pow_pos _)
    _ = 2 ^ (53 + (e₁ + 1074).toNat) := (Nat.pow_add ..).symm
    _ ≤ 2 ^ (52 + (e₂ + 1074).toNat) := Nat.pow_le_pow_right (by decide) (by omega)
    _ = 2 ^ 52 * 2 ^ (e₂ + 1074).toNat := Nat.pow_add ..
    _ ≤ m₂ * 2 ^ (e₂ + 1074).toNat := Nat.mul_le_mul_right _ hm₂

/-- Exponents first, then mantissas: this is the order of the units. -/
theorem compare_magnitude (h₁ : m₁ < 2 ^ 53 ∧ -1074 ≤ e₁ ∧ (2 ^ 52 ≤ m₁ ∨ e₁ = -1074))
    (h₂ : m₂ < 2 ^ 53 ∧ -1074 ≤ e₂ ∧ (2 ^ 52 ≤ m₂ ∨ e₂ = -1074)) :
    (compare e₁ e₂).then (compare m₁ m₂) = compare (magnitude m₁ e₁) (magnitude m₂ e₂) := by
  rcases lt_trichotomy e₁ e₂ with he | rfl | he
  · rw [compare_lt_iff_lt.mpr he, compare_lt_iff_lt.mpr (magnitude_lt h₁.1 h₁.2.1 (by omega) he)]
    rfl
  · rw [compare_eq_iff_eq.mpr rfl]
    have hmono : StrictMono fun m => magnitude m e₁ :=
      fun _ _ hm => Nat.mul_lt_mul_of_pos_right hm (Nat.two_pow_pos _)
    rw [← cmp_eq_compare m₁, ← cmp_eq_compare (magnitude m₁ e₁)]
    exact (hmono.cmp_map_eq m₁ m₂).symm
  · rw [compare_gt_iff_gt.mpr he, compare_gt_iff_gt.mpr (magnitude_lt h₂.1 h₂.2.1 (by omega) he)]
    rfl

theorem two_pow_le_toNat_append (v : BitVec 52) : 2 ^ 52 ≤ (1#1 ++ v).toNat := by
  rw [BitVec.toNat_append]
  exact Nat.left_le_or

theorem canonical_unpack (x : Float.Model) : Canonical x.unpack := by
  simp only [Float.Model.unpack, UnpackedFloat.unpack]
  split
  · split <;> trivial
  · split
    · next hzero =>
      split
      · trivial
      · refine ⟨Nat.lt_trans (BitVec.isLt _) (by decide), ?_, Or.inr ?_⟩
        · simp only [Format.exponentBias]
          omega
        · simp only [Format.exponentBias, hzero, BitVec.toNat_zero]
          omega
    · next hzero =>
      have hpos := toNat_pos hzero
      refine ⟨BitVec.isLt _, ?_, Or.inl ?_⟩
      · simp only [Format.exponentBias]
        omega
      · exact two_pow_le_toNat_append _

theorem bounded_unpack (x : Float.Model) : Bounded x.unpack := by
  simp only [Float.Model.unpack, UnpackedFloat.unpack]
  by_cases hones : @UnpackedFloat.unpackExponent Format.binary64 x.toBits.toBitVec = -1#11
  · rw [if_pos hones]
    split <;> trivial
  · rw [if_neg hones]
    split
    · next hzero =>
      split
      · trivial
      · simp only [Bounded, Format.exponentBias, hzero, BitVec.toNat_zero]
        omega
    · have hle := toNat_le hones
      simp only [Bounded, Format.exponentBias]
      omega

/-- Numbers of the format with the greatest exponents are infinities once they are packed. -/
def cap : UnpackedFloat → UnpackedFloat
  | .finite s m e hm => if e ≤ 971 then .finite s m e hm else .infinity s
  | u => u

theorem unpack_packComponents (s : Sign) (e : BitVec 11) (m : BitVec 52) :
    UnpackedFloat.unpack Format.binary64 (packComponents Format.binary64 s e m) =
      if e = -1#11 then (if m = 0#52 then .infinity s else .notANumber)
      else if e = 0#11 then
        if h : m = 0#52 then .zero s
        else .finite s m.toNat (-1074) (by simpa [BitVec.toNat_pos, BitVec.pos_iff_ne_zero])
      else .finite s (1#1 ++ m).toNat ((e.toNat : Int) - 1075)
        (Nat.lt_of_lt_of_le (Nat.two_pow_pos 52) (two_pow_le_toNat_append m)) := by
  simp only [UnpackedFloat.unpack, unpackMantissa_packComponents, unpackExponent_packComponents,
    unpackSign_packComponents, ofBitVec_toBitVec]
  split
  · rfl
  split
  · next hzero =>
    split
    · rfl
    · rw [UnpackedFloat.finite.injEq]
      refine ⟨rfl, rfl, ?_⟩
      simp only [Format.exponentBias, hzero, BitVec.toNat_zero]
      rfl
  · rfl

theorem toNat_append_ofNat (hfull : 2 ^ 52 ≤ m) (hbits : m < 2 ^ 53) :
    (1#1 ++ BitVec.ofNat 52 m).toNat = m := by
  have hrest : (BitVec.ofNat 52 m).toNat = m - 2 ^ 52 := by
    rw [BitVec.toNat_ofNat, Nat.mod_eq_sub_mod hfull, Nat.mod_eq_of_lt (by omega)]
  rw [BitVec.toNat_append, ← Nat.shiftLeft_add_eq_or_of_lt (BitVec.isLt _), hrest]
  show 1 <<< 52 + (m - 2 ^ 52) = m
  rw [Nat.shiftLeft_eq]
  omega

theorem unpack_pack (h : Canonical u) : (Float.Model.pack u).unpack = cap u := by
  cases u with
  | infinity s => exact unpack_packComponents s _ _
  | zero s => exact unpack_packComponents s _ _
  | notANumber => exact unpack_packComponents .positive _ _
  | finite s m e hm =>
      obtain ⟨hbits, hexp, hfull⟩ := h
      have hne : m ≠ 0 := Nat.pos_iff_ne_zero.mp hm
      have hbias : (e + ((2 ^ (11 - 1) - 1 : Nat) : Int) + ((52 : Nat) : Int)).toNat = (e + 1075).toNat := by
        congr 1
        omega
      simp only [Float.Model.unpack, Float.Model.pack, UnpackedFloat.pack, Format.exponentBias, cap,
        Format.mantissaBits, hbias]
      by_cases hbig : 971 < e
      · have hover : 2 ^ 11 ≤ (e + 1075).toNat + 1 := by omega
        rw [if_pos hover, if_neg (Int.not_le.mpr hbig)]
        exact unpack_packComponents s _ _
      · have hroom : ¬2 ^ 11 ≤ (e + 1075).toNat + 1 := by omega
        rw [if_neg hroom, if_pos (Int.not_lt.mp hbig)]
        by_cases hnormal : 2 ^ 52 ≤ m
        · have hlog : m.log2 = 52 := (Nat.log2_eq_iff hne).mpr ⟨hnormal, hbits⟩
          have hcode : (BitVec.ofNat 11 (e + 1075).toNat).toNat = (e + 1075).toNat := by
            rw [BitVec.toNat_ofNat, Nat.mod_eq_of_lt (by omega)]
          have hbits' : m.log2 + 1 = 1 + 52 := by omega
          rw [if_pos hbits', unpack_packComponents, if_neg, if_neg, UnpackedFloat.finite.injEq]
          · refine ⟨rfl, toNat_append_ofNat hnormal hbits, ?_⟩
            rw [hcode]
            omega
          · exact ofNat_ne_zero (by omega) (by omega)
          · exact ofNat_ne_neg_one (by omega)
        · have hlog : m.log2 < 52 := (Nat.log2_lt hne).mpr (by omega)
          have hcode : (BitVec.ofNat 52 m).toNat = m := by
            rw [BitVec.toNat_ofNat, Nat.mod_eq_of_lt (by omega)]
          have hbits' : ¬m.log2 + 1 = 1 + 52 := by omega
          rw [if_neg hbits', unpack_packComponents, if_neg zero_ne_neg_one, if_pos rfl,
            dif_neg (ofNat_ne_zero hm (by omega)), UnpackedFloat.finite.injEq]
          exact ⟨rfl, hcode, by omega⟩

theorem top_pos : 0 < top := magnitude_pos Nat.one_pos 1024

/-- Packing keeps the units of a number, up to those of the infinities. -/
theorem units_unpack_pack (h : Canonical u) :
    units (Float.Model.pack u).unpack = max (-(top : Int)) (min top (units u)) := by
  have htop := top_pos
  rw [unpack_pack h]
  cases u with
  | infinity s => cases s <;> simp only [cap, units, Sign.apply] <;> omega
  | zero s =>
      simp only [cap, units]
      omega
  | notANumber =>
      simp only [cap, units]
      omega
  | finite s m e hm =>
      obtain ⟨hbits, hexp, hfull⟩ := h
      rw [cap]
      split
      · next he =>
        have hlt := magnitude_lt_top hbits he
        cases s <;> simp only [units, Sign.apply] <;> omega
      · next he =>
        have hle : top ≤ magnitude m e := top_le_magnitude (by omega) (by omega)
        cases s <;> simp only [units, Sign.apply] <;> omega

theorem compare_natCast (a b : Nat) : compare (a : Int) (b : Int) = compare a b := by
  rw [← cmp_eq_compare, ← cmp_eq_compare]
  exact Nat.strictMono_cast.cmp_map_eq a b

theorem compare_neg (a b : Int) : compare (-a) (-b) = (compare a b).swap := by
  have hanti : StrictAnti fun z : Int => -z := fun _ _ => Int.neg_lt_neg
  rw [← cmp_eq_compare, ← cmp_eq_compare, cmp_swap]
  exact hanti.cmp_map_eq a b

theorem some_lt {a b : Int} (h : a < b) : some .lt = some (compare a b) := by
  rw [compare_lt_iff_lt.mpr h]

theorem some_gt {a b : Int} (h : b < a) : some .gt = some (compare a b) := by
  rw [compare_gt_iff_gt.mpr h]

/-- The order of numbers is that of their units. -/
theorem compare_eq (hu : Canonical u) (hv : Canonical v) (hbu : Bounded u) (hbv : Bounded v)
    (hu' : u ≠ .notANumber) (hv' : v ≠ .notANumber) : u.compare v = some (compare (units u) (units v)) := by
  have htop := top_pos
  cases u with
  | notANumber => exact absurd rfl hu'
  | infinity s =>
      cases v with
      | notANumber => exact absurd rfl hv'
      | infinity s' =>
          cases s <;> cases s'
          · rw [units, compare_eq_iff_eq.mpr rfl]
            rfl
          · exact some_lt (by simp only [units, Sign.apply]; omega)
          · exact some_gt (by simp only [units, Sign.apply]; omega)
          · rw [units, compare_eq_iff_eq.mpr rfl]
            rfl
      | zero s' =>
          cases s
          · exact some_lt (by simp only [units, Sign.apply]; omega)
          · exact some_gt (by simp only [units, Sign.apply]; omega)
      | finite s' m' e' hm' =>
          have hlt := magnitude_lt_top hv.1 hbv
          cases s
          · exact some_lt (by cases s' <;> simp only [units, Sign.apply] <;> omega)
          · exact some_gt (by cases s' <;> simp only [units, Sign.apply] <;> omega)
  | zero s =>
      cases v with
      | notANumber => exact absurd rfl hv'
      | infinity s' =>
          cases s'
          · exact some_gt (by simp only [units, Sign.apply]; omega)
          · exact some_lt (by simp only [units, Sign.apply]; omega)
      | zero s' =>
          rw [units, units, compare_eq_iff_eq.mpr rfl]
          rfl
      | finite s' m' e' hm' =>
          have hpos := magnitude_pos hm' e'
          cases s'
          · exact some_gt (by simp only [units, Sign.apply]; omega)
          · exact some_lt (by simp only [units, Sign.apply]; omega)
  | finite s m e hm =>
      have hlt := magnitude_lt_top hu.1 hbu
      have hpos := magnitude_pos hm e
      cases v with
      | notANumber => exact absurd rfl hv'
      | infinity s' =>
          cases s'
          · exact some_gt (by cases s <;> simp only [units, Sign.apply] <;> omega)
          · exact some_lt (by cases s <;> simp only [units, Sign.apply] <;> omega)
      | zero s' =>
          cases s
          · exact some_lt (by simp only [units, Sign.apply]; omega)
          · exact some_gt (by simp only [units, Sign.apply]; omega)
      | finite s' m' e' hm' =>
          have hpos' := magnitude_pos hm' e'
          have hsame := compare_magnitude hu hv
          cases s <;> cases s'
          · rw [UnpackedFloat.compare, hsame, ← compare_natCast, ← compare_neg]
            rfl
          · exact some_lt (by simp only [units, Sign.apply]; omega)
          · exact some_gt (by simp only [units, Sign.apply]; omega)
          · rw [UnpackedFloat.compare, hsame, ← compare_natCast]
            rfl

/-- A float in units. -/
def level (x : Float) : Int := units x.toModel.unpack

/-- The float is a number or an infinity. -/
def IsNumber (x : Float) : Prop := x.toModel.unpack ≠ .notANumber

theorem le_iff (hx : IsNumber x) (hy : IsNumber y) : x ≤ y ↔ level x ≤ level y := by
  have hcompare := compare_eq (canonical_unpack x.toModel) (canonical_unpack y.toModel)
    (bounded_unpack _) (bounded_unpack _) hx hy
  change Float.le x y = true ↔ _
  simp only [Float.le, decide_eq_true_eq]
  change (x.toModel.unpack.compare y.toModel.unpack).any (·.isLE) = true ↔ _
  rw [hcompare, Option.any_some, Int.isLE_compare]
  rfl

theorem lt_iff (hx : IsNumber x) (hy : IsNumber y) : x < y ↔ level x < level y := by
  have hcompare := compare_eq (canonical_unpack x.toModel) (canonical_unpack y.toModel)
    (bounded_unpack _) (bounded_unpack _) hx hy
  change Float.lt x y = true ↔ _
  simp only [Float.lt, decide_eq_true_eq]
  change (x.toModel.unpack.compare y.toModel.unpack == some .lt) = true ↔ _
  rw [hcompare, beq_iff_eq, Option.some.injEq, compare_lt_iff_lt]
  rfl

end Wireframe.Binary64
