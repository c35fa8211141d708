import Wireframe.Proofs.FloatOrder

/-! Monotone operations. Sums of numbers that are not below zero, products with a number above zero and
differences are monotone in what they are formed from, and so is the conversion of natural numbers;
each theorem says as well that the result is a number, so that orders can be chained. -/

namespace Wireframe.Binary64

open Float.Model (Format UnpackedFloat)

variable {x x' y y' z : Float} {u : UnpackedFloat} {m n : Nat} {e : Int}

section Order

theorem isNumber_of_le (h : x ≤ y) : IsNumber x ∧ IsNumber y := by
  change Float.le x y = true at h
  simp only [Float.le, decide_eq_true_eq] at h
  change (x.toModel.unpack.compare y.toModel.unpack).any (·.isLE) = true at h
  refine ⟨fun hx => ?_, fun hy => ?_⟩
  · rw [hx] at h
    cases h
  · rw [hy] at h
    cases hx : x.toModel.unpack <;> rw [hx] at h <;> cases h

protected theorem le_of_lt (h : x < y) : x ≤ y := by
  change Float.lt x y = true at h
  show Float.le x y = true
  simp only [Float.lt, Float.le, decide_eq_true_eq] at h ⊢
  change (x.toModel.unpack.compare y.toModel.unpack == some .lt) = true at h
  show (x.toModel.unpack.compare y.toModel.unpack).any (·.isLE) = true
  rw [beq_iff_eq] at h
  rw [h]
  rfl

theorem level_le (h : x ≤ y) : level x ≤ level y :=
  (le_iff (isNumber_of_le h).1 (isNumber_of_le h).2).mp h

protected theorem le_trans (h : x ≤ y) (h' : y ≤ z) : x ≤ z :=
  (le_iff (isNumber_of_le h).1 (isNumber_of_le h').2).mpr (Int.le_trans (level_le h) (level_le h'))

theorem le_self (h : IsNumber x) : x ≤ x := (le_iff h h).mpr (Int.le_refl _)

/-- What is below a number stays below a greater one. -/
protected theorem lt_of_lt_of_le (hx : IsNumber x) (h : x < y) (h' : y ≤ z) : x < z := by
  obtain ⟨hy, hz⟩ := isNumber_of_le h'
  rw [lt_iff hx hy] at h
  exact (lt_iff hx hz).mpr (Int.lt_of_lt_of_le h (level_le h'))

protected theorem lt_of_le_of_lt (hz : IsNumber z) (h : x ≤ y) (h' : y < z) : x < z := by
  obtain ⟨hx, hy⟩ := isNumber_of_le h
  rw [lt_iff hy hz] at h'
  exact (lt_iff hx hz).mpr (Int.lt_of_le_of_lt (level_le h) h')

theorem level_zero : level 0.0 = 0 := rfl

theorem isNumber_zero : IsNumber 0.0 := nofun

theorem isNumber_of_isFinite (h : x.isFinite = true) : IsNumber x := by
  intro hx
  change x.toModel.unpack.isFinite = true at h
  rw [hx] at h
  cases h

theorem apply_bounds (s : UnpackedFloat.Sign) (h : n < top) :
    -(top : Int) < s.apply n ∧ s.apply n < top := by
  cases s <;> simp only [UnpackedFloat.Sign.apply] <;> omega

theorem level_lt_of_isFinite (h : x.isFinite = true) : -(top : Int) < level x ∧ level x < top := by
  have hcanonical := canonical_unpack x.toModel
  have hbounded := bounded_unpack x.toModel
  change x.toModel.unpack.isFinite = true at h
  rw [level]
  cases hx : x.toModel.unpack with
  | infinity | notANumber =>
      rw [hx] at h
      cases h
  | zero s => exact apply_bounds .positive top_pos
  | finite s m e hm =>
      rw [hx] at hcanonical hbounded
      exact apply_bounds s (magnitude_lt_top hcanonical.1 hbounded)

theorem level_bounds (x : Float) : -(top : Int) ≤ level x ∧ level x ≤ top := by
  by_cases hfinite : x.isFinite = true
  · have hlt := level_lt_of_isFinite hfinite
    omega
  · have htop := top_pos
    change ¬x.toModel.unpack.isFinite = true at hfinite
    rw [level]
    cases hx : x.toModel.unpack with
    | infinity s => cases s <;> simp only [units, UnpackedFloat.Sign.apply] <;> omega
    | notANumber =>
        rw [units]
        omega
    | finite | zero =>
        rw [hx] at hfinite
        exact absurd rfl hfinite

theorem isFinite_of_level_lt (hx : IsNumber x) (h : -(top : Int) < level x ∧ level x < top) :
    x.isFinite = true := by
  show x.toModel.unpack.isFinite = true
  rw [level] at h
  cases hx' : x.toModel.unpack with
  | infinity s =>
      rw [hx'] at h
      cases s <;> simp only [units, UnpackedFloat.Sign.apply] at h <;> omega
  | zero s => rfl
  | notANumber => exact absurd hx' hx
  | finite s m e hm => rfl

/-- A number between zero and a finite one is finite. -/
theorem isFinite_of_le (hx : 0.0 ≤ x) (h : x ≤ y) (hy : y.isFinite = true) : x.isFinite = true := by
  have hzero := level_le hx
  have hle := level_le h
  have hfinite := level_lt_of_isFinite hy
  have htop := top_pos
  rw [level_zero] at hzero
  exact isFinite_of_level_lt (isNumber_of_le h).1 (by omega)

theorem ne_infinity_of_nonneg (hx : 0.0 ≤ x) : x.toModel.unpack ≠ .infinity .negative := by
  intro hx'
  have hzero := level_le hx
  have htop := top_pos
  rw [level_zero, level, hx'] at hzero
  simp only [units, UnpackedFloat.Sign.apply] at hzero
  omega

/-- A number that is not below zero is finite or the infinity above. -/
theorem isFinite_or_infinity (hx : 0.0 ≤ x) :
    x.isFinite = true ∨ x.toModel.unpack = .infinity .positive := by
  change x.toModel.unpack.isFinite = true ∨ _
  cases hx' : x.toModel.unpack with
  | infinity s =>
      cases s with
      | negative => exact absurd hx' (ne_infinity_of_nonneg hx)
      | positive => exact Or.inr rfl
  | zero s => exact Or.inl rfl
  | notANumber => exact absurd hx' (isNumber_of_le hx).2
  | finite s m e hm => exact Or.inl rfl

end Order

section Results

/-- The units that are left of a number when it is packed. -/
def clamp (z : Int) : Int := max (-(top : Int)) (min top z)

theorem clamp_mono {a b : Int} (h : a ≤ b) : clamp a ≤ clamp b := by
  rw [clamp, clamp]
  omega

/-- The units of the result of an operation grow with the exact ones. -/
theorem clamp_roundedInt_mono (s : Nat) {a b : Int} (h : a ≤ b) :
    clamp (roundedInt s a) ≤ clamp (roundedInt s b) :=
  clamp_mono (roundedInt_mono s h)

theorem clamp_zero : clamp 0 = 0 := by
  have htop := top_pos
  rw [clamp]
  omega

theorem clamp_level (x : Float) : clamp (level x) = level x := by
  have hbounds := level_bounds x
  rw [clamp]
  omega

theorem level_pack {z : Int} (h : HasUnits u z) :
    IsNumber (.ofModel (Float.Model.pack u)) ∧ level (.ofModel (Float.Model.pack u)) = clamp z := by
  refine ⟨fun hpack => ?_, ?_⟩
  · change (Float.Model.pack u).unpack = .notANumber at hpack
    have hnumber := h.number
    rw [unpack_pack h.canonical] at hpack
    cases u with
    | finite s m e hm =>
        rw [cap] at hpack
        split at hpack <;> cases hpack
    | infinity s => cases hpack
    | zero s => cases hpack
    | notANumber => exact hnumber rfl
  · show units (Float.Model.pack u).unpack = clamp z
    rw [units_unpack_pack h.canonical, h.units_eq, clamp]

theorem level_add (hx : x.isFinite = true) (hy : y.isFinite = true) :
    IsNumber (x + y) ∧ level (x + y) = clamp (roundedInt 0 (level x + level y)) :=
  level_pack (hasUnits_add (canonical_unpack _) (canonical_unpack _) hx hy)

theorem level_sub (hx : x.isFinite = true) (hy : y.isFinite = true) :
    IsNumber (x - y) ∧ level (x - y) = clamp (roundedInt 0 (level x - level y)) :=
  level_pack (hasUnits_sub (canonical_unpack _) (canonical_unpack _) hx hy)

theorem level_mul (hx : x.isFinite = true) (hy : y.isFinite = true) :
    IsNumber (x * y) ∧ level (x * y) = clamp (roundedInt 1074 (level x * level y)) :=
  level_pack (hasUnits_mul (canonical_unpack _) (canonical_unpack _) hx hy)

theorem hasUnits_infinity (s : UnpackedFloat.Sign) : HasUnits (.infinity s) (s.apply top) :=
  ⟨trivial, nofun, rfl⟩

theorem roundedInt_level (x : Float) : roundedInt 0 (level x) = level x :=
  roundedInt_units (canonical_unpack x.toModel)

theorem clamp_roundedInt_level (x : Float) : clamp (roundedInt 0 (level x)) = level x := by
  rw [roundedInt_level, clamp_level]

theorem clamp_roundedInt_of_top_le {a : Int} (h : (top : Int) ≤ a) : clamp (roundedInt 0 a) = top := by
  have hround := roundedInt_mono 0 h
  have htop : roundedInt 0 (top : Int) = top := roundedInt_units (u := .infinity .positive) trivial
  rw [htop] at hround
  rw [clamp]
  omega

theorem level_of_infinity (h : x.toModel.unpack = .infinity .positive) : IsNumber x ∧ level x = top := by
  refine ⟨fun hx => ?_, ?_⟩
  · rw [h] at hx
    cases hx
  · rw [level, h]
    rfl

/-- The infinity as the result of an operation. -/
theorem level_pack_infinity :
    IsNumber (.ofModel (Float.Model.pack (.infinity .positive))) ∧
      level (.ofModel (Float.Model.pack (.infinity .positive))) = top :=
  level_of_infinity (unpack_pack (u := .infinity .positive) trivial)

theorem add_infinity (hu : u ≠ .notANumber) (hu' : u ≠ .infinity .negative) :
    UnpackedFloat.add Format.binary64 u (.infinity .positive) = .infinity .positive ∧
      UnpackedFloat.add Format.binary64 (.infinity .positive) u = .infinity .positive := by
  cases u with
  | notANumber => exact absurd rfl hu
  | infinity s =>
      cases s with
      | negative => exact absurd rfl hu'
      | positive => exact ⟨rfl, rfl⟩
  | finite | zero => exact ⟨rfl, rfl⟩

theorem level_add_of_nonneg (hx : 0.0 ≤ x) (hy : 0.0 ≤ y) :
    IsNumber (x + y) ∧ level (x + y) = clamp (roundedInt 0 (level x + level y)) := by
  have hxzero := level_le hx
  have hyzero := level_le hy
  rw [level_zero] at hxzero hyzero
  rcases isFinite_or_infinity hx with hx' | hx'
  · rcases isFinite_or_infinity hy with hy' | hy'
    · exact level_add hx' hy'
    · have hsum : x + y = .ofModel (Float.Model.pack (.infinity .positive)) := by
        show Float.ofModel (Float.Model.pack (UnpackedFloat.add _ _ _)) = _
        rw [hy', (add_infinity (isNumber_of_le hx).2 (ne_infinity_of_nonneg hx)).1]
      have htop := (level_of_infinity hy').2
      rw [hsum, clamp_roundedInt_of_top_le (by omega)]
      exact level_pack_infinity
  · have hsum : x + y = .ofModel (Float.Model.pack (.infinity .positive)) := by
      show Float.ofModel (Float.Model.pack (UnpackedFloat.add _ _ _)) = _
      rw [hx', (add_infinity (isNumber_of_le hy).2 (ne_infinity_of_nonneg hy)).2]
    have htop := (level_of_infinity hx').2
    rw [hsum, clamp_roundedInt_of_top_le (by omega)]
    exact level_pack_infinity

protected theorem add_le_add (hx : 0.0 ≤ x) (hy : 0.0 ≤ y) (hxx : x ≤ x') (hyy : y ≤ y') :
    x + y ≤ x' + y' := by
  obtain ⟨hnumber, hlevel⟩ := level_add_of_nonneg hx hy
  obtain ⟨hnumber', hlevel'⟩ :=
    level_add_of_nonneg (Binary64.le_trans hx hxx) (Binary64.le_trans hy hyy)
  rw [le_iff hnumber hnumber', hlevel, hlevel']
  have hxle := level_le hxx
  have hyle := level_le hyy
  exact clamp_roundedInt_mono 0 (by omega)

protected theorem le_add_left (hx : 0.0 ≤ x) (hy : 0.0 ≤ y) : y ≤ x + y := by
  obtain ⟨hnumber, hlevel⟩ := level_add_of_nonneg hx hy
  have hzero := level_le hx
  rw [level_zero] at hzero
  have hmono : clamp (roundedInt 0 (level y)) ≤ clamp (roundedInt 0 (level x + level y)) :=
    clamp_roundedInt_mono 0 (by omega)
  rw [clamp_roundedInt_level] at hmono
  rwa [le_iff (isNumber_of_le hy).2 hnumber, hlevel]

protected theorem le_add_right (hx : 0.0 ≤ x) (hy : 0.0 ≤ y) : x ≤ x + y := by
  obtain ⟨hnumber, hlevel⟩ := level_add_of_nonneg hx hy
  have hzero := level_le hy
  rw [level_zero] at hzero
  have hmono : clamp (roundedInt 0 (level x)) ≤ clamp (roundedInt 0 (level x + level y)) :=
    clamp_roundedInt_mono 0 (by omega)
  rw [clamp_roundedInt_level] at hmono
  rwa [le_iff (isNumber_of_le hx).2 hnumber, hlevel]

protected theorem add_nonneg (hx : 0.0 ≤ x) (hy : 0.0 ≤ y) : 0.0 ≤ x + y :=
  Binary64.le_trans hy (Binary64.le_add_left hx hy)

theorem level_sub_infinity (hx : x.isFinite = true) (hy : y.toModel.unpack = .infinity .positive) :
    IsNumber (x - y) ∧ level (x - y) = -(top : Int) := by
  have hdifference : x - y = .ofModel (Float.Model.pack (.infinity .negative)) := by
    show Float.ofModel (Float.Model.pack (UnpackedFloat.sub _ _ _)) = _
    change x.toModel.unpack.isFinite = true at hx
    rw [hy]
    cases hx' : x.toModel.unpack with
    | finite | zero => rfl
    | infinity | notANumber =>
        rw [hx'] at hx
        cases hx
  have hunits := level_pack (hasUnits_infinity .negative)
  rw [hdifference]
  refine ⟨hunits.1, hunits.2.trans ?_⟩
  rw [clamp, UnpackedFloat.Sign.apply]
  omega

theorem isNumber_sub (hx : x.isFinite = true) (hy : 0.0 ≤ y) : IsNumber (x - y) := by
  rcases isFinite_or_infinity hy with hy' | hy'
  · exact (level_sub hx hy').1
  · exact (level_sub_infinity hx hy').1

/-- What is left of a number gets smaller with the number and with what is taken off. -/
protected theorem sub_le_sub (hx : x.isFinite = true) (hx' : x'.isFinite = true) (hxx : x' ≤ x)
    (hy : 0.0 ≤ y) (hyy : y ≤ y') : x' - y' ≤ x - y := by
  rcases isFinite_or_infinity (Binary64.le_trans hy hyy) with hy' | hy'
  · obtain ⟨hnumber, hlevel⟩ := level_sub hx (isFinite_of_le hy hyy hy')
    obtain ⟨hnumber', hlevel'⟩ := level_sub hx' hy'
    rw [le_iff hnumber' hnumber, hlevel, hlevel']
    have hxle := level_le hxx
    have hyle := level_le hyy
    exact clamp_roundedInt_mono 0 (by omega)
  · obtain ⟨hnumber', hlevel'⟩ := level_sub_infinity hx' hy'
    rw [le_iff hnumber' (isNumber_sub hx hy), hlevel']
    exact (level_bounds _).1

protected theorem sub_le_self (hx : x.isFinite = true) (hy : 0.0 ≤ y) (hy' : y.isFinite = true) :
    x - y ≤ x := by
  obtain ⟨hnumber, hlevel⟩ := level_sub hx hy'
  have hzero := level_le hy
  rw [level_zero] at hzero
  have hmono : clamp (roundedInt 0 (level x - level y)) ≤ clamp (roundedInt 0 (level x)) :=
    clamp_roundedInt_mono 0 (by omega)
  rw [clamp_roundedInt_level] at hmono
  rwa [le_iff hnumber (isNumber_of_isFinite hx), hlevel]

theorem level_infinity_mul (hx : x.toModel.unpack = .infinity .positive) (hy : 0.0 < y)
    (hy' : y.isFinite = true) : IsNumber (x * y) ∧ level (x * y) = top := by
  have hpos := isPositive_iff.mp (decide_eq_true hy)
  have hproduct : x * y = .ofModel (Float.Model.pack (.infinity .positive)) := by
    show Float.ofModel (Float.Model.pack (UnpackedFloat.mul _ _ _)) = _
    change y.toModel.unpack.isFinite = true at hy'
    rw [hx]
    cases hy'' : y.toModel.unpack with
    | finite s m e hm =>
        rw [hy''] at hpos
        cases hpos
        rfl
    | zero s =>
        rw [hy''] at hpos
        exact hpos.elim
    | infinity | notANumber =>
        rw [hy''] at hy'
        cases hy'
  rw [hproduct]
  exact level_pack_infinity

theorem isNumber_mul (hx : 0.0 ≤ x) (hy : 0.0 < y) (hy' : y.isFinite = true) : IsNumber (x * y) := by
  rcases isFinite_or_infinity hx with hx' | hx'
  · exact (level_mul hx' hy').1
  · exact (level_infinity_mul hx' hy hy').1

protected theorem mul_le_mul_right (hx : 0.0 ≤ x) (hxx : x ≤ x') (hy : 0.0 < y)
    (hy' : y.isFinite = true) : x * y ≤ x' * y := by
  have hnumber := isNumber_mul hx hy hy'
  rcases isFinite_or_infinity (Binary64.le_trans hx hxx) with hx' | hx'
  · have hlevel := (level_mul (isFinite_of_le hx hxx hx') hy').2
    obtain ⟨hnumber', hlevel'⟩ := level_mul hx' hy'
    have hyzero := (lt_iff isNumber_zero (isNumber_of_isFinite hy')).mp hy
    rw [level_zero] at hyzero
    rw [le_iff hnumber hnumber', hlevel, hlevel']
    exact clamp_roundedInt_mono 1074
      (Int.mul_le_mul_of_nonneg_right (level_le hxx) (Int.le_of_lt hyzero))
  · obtain ⟨hnumber', hlevel'⟩ := level_infinity_mul hx' hy hy'
    rw [le_iff hnumber hnumber', hlevel']
    exact (level_bounds _).2

protected theorem mul_nonneg (hx : 0.0 ≤ x) (hy : 0.0 < y) (hy' : y.isFinite = true) : 0.0 ≤ x * y := by
  obtain ⟨hnumber, hlevel⟩ := level_mul (x := 0.0) rfl hy'
  rw [level_zero, Int.zero_mul, roundedInt_zero, clamp_zero] at hlevel
  have hproduct : 0.0 ≤ 0.0 * y := by
    rw [le_iff isNumber_zero hnumber, hlevel, level_zero]
  exact Binary64.le_trans hproduct (Binary64.mul_le_mul_right (le_self isNumber_zero) hx hy hy')

protected theorem mul_le_mul_left (hy : 0.0 < y) (hy' : y.isFinite = true) (hx : x.isFinite = true)
    (hx' : x'.isFinite = true) (hxx : x ≤ x') : y * x ≤ y * x' := by
  obtain ⟨hnumber, hlevel⟩ := level_mul hy' hx
  obtain ⟨hnumber', hlevel'⟩ := level_mul hy' hx'
  have hyzero := (lt_iff isNumber_zero (isNumber_of_isFinite hy')).mp hy
  rw [level_zero] at hyzero
  rw [le_iff hnumber hnumber', hlevel, hlevel']
  exact clamp_roundedInt_mono 1074
    (Int.mul_le_mul_of_nonneg_left (level_le hxx) (Int.le_of_lt hyzero))

protected theorem mul_nonneg_left (hy : 0.0 < y) (hy' : y.isFinite = true) (hx : 0.0 ≤ x)
    (hx' : x.isFinite = true) : 0.0 ≤ y * x := by
  obtain ⟨hnumber, hlevel⟩ := level_mul (y := 0.0) hy' rfl
  rw [level_zero, Int.mul_zero, roundedInt_zero, clamp_zero] at hlevel
  have hproduct : 0.0 ≤ y * 0.0 := by
    rw [le_iff isNumber_zero hnumber, hlevel, level_zero]
  exact Binary64.le_trans hproduct (Binary64.mul_le_mul_left hy hy' rfl hx' hx)

end Results

section Whole

theorem magnitude_add (m n : Nat) (e : Int) : magnitude (m + n) e = magnitude m e + magnitude n e :=
  Nat.add_mul ..

theorem magnitude_le (h : m ≤ n) (e : Int) : magnitude m e ≤ magnitude n e := Nat.mul_le_mul_right _ h

theorem magnitude_lt_of_lt (h : m < n) (e : Int) : magnitude m e < magnitude n e :=
  Nat.mul_lt_mul_of_pos_right h (Nat.two_pow_pos _)

theorem clamp_of_lt (h : n < top) : clamp n = n := by
  rw [clamp]
  omega

theorem level_toFloat (h : n < 2 ^ 53) :
    IsNumber n.toUInt64.toFloat ∧ level n.toUInt64.toFloat = magnitude n 0 := by
  have hsame : n.toUInt64.toNat = n := by
    rw [UInt64.toNat_ofNat', Nat.mod_eq_of_lt]
    omega
  have hmodel : n.toUInt64.toFloat = .ofModel (Float.Model.pack
      (UnpackedFloat.normalize Format.binary64 n 0 .positive)) := by
    show Float.ofModel (Float.Model.pack (UnpackedFloat.normalize _ n.toUInt64.toNat _ _)) = _
    rw [hsame]
  obtain ⟨hnumber, hlevel⟩ := level_pack (hasUnits_normalize (z := n) (e := 0) (by decide) .positive)
  have hexact : (n : Int) * 2 ^ (0 + 1074 : Int).toNat = magnitude n 0 := by
    rw [magnitude, Nat.cast_mul, Nat.cast_pow, Nat.cast_ofNat]
  rw [hexact, roundedInt_natCast, rounded_magnitude h, clamp_of_lt (magnitude_lt_top h (by decide))]
    at hlevel
  rw [hmodel]
  exact ⟨hnumber, hlevel⟩

theorem level_mul_one (hx : x.isFinite = true) : IsNumber (x * 1.0) ∧ level (x * 1.0) = level x := by
  obtain ⟨s, hs⟩ : ∃ s, s = 1074 := ⟨_, rfl⟩
  have hone : level 1.0 = 2 ^ s := by
    have hunpack : (1.0 : Float).toModel.unpack = .finite .positive (2 ^ 52) (-52) (by decide) := by rfl
    have hexp : 52 + (-52 + 1074 : Int).toNat = s := hs.symm
    rw [level, hunpack, units, UnpackedFloat.Sign.apply, magnitude, ← Nat.pow_add, hexp, Nat.cast_pow,
      Nat.cast_ofNat]
  obtain ⟨hnumber, hlevel⟩ := level_mul (y := 1.0) hx rfl
  refine ⟨hnumber, ?_⟩
  rw [hlevel, hone, ← hs, roundedInt_mul_two_pow, clamp_roundedInt_level]

/-- A natural number is converted with one rounding. -/
theorem level_ofNat (n : Nat) :
    IsNumber (Float.ofNat n) ∧ level (Float.ofNat n) = clamp (rounded 0 (magnitude n 0)) := by
  change IsNumber (Float.ofScientific n false 0) ∧ level (Float.ofScientific n false 0) = _
  by_cases hn : n < 2 ^ 53
  · obtain ⟨hnumber, hlevel⟩ := level_toFloat hn
    have hlt := magnitude_lt_top hn (e := 0) (by decide)
    rw [Float.ofScientific, dif_pos ⟨hn, by decide⟩]
    change IsNumber (n.toUInt64.toFloat * 1.0) ∧ level (n.toUInt64.toFloat * 1.0) = _
    rw [rounded_magnitude hn, clamp_of_lt hlt, ← hlevel]
    exact level_mul_one (isFinite_of_level_lt hnumber (by omega))
  · have hpos : 0 < n := by omega
    have hmodel : Float.ofScientific n false 0 = .ofModel (Float.Model.pack
        (UnpackedFloat.roundWithAccuracy Format.binary64 .positive (n <<< 53 * 1) (-53) .exact)) := by
      rw [Float.ofScientific, dif_neg fun h => hn h.1]
      show Float.ofModel (Float.Model.pack (UnpackedFloat.ofScientific Format.binary64 n 0)) = _
      rw [UnpackedFloat.ofScientific, dif_neg (by omega), if_neg (by decide), if_neg, if_pos (by decide)]
      · rfl
      · show ¬(0 : Int) < -(2 ^ 11 + (n.log2 : Int))
        omega
    have hlog : 53 ≤ n.log2 := (Nat.le_log2 (by omega)).mpr (by omega)
    have hexp : 53 + (-53 + 1074 + (0 : Nat) : Int).toNat = (0 + 1074 : Int).toNat := rfl
    have hexact : n <<< 53 * 1 * 2 ^ (-53 + 1074 + (0 : Nat) : Int).toNat = magnitude n 0 := by
      rw [Nat.mul_one, Nat.shiftLeft_eq, Nat.mul_assoc, ← Nat.pow_add, hexp, magnitude]
    have htarget : (-53 : Int) ≤ target (n <<< 53 * 1) (-53) := by
      rw [target_eq, Nat.mul_one, Nat.shiftLeft_eq, log2_mul_two_pow hpos]
      omega
    have hunits := hasUnits_roundWithAccuracy .positive
      (Nat.mul_pos (shiftLeft_pos hpos 53) Nat.one_pos) htarget (s := 0) (by decide)
    rw [hexact] at hunits
    rw [hmodel]
    exact level_pack hunits

theorem ofNat_le_ofNat (h : m ≤ n) : Float.ofNat m ≤ Float.ofNat n := by
  obtain ⟨hnumber, hlevel⟩ := level_ofNat m
  obtain ⟨hnumber', hlevel'⟩ := level_ofNat n
  rw [le_iff hnumber hnumber', hlevel, hlevel']
  exact clamp_mono (Int.ofNat_le.mpr (rounded_mono 0 (magnitude_le h 0)))

theorem zero_le_ofNat (n : Nat) : 0.0 ≤ Float.ofNat n := by
  have hzero : (0.0 : Float) = Float.ofNat 0 := rfl
  rw [hzero]
  exact ofNat_le_ofNat (Nat.zero_le n)

theorem magnitude_two_pow : magnitude (2 ^ 53) 0 = magnitude 1 53 := by
  have hexp : 53 + (0 + 1074 : Int).toNat = (53 + 1074 : Int).toNat := rfl
  rw [magnitude, magnitude, ← Nat.pow_add, Nat.one_mul, hexp]

/-- Whole numbers of 53 bits are kept. -/
theorem rounded_whole (h : n ≤ 2 ^ 53) : rounded 0 (magnitude n 0) = magnitude n 0 := by
  rcases Nat.eq_or_lt_of_le h with heq | hlt
  · rw [heq, magnitude_two_pow, rounded_magnitude (by decide)]
  · exact rounded_magnitude hlt 0

theorem magnitude_lt_top_of_le (h : n ≤ 2 ^ 53) : magnitude n 0 < top := by
  have hlt : magnitude 1 53 < top := magnitude_lt_top (by decide) (by decide)
  rw [← magnitude_two_pow] at hlt
  exact Nat.lt_of_le_of_lt (magnitude_le h 0) hlt

theorem level_ofNat_of_le (h : n ≤ 2 ^ 53) : level (Float.ofNat n) = magnitude n 0 := by
  rw [(level_ofNat n).2, rounded_whole h, clamp_of_lt (magnitude_lt_top_of_le h)]

theorem isFinite_ofNat (h : n ≤ 2 ^ 53) : (Float.ofNat n).isFinite = true := by
  have htop := top_pos
  have hlt := magnitude_lt_top_of_le h
  have hlevel := level_ofNat_of_le h
  exact isFinite_of_level_lt (level_ofNat n).1 (by omega)

theorem toNat_ofNatClamp (n : Nat) : (UInt64.ofNatClamp n).toNat = min n (2 ^ 64 - 1) := by
  rw [UInt64.ofNatClamp]
  split
  · next h =>
    have hlt : n < 2 ^ 64 := h
    rw [UInt64.toNat_ofNatLT]
    omega
  · next h =>
    have hle : ¬n < 2 ^ 64 := h
    rw [UInt64.toNat_ofNatLT]
    show 2 ^ 64 - 1 = _
    omega

theorem toNat_roundToInt (m : Nat) (e : Int) :
    (UnpackedFloat.roundToInt .positive m e).toNat = m <<< e.toNat / 2 ^ (-e).toNat := by
  rw [UnpackedFloat.roundToInt, UnpackedFloat.decreaseExponent]
  simp only [UnpackedFloat.shiftToExponent, UnpackedFloat.Sign.apply]
  rw [mantissa_shiftRight, mantissa_ofMantissaAndAccuracy, Int.toNat_natCast, Int.sub_zero]
  congr 2
  omega

theorem magnitude_lt_floor (m : Nat) (he : -1074 ≤ e) :
    magnitude m e < magnitude (m <<< e.toNat / 2 ^ (-e).toNat + 1) 0 := by
  have hlt : m <<< e.toNat < (m <<< e.toNat / 2 ^ (-e).toNat + 1) * 2 ^ (-e).toNat := by
    rw [Nat.mul_comm]
    exact Nat.lt_mul_div_succ _ (Nat.two_pow_pos _)
  have hscale := Nat.mul_lt_mul_of_pos_right hlt (Nat.two_pow_pos (1074 - (-e).toNat))
  rw [Nat.mul_assoc, ← Nat.pow_add, Nat.shiftLeft_eq, Nat.mul_assoc, ← Nat.pow_add] at hscale
  rw [magnitude, magnitude, Nat.shiftLeft_eq]
  have hexp : (e + 1074).toNat = e.toNat + (1074 - (-e).toNat) := by omega
  have hexp' : (0 + 1074 : Int).toNat = (-e).toNat + (1074 - (-e).toNat) := by omega
  rw [hexp, hexp']
  exact hscale

/-- The whole part of a number is less than one below it, where it has 64 bits. -/
theorem level_lt_of_toUInt64 (hx : 0.0 < x) (hx' : x.isFinite = true) :
    level x < magnitude (x.toUInt64.toNat + 1) 0 ∨ 2 ^ 64 ≤ x.toUInt64.toNat + 1 := by
  have hpos := isPositive_iff.mp (decide_eq_true hx)
  have hcanonical := canonical_unpack x.toModel
  change x.toModel.unpack.isFinite = true at hx'
  have hclamp : x.toUInt64.toNat =
      min (UnpackedFloat.toInt 0 (UInt64.size - 1 : Nat) x.toModel.unpack).toNat (2 ^ 64 - 1) :=
    toNat_ofNatClamp _
  rw [level]
  cases hunpack : x.toModel.unpack with
  | finite s m e hm =>
      rw [hunpack] at hpos hclamp hcanonical
      cases hpos
      rw [UnpackedFloat.toInt, toNat_roundToInt] at hclamp
      have hfloor := magnitude_lt_floor m hcanonical.2.1
      rw [units, UnpackedFloat.Sign.apply]
      by_cases hbig : 2 ^ 64 - 1 ≤ m <<< e.toNat / 2 ^ (-e).toNat
      · omega
      · left
        rw [hclamp, Nat.min_eq_left (by omega)]
        exact Int.ofNat_lt.mpr hfloor
  | zero s =>
      rw [hunpack] at hpos
      exact hpos.elim
  | infinity | notANumber =>
      rw [hunpack] at hx'
      cases hx'

end Whole
end Wireframe.Binary64
