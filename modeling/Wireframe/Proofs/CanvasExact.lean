import Wireframe.Proofs.FloatArithmetic
import Wireframe.Proofs.FloatRatio

/-! The canvas of a ratio. The other edge depends on the ratio only, and exchanging the numbers of the ratio
exchanges the edges. For numbers up to `2 ^ 40` the other edge is the nearest whole number of pixels
(`Canvas.ofRatio_exact`): a quotient by such a number that is below a half is below it by `2 ^ -41` at least,
and neither rounding on the way goes past the number there. -/

namespace Wireframe.Canvas

open Binary64 (IsUpTo level magnitude divNat one magnitude_one level_add_half)

section Pixels

variable {m d n : Nat}

/-- The number is the nearest one to the quotient `1280 * m / d`, a half going up. -/
structure IsNearest (m d n : Nat) : Prop where
  le : 2 * n * d ≤ 2 * (1280 * m) + d
  lt : 2 * (1280 * m) + d < 2 * (n + 1) * d

theorem magnitude_whole (n k : Nat) (hk : k ≤ 1074) : magnitude (n * 2 ^ k) (-k) = magnitude n 0 := by
  rw [Binary64.magnitude_mul_two_pow n k (by omega), Int.add_left_neg]

/-- With a half the quotient is not below its nearest number of pixels. -/
theorem le_level (hm : 0 < m) (hd : 0 < d) (hn : n ≤ 1280) (h : IsNearest m d n)
    (hq : IsUpTo 1280 (divNat (1280 * m) d)) : magnitude n 0 ≤ level (divNat (1280 * m) d + 0.5) := by
  have hfinite := hq.isFinite (by decide)
  by_cases hzero : n = 0
  · rw [hzero, Binary64.magnitude_eq_mul, Nat.zero_mul]
    exact (isFinite_add_half hq).2
  have hpos : 0 < 1280 * m := Nat.mul_pos (by decide) hm
  have hexact : (2 * n - 1) * d * 2 ^ 0 ≤ 1280 * m * 2 ^ 1 := by
    have hle := h.le
    rw [Nat.sub_mul]
    omega
  have hquotient := (Binary64.level_divNat hpos hd (show 2 * n - 1 < 2 ^ 53 by omega)
    (show (-1074 : Int) ≤ -1 by decide) (by decide) rfl).2 hexact
  have hsum : magnitude (2 * n - 1) (-1) + magnitude 1 (-1) = magnitude n 0 := by
    rw [← Binary64.magnitude_add, Nat.sub_add_cancel (by omega), Nat.mul_comm, ← Nat.pow_one 2]
    exact magnitude_whole n 1 (by decide)
  refine (level_add_half hfinite (by omega) (by decide)).2 ?_
  rw [← hsum]
  push_cast
  omega

/-- With a half the quotient does not reach the next number of pixels: it is below it by `2 ^ -41` at
least. -/
theorem level_lt (hm : 0 < m) (hd : 0 < d) (hd' : d ≤ 2 ^ 40) (hn : n ≤ 1280) (h : IsNearest m d n)
    (hq : IsUpTo 1280 (divNat (1280 * m) d)) : level (divNat (1280 * m) d + 0.5) < magnitude (n + 1) 0 := by
  have hfinite := hq.isFinite (by decide)
  have hpos : 0 < 1280 * m := Nat.mul_pos (by decide) hm
  -- the number `2 ^ -41` below the half behind the pixel, in units of `2 ^ -41`
  obtain ⟨a, ha⟩ : ∃ a, a + 1 = (2 * n + 1) * 2 ^ 40 := ⟨(2 * n + 1) * 2 ^ 40 - 1, by omega⟩
  have hexact : 1280 * m * 2 ^ 41 ≤ a * d * 2 ^ 0 := by
    have hlt : 2 * (1280 * m) + 1 ≤ (2 * n + 1) * d := by
      have hnext := h.lt
      rw [Nat.mul_add, Nat.add_mul] at hnext
      rw [Nat.add_mul]
      omega
    have hscaled : (2 * (1280 * m) + 1) * 2 ^ 40 ≤ a * d + 2 ^ 40 := by
      calc
        (2 * (1280 * m) + 1) * 2 ^ 40 ≤ (2 * n + 1) * d * 2 ^ 40 := Nat.mul_le_mul_right _ hlt
        _ = (a + 1) * d := by rw [ha, Nat.mul_right_comm]
        _ = a * d + d := Nat.add_one_mul a d
        _ ≤ a * d + 2 ^ 40 := Nat.add_le_add_left hd' _
    have hdouble : 1280 * m * 2 ^ 41 = 2 * (1280 * m) * 2 ^ 40 := by ring
    rw [Nat.add_mul, Nat.one_mul] at hscaled
    rw [hdouble, Nat.pow_zero, Nat.mul_one]
    exact Nat.le_of_add_le_add_right hscaled
  have hquotient := (Binary64.level_divNat hpos hd (show a < 2 ^ 53 by omega)
    (show (-1074 : Int) ≤ -41 by decide) (by decide) rfl).1 hexact
  have hhalf : magnitude 1 (-1) = magnitude (2 ^ 40) (-41) := by
    have hscale := Binary64.magnitude_mul_two_pow 1 40 (show (-1074 : Int) ≤ -41 by decide)
    rw [Nat.one_mul] at hscale
    exact hscale.symm
  have hround := (level_add_half hfinite (show a + 2 ^ 40 < 2 ^ 53 by omega)
    (show (-41 : Int) ≤ 971 by decide)).1 (by
      rw [Binary64.magnitude_add, ← hhalf, Nat.cast_add]
      exact Int.add_le_add_right hquotient _)
  have hnext : magnitude (a + 2 ^ 40) (-41) < magnitude (n + 1) 0 := by
    rw [← magnitude_whole (n + 1) 41 (by decide)]
    exact Binary64.magnitude_lt_of_lt (by omega) (-41)
  exact hround.trans_lt (Int.ofNat_lt.mpr hnext)

theorem pixels_divNat (hm : 0 < m) (hmd : m ≤ d) (hd : d ≤ 2 ^ 40) (h : IsNearest m d n) :
    pixels (divNat (1280 * m) d) = n := by
  have hdpos : 0 < d := Nat.lt_of_lt_of_le hm hmd
  have hq : IsUpTo 1280 (divNat (1280 * m) d) := Binary64.isUpTo_divNat hdpos (by decide) (by omega)
  have hn : n ≤ 1280 := by
    have hle : 2 * n * d < 2562 * d := by
      calc
        2 * n * d ≤ 2 * (1280 * m) + d := h.le
        _ < 2562 * d := by omega
    have hlt := Nat.lt_of_mul_lt_mul_right hle
    omega
  have hone : (0 : Int) < one := Int.natCast_pos.mpr Binary64.one_pos
  have hlow := le_level hm hdpos hn h hq
  have hhigh := level_lt hm hdpos hd hn h hq
  rw [Binary64.magnitude_eq_mul, magnitude_one, Nat.cast_mul] at hlow hhigh
  have hleast := (Int.le_ediv_iff_mul_le hone).mpr hlow
  have hmost := Int.ediv_lt_of_lt_mul hone hhigh
  rw [pixels_eq hq]
  omega

end Pixels

section Ratio

variable {w h k short long n : Int}

theorem otherEdge_eq (hshort : 0 < short) (hle : short ≤ long) :
    otherEdge short long = .ok (pixels (divNat (1280 * short.natAbs) long.natAbs)) := by
  rw [otherEdge, (quotient_edge hshort hle).1]
  rfl

theorem otherEdge_mul (hk : 0 < k) (hshort : 0 < short) (hle : short ≤ long) :
    otherEdge (k * short) (k * long) = otherEdge short long := by
  have hlong : 0 < long.natAbs := by omega
  have hkle : k * short ≤ k * long := Int.mul_le_mul_of_nonneg_left hle hk.le
  rw [otherEdge_eq (Int.mul_pos hk hshort) hkle, otherEdge_eq hshort hle, Int.natAbs_mul, Int.natAbs_mul,
    Nat.mul_left_comm, Binary64.divNat_mul_mul (by omega) hlong]

/-- Equal numbers are those of a square. -/
theorem otherEdge_self (hw : 0 < w) : otherEdge w w = .ok longest := by
  have hsquare : otherEdge 1 1 = .ok longest := by
    rw [otherEdge_eq Int.one_pos (Int.le_refl 1)]
    exact congrArg Except.ok (pixels_divNat Nat.one_pos (Nat.le_refl 1) (by decide) ⟨by decide, by decide⟩)
  have hscale := otherEdge_mul hw Int.one_pos (Int.le_refl 1)
  rw [Int.mul_one, hsquare] at hscale
  exact hscale

theorem isNearest_of_floor {m d n : ℕ} (hd : 0 < d) (h : ⌊(1280 * m : ℚ) / d + 1 / 2⌋ = n) :
    IsNearest m d n := by
  have hdpos : (0 : ℚ) < d := Nat.cast_pos.mpr hd
  obtain ⟨hle, hlt⟩ := Int.floor_eq_iff.mp h
  have hsame : (1280 * m : ℚ) / d * d = 1280 * m := div_mul_cancel₀ _ hdpos.ne'
  constructor
  · have hscaled := mul_le_mul_of_nonneg_right hle hdpos.le
    rw [add_mul, hsame, Int.cast_natCast] at hscaled
    have hcast : (2 * n * d : ℚ) ≤ 2 * (1280 * m) + d := by linarith
    exact_mod_cast hcast
  · have hscaled := mul_lt_mul_of_pos_right hlt hdpos
    rw [add_mul, hsame, Int.cast_natCast] at hscaled
    have hcast : (2 * (1280 * m) + d : ℚ) < 2 * (n + 1) * d := by linarith
    exact_mod_cast hcast

/-- An edge that is to the longest one as `short` to `long`, and the nearest number of pixels for numbers
that binary64 has room for. -/
structure IsOtherEdge (short long n : Int) : Prop where
  nonneg : 0 ≤ n
  le_longest : n ≤ longest
  nearest : long ≤ 2 ^ 40 → n = ⌊(1280 * short : ℚ) / long + 1 / 2⌋

theorem exists_isOtherEdge (hshort : 0 < short) (hle : short ≤ long) :
    ∃ n, otherEdge short long = .ok n ∧ IsOtherEdge short long n := by
  have hedge := otherEdge_eq hshort hle
  obtain ⟨hnonneg, hmost, -⟩ := otherEdge_bounds hshort hle hedge
  refine ⟨_, hedge, hnonneg, hmost, fun hlong => ?_⟩
  obtain ⟨m, rfl⟩ := Int.eq_ofNat_of_zero_le hshort.le
  obtain ⟨d, rfl⟩ := Int.eq_ofNat_of_zero_le (hshort.le.trans hle)
  have hfloor : 0 ≤ ⌊(1280 * m : ℚ) / d + 1 / 2⌋ := Int.floor_nonneg.mpr (by positivity)
  obtain ⟨n, hn⟩ := Int.eq_ofNat_of_zero_le hfloor
  have hpixels := pixels_divNat (by omega) (by omega) (by omega) (isNearest_of_floor (by omega) hn)
  rw [Int.natAbs_natCast, Int.natAbs_natCast, hpixels, Int.cast_natCast, Int.cast_natCast, hn]

/-- The canvas is exact for a ratio: the longest edge is fixed, the other one is to it as the ratio says,
and only the ratio and its order count. -/
structure IsExact (w h : Int) (c : Canvas) : Prop where
  landscape : h ≤ w → c.width = longest ∧ IsOtherEdge h w c.height
  portrait : w < h → c.height = longest ∧ IsOtherEdge w h c.width
  swapped : ofRatio (h, w) = .ok ⟨c.height, c.width⟩
  scaled : ∀ k : Int, 0 < k → ofRatio (k * w, k * h) = .ok c

theorem ofRatio_of_le (hle : h ≤ w) (hn : otherEdge h w = .ok n) : ofRatio (w, h) = .ok ⟨longest, n⟩ := by
  rw [ofRatio, if_pos hle, hn]
  rfl

theorem ofRatio_of_lt (hlt : w < h) (hn : otherEdge w h = .ok n) : ofRatio (w, h) = .ok ⟨n, longest⟩ := by
  rw [ofRatio, if_neg (Int.not_le.mpr hlt), hn]
  rfl

/-- The canvas of the exchanged ratio. -/
theorem ofRatio_swapped (hh : 0 < h) (hle : h ≤ w) (hn : otherEdge h w = .ok n) :
    ofRatio (h, w) = .ok ⟨n, longest⟩ := by
  rcases hle.lt_or_eq with hlt | rfl
  · exact ofRatio_of_lt hlt hn
  · -- a square has its width fixed in either order, and the other edge is as long
    have hsquare := otherEdge_self hh
    rw [hn] at hsquare
    cases hsquare
    exact ofRatio_of_le hle hn

/-- Each ratio of positive numbers has a canvas. Its longest edge is that of all canvases, the other one is
the nearest number of pixels, it depends on the ratio only, and the exchanged ratio has the edges
exchanged. -/
theorem ofRatio_exact (hw : 0 < w) (hh : 0 < h) : ∃ c, ofRatio (w, h) = .ok c ∧ IsExact w h c := by
  by_cases hle : h ≤ w
  · obtain ⟨n, hn, hedge⟩ := exists_isOtherEdge hh hle
    refine ⟨_, ofRatio_of_le hle hn, fun _ => ⟨rfl, hedge⟩, fun hlt => absurd hle hlt.not_ge,
      ofRatio_swapped hh hle hn, fun k hk => ?_⟩
    apply ofRatio_of_le (Int.mul_le_mul_of_nonneg_left hle hk.le)
    rw [otherEdge_mul hk hh hle, hn]
  · have hlt : w < h := Int.not_le.mp hle
    obtain ⟨n, hn, hedge⟩ := exists_isOtherEdge hw hlt.le
    refine ⟨_, ofRatio_of_lt hlt hn, fun hge => absurd hge hle, fun _ => ⟨rfl, hedge⟩,
      ofRatio_of_le hlt.le hn, fun k hk => ?_⟩
    apply ofRatio_of_lt (Int.mul_lt_mul_of_pos_left hlt hk)
    rw [otherEdge_mul hk hw hlt.le, hn]

/-- The canvas of a wide screen. -/
theorem ofRatio_exact_of_wide_screen :
    (0 : Int) < 16 ∧ (0 : Int) < 9 ∧ ofRatio (16, 9) = .ok ⟨1280, 720⟩ ∧ IsExact 16 9 ⟨1280, 720⟩ := by
  have hcanvas : ofRatio (16, 9) = .ok ⟨1280, 720⟩ := by decide +kernel
  refine ⟨by decide, by decide, hcanvas, ?_⟩
  obtain ⟨c, hc, hexact⟩ := ofRatio_exact (w := 16) (h := 9) (by decide) (by decide)
  rw [hcanvas] at hc
  cases hc
  exact hexact

end Ratio
end Wireframe.Canvas
