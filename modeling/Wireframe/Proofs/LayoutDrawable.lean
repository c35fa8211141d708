import Wireframe.Proofs.LayoutApart

/-! Drawable layouts. What the gaps leave of an edge is divided into sizes that are not below zero and not
above a few thousand pixels, as long as the gaps fit the edge and no weight is too great to be multiplied
by it (`Track.isSizeUpTo_track`). A component is then drawn with a finite width and height that are not
below zero, and for ratios up to 2560 to 1 the canvas has a pixel at least along both edges
(`Document.read_drawable`). Nothing holds a document to such a ratio or to gaps that fit
(`Document.read_undrawable`). -/

namespace Wireframe

open Binary64 (IsUpTo level magnitude)

namespace Measure

variable {a b gap : Measure} {j k m n : Nat}

/-- A size of at most so many pixels. -/
def IsSizeUpTo (n : Nat) (m : Measure) : Prop :=
  m = .ok (.whole 0) ∨ ∃ x, m = .ok (.real x) ∧ IsUpTo n x

/-- A gap of which so many take up at most a number of pixels. -/
def IsGapUpTo (k n : Nat) (m : Measure) : Prop :=
  m = .ok (.whole 0) ∨ ∃ x, m = .ok (.real x) ∧ 0.0 ≤ x ∧ x.isFinite = true ∧
    level x * k ≤ magnitude n 0

/-- What is left of an edge of so many pixels. -/
def IsLeft (n : Nat) (m : Measure) : Prop :=
  m = .ok (.whole n) ∨ ∃ x, m = .ok (.real x) ∧ IsUpTo n x

theorem toFloat?_natCast (h : n ≤ 1280) : (Length.whole n).toFloat? = .ok (Float.ofNat n) :=
  Length.toFloat?_whole (Track.lt_limit_of_le (Int.natCast_nonneg n) (by omega))

theorem IsLeft.exists_toFloat? (h : IsLeft n a) (hn : n ≤ 1280) :
    ∃ l x, a = .ok l ∧ l.toFloat? = .ok x ∧ IsUpTo n x := by
  rcases h with h | ⟨x, h, hx⟩
  · exact ⟨_, _, h, toFloat?_natCast hn, Binary64.isUpTo_ofNat n⟩
  · exact ⟨_, x, h, rfl, hx⟩

theorem IsSizeUpTo.mono (h : IsSizeUpTo m a) (hmn : m ≤ n) : IsSizeUpTo n a := by
  rcases h with h | ⟨x, h, hx⟩
  · exact Or.inl h
  · exact Or.inr ⟨x, h, hx.mono hmn⟩

theorem IsSizeUpTo.isUpTo_toFloat? {x : Float} (h : IsSizeUpTo n a) (hx : a.toFloat? = .ok x) :
    IsUpTo n x := by
  rcases h with rfl | ⟨y, rfl, hy⟩
  · rw [Measure.toFloat?, toFloat?_zero] at hx
    cases hx
    exact (Binary64.isUpTo_ofNat 0).mono (Nat.zero_le n)
  · cases hx
    exact hy

theorem IsSizeUpTo.add (ha : IsSizeUpTo m a) (hb : IsSizeUpTo n b) (hmn : m + n ≤ 2 ^ 53) :
    IsSizeUpTo (m + n) (a + b) := by
  have hzero (k : Nat) : IsUpTo k (Float.ofInt 0) := (Binary64.isUpTo_ofNat 0).mono (Nat.zero_le k)
  rcases ha with rfl | ⟨x, rfl, hx⟩
  · rcases hb with rfl | ⟨y, rfl, hy⟩
    · exact Or.inl rfl
    · rw [ok_add, Length.add_real toFloat?_zero]
      exact Or.inr ⟨_, rfl, (hzero m).add hy hmn⟩
  · rcases hb with rfl | ⟨y, rfl, hy⟩
    · rw [ok_add, Length.real_add x toFloat?_zero]
      exact Or.inr ⟨_, rfl, hx.add (hzero n) hmn⟩
    · rw [ok_add, Length.real_add x (Length.toFloat?_real y)]
      exact Or.inr ⟨_, rfl, hx.add hy hmn⟩

theorem isSizeUpTo_sum {xs : List Measure} (h : ∀ x ∈ xs, IsSizeUpTo n x)
    (hfits : xs.length * n ≤ 2 ^ 53) : IsSizeUpTo (xs.length * n) (Scalar.sum xs) := by
  -- the sum so far and its bound are left general
  have hfold : ∀ m acc, IsSizeUpTo m acc → m + xs.length * n ≤ 2 ^ 53 →
      IsSizeUpTo (m + xs.length * n) (xs.foldl (· + ·) acc) := by
    clear hfits
    induction xs with
    | nil =>
        intro m acc hacc _
        rw [List.length_nil, Nat.zero_mul]
        exact hacc
    | cons x rest ih =>
        intro m acc hacc hroom
        obtain ⟨hx, hrest⟩ := List.forall_mem_cons.mp h
        rw [List.length_cons, Nat.succ_mul] at hroom ⊢
        have hnext := ih hrest (m + n) (acc + x) (hacc.add hx (by omega)) (by omega)
        rwa [Nat.add_assoc, Nat.add_comm n] at hnext
  have hsum := hfold 0 Scalar.zero (Or.inl rfl) (by omega)
  rwa [Nat.zero_add] at hsum

theorem IsGapUpTo.mul_ofInt (h : IsGapUpTo k n gap) (hjk : j ≤ k) (hk : k ≤ 26) (hn : n ≤ 2 ^ 53) :
    IsSizeUpTo n (gap * Scalar.ofInt j) := by
  rcases h with rfl | ⟨x, rfl, hx, hfinite, hle⟩
  · apply Or.inl
    show (Except.ok (Length.whole (0 * j)) : Measure) = _
    rw [Int.zero_mul]
  · have hfewer : level x * j ≤ level x * k :=
      Int.mul_le_mul_of_nonneg_left (by omega) (Binary64.level_le hx)
    rw [ofInt_eq, ok_mul, Length.real_mul x (toFloat?_natCast (by omega))]
    exact Or.inr ⟨_, rfl, Binary64.isUpTo_mul_ofNat hx hfinite (by omega) hn (hfewer.trans hle)⟩

theorem le_foldl {xs : List Measure} (h : ∀ x ∈ xs, IsWeight x) {t : Float} (ht : 0.0 < t) :
    ∃ total, xs.foldl (· + ·) (.ok (.real t)) = .ok (.real total) ∧ t ≤ total ∧
      ∀ w, .ok (.real w) ∈ xs → w ≤ total := by
  induction xs generalizing t with
  | nil => exact ⟨t, rfl, Binary64.le_self (Binary64.isNumber_of_le (Binary64.le_of_lt ht)).2, nofun⟩
  | cons x rest ih =>
      obtain ⟨hx, hrest⟩ := List.forall_mem_cons.mp h
      obtain ⟨y, rfl, hy⟩ := hx
      have hypos : 0.0 ≤ y := Binary64.le_of_lt (of_decide_eq_true hy)
      have hleft := Binary64.le_add_right (Binary64.le_of_lt ht) hypos
      have hright := Binary64.le_add_left (Binary64.le_of_lt ht) hypos
      obtain ⟨total, htotal, hle, hall⟩ :=
        ih hrest (Binary64.lt_of_lt_of_le Binary64.isNumber_zero ht hleft)
      refine ⟨total, htotal, Binary64.le_trans hleft hle, fun w hw => ?_⟩
      rcases List.mem_cons.mp hw with hsame | hmem
      · cases hsame
        exact Binary64.le_trans hright hle
      · exact hall w hmem

/-- Weights above zero add up to no less than each of them. -/
theorem le_sum {xs : List Measure} (h : ∀ x ∈ xs, IsWeight x) {w : Float} (hw : .ok (.real w) ∈ xs) :
    ∃ total, Scalar.sum xs = .ok (.real total) ∧ 0.0 < total ∧ w ≤ total := by
  cases xs with
  | nil => cases hw
  | cons x rest =>
      obtain ⟨hx, hrest⟩ := List.forall_mem_cons.mp h
      obtain ⟨y, rfl, hy⟩ := hx
      have hypos := of_decide_eq_true hy
      have hfirst := Binary64.le_add_left (Binary64.zero_le_ofNat 0) (Binary64.le_of_lt hypos)
      have hstart : 0.0 < Float.ofInt 0 + y :=
        Binary64.lt_of_lt_of_le Binary64.isNumber_zero hypos hfirst
      obtain ⟨total, htotal, hle, hall⟩ := le_foldl hrest hstart
      have hstep : (Scalar.zero : Measure) + .ok (.real y) = .ok (.real (Float.ofInt 0 + y)) := by
        rw [Scalar.zero, ofInt_eq, ok_add, Length.add_real toFloat?_zero]
      have hsum : Scalar.sum (.ok (.real y) :: rest) = .ok (.real total) := by
        rw [Scalar.sum, List.foldl_cons, hstep, htotal]
      refine ⟨total, hsum, Binary64.lt_of_lt_of_le Binary64.isNumber_zero hstart hle, ?_⟩
      rcases List.mem_cons.mp hw with hsame | hmem
      · cases hsame
        exact Binary64.le_trans hfirst hle
      · exact hall w hmem

end Measure

namespace Track

open Wireframe.Measure

variable {a gap : Measure} {sizes weights : List Measure} {count : Int} {edge n : Nat}

theorem eq_of_checked_eq_ok {x y : Measure} (h : checked x = .ok y) : y = x := by
  cases x with
  | ok l =>
      cases h
      rfl
  | error fault => cases h

theorem eq_of_mem_uniform (h : uniform a count = .ok sizes) : ∀ s ∈ sizes, s = a / Scalar.ofInt count := by
  rw [uniform] at h
  obtain ⟨size, hsize, hrest⟩ := Results.bind_eq_ok.mp h
  rw [← eq_of_checked_eq_ok hsize]
  split at hrest
  · cases hrest
  · cases hrest
    exact fun s hs => List.eq_of_mem_replicate hs

theorem exists_of_mem_weighted (h : weighted a weights = .ok sizes) :
    ∀ s ∈ sizes, ∃ w ∈ weights, s = a * w / Scalar.sum weights := by
  rw [weighted] at h
  obtain ⟨sum, hsum, hsizes⟩ := Results.bind_eq_ok.mp h
  rw [eq_of_checked_eq_ok hsum] at hsizes
  intro s hs
  obtain ⟨w, hw, hshare⟩ := Results.exists_of_mem_mapM hsizes s hs
  exact ⟨w, hw, eq_of_checked_eq_ok hshare⟩

theorem isLeft_available (hgap : IsGapUpTo (count - 1).toNat edge gap) (hedge : edge ≤ 1280)
    (hcount : 1 ≤ count ∧ count ≤ 26) : IsLeft edge (available (Scalar.ofInt edge) gap count) := by
  have hgaps := hgap.mul_ofInt (Nat.le_refl _) (by omega) (by omega)
  rw [Int.toNat_of_nonneg (by omega)] at hgaps
  rw [available]
  rcases hgaps with h | ⟨x, h, hx⟩
  · rw [h, ofInt_eq, ok_sub]
    left
    show (Except.ok (Length.whole (edge - 0)) : Measure) = _
    rw [Int.sub_zero]
  · rw [h, ofInt_eq, ok_sub, Length.sub_real (toFloat?_natCast hedge)]
    exact Or.inr ⟨_, rfl, hx.sub (by omega)⟩

theorem isSizeUpTo_share (ha : IsLeft edge a) (hedge : edge ≤ 1280) (hcount : 1 ≤ count ∧ count ≤ 26) :
    IsSizeUpTo edge (a / Scalar.ofInt count) := by
  obtain ⟨n, rfl⟩ : ∃ n : Nat, count = n := ⟨count.toNat, by omega⟩
  -- without gaps the edge is a whole number, whose quotient is rounded once
  right
  rcases ha with rfl | ⟨x, rfl, hx⟩
  · have hroom : (edge : Int).natAbs < Binary64.limit := lt_limit_of_le (Int.natCast_nonneg edge) (by omega)
    have hquotient : Binary64.divInt edge n = Binary64.divNat edge n := by
      rw [Binary64.divInt, if_pos (propext ⟨fun h => by omega, fun h => by omega⟩)]
      rfl
    rw [ofInt_eq, ok_div, Length.whole_div hroom (by omega), hquotient]
    refine ⟨_, rfl, Binary64.isUpTo_divNat (by omega) (by omega) ?_⟩
    exact Nat.le_mul_of_pos_right edge (by omega)
  · have hle : level x ≤ edge * level (Float.ofNat n) := by
      rw [Binary64.level_ofNat_of_le (by omega)]
      calc
        level x ≤ magnitude edge 0 := hx.level_le (by omega)
        _ = edge * magnitude 1 0 := by rw [Binary64.magnitude_eq_mul, Nat.cast_mul]
        _ ≤ edge * magnitude n 0 := by
          have hone : magnitude 1 0 ≤ magnitude n 0 := Binary64.magnitude_le (by omega) 0
          exact Int.mul_le_mul_of_nonneg_left (Int.ofNat_le.mpr hone) (Int.natCast_nonneg edge)
    have hpos : 0.0 < Float.ofNat n := Binary64.ofNat_pos (by omega) (by omega)
    rw [ofInt_eq, ok_div, Length.real_div x (toFloat?_natCast (by omega))
      (Binary64.beq_zero_of_isPositive (decide_eq_true hpos))]
    exact ⟨_, rfl, Binary64.isUpTo_div hx.nonneg (hx.isFinite (by omega)) hpos (by omega) hle⟩

theorem isSizeUpTo_weightedShare (ha : IsLeft edge a) (hedge : edge ≤ 1280)
    (hpos : ∀ w ∈ weights, IsWeight w) {w : Float} (hw : .ok (.real w) ∈ weights)
    (hwpos : 0.0 < w) (hfinite : w.isFinite = true)
    (hroom : (Float.ofInt Canvas.longest * w).isFinite = true) :
    IsSizeUpTo 2048 (a * .ok (.real w) / Scalar.sum weights) := by
  obtain ⟨total, htotal, htotalPos, hle⟩ := le_sum hpos hw
  obtain ⟨l, y, rfl, hy, hupTo⟩ := ha.exists_toFloat? hedge
  have hlongest : y ≤ Float.ofInt Canvas.longest := (hupTo.mono hedge).le
  -- a product with a power of two is exact, so 2048 stands in for the edge
  have hproduct : 0.0 ≤ y * w := Binary64.mul_nonneg hupTo.nonneg hwpos hfinite
  have hproduct' : (y * w).isFinite = true :=
    Binary64.isFinite_of_le hproduct (Binary64.mul_le_mul_right hupTo.nonneg hlongest hwpos hfinite) hroom
  have hlevel : level (y * w) ≤ 2048 * level total := by
    have hscaled := Binary64.level_mul_le (k := 11) (hupTo.mono (by omega)) (by decide) hwpos hfinite
    have hweight := Binary64.level_le hle
    omega
  rw [htotal, ok_mul, Length.mul_real hy, ok_div, Length.real_div _ (Length.toFloat?_real total)
    (Binary64.beq_zero_of_isPositive (decide_eq_true htotalPos))]
  exact Or.inr ⟨_, rfl, Binary64.isUpTo_div hproduct hproduct' htotalPos (by decide) hlevel⟩

/-- The cells of an axis have sizes that are not below zero, where the gaps fit the edge and no weight is
too great to be multiplied by it. -/
theorem isSizeUpTo_track {floats : Option (List Float)} (h : Plan.track edge gap count floats = .ok sizes)
    (hgap : IsGapUpTo (count - 1).toNat edge gap) (hedge : edge ≤ 1280) (hcount : 1 ≤ count ∧ count ≤ 26)
    (hpos : ∀ ws, floats = some ws → ∀ w ∈ ws, Settings.isPositive w = true)
    (hfinite : ∀ ws, floats = some ws → ∀ w ∈ ws,
      w.isFinite = true ∧ (Float.ofInt Canvas.longest * w).isFinite = true) :
    ∀ s ∈ sizes, IsSizeUpTo 2048 s := by
  have hleft := isLeft_available hgap hedge hcount
  rw [Plan.track, Track.sizes] at h
  obtain ⟨room, hroom, hrest⟩ := Results.bind_eq_ok.mp h
  rw [eq_of_checked_eq_ok hroom] at hrest
  cases floats with
  | none =>
      intro s hs
      rw [eq_of_mem_uniform hrest s hs]
      exact (isSizeUpTo_share hleft hedge hcount).mono (by omega)
  | some ws =>
      have hweights : ∀ w ∈ ws.map fun w => (Scalar.ofLength (.real w) : Measure), IsWeight w := by
        intro w hw
        obtain ⟨x, hx, rfl⟩ := List.mem_map.mp hw
        exact ⟨x, rfl, hpos ws rfl x hx⟩
      simp only [Option.map_some] at hrest
      split at hrest
      · intro s hs
        obtain ⟨w, hw, rfl⟩ := exists_of_mem_weighted hrest s hs
        obtain ⟨x, hx, rfl⟩ := List.mem_map.mp hw
        obtain ⟨hxfinite, hxroom⟩ := hfinite ws rfl x hx
        exact isSizeUpTo_weightedShare hleft hedge hweights hw (of_decide_eq_true (hpos ws rfl x hx))
          hxfinite hxroom
      · cases hrest

/-- A span of cells is not below zero either. -/
theorem isSizeUpTo_length {first last : Nat} (hsizes : ∀ s ∈ sizes, IsSizeUpTo 2048 s)
    (hgap : IsGapUpTo (count - 1).toNat edge gap) (hedge : edge ≤ 1280) (hcount : count ≤ 26)
    (hspan : first ≤ last) (hlast : (last : Int) < count) :
    IsSizeUpTo (26 * 2048 + 1280) (length sizes gap first last) := by
  have hslice : ((sizes.drop first).take (last + 1 - first)).length ≤ 26 := by
    have htake := List.length_take_le (last + 1 - first) (sizes.drop first)
    omega
  have hsliced : ∀ s ∈ (sizes.drop first).take (last + 1 - first), IsSizeUpTo 2048 s :=
    fun s hs => hsizes s (List.mem_of_mem_drop (List.mem_of_mem_take hs))
  have hcells := isSizeUpTo_sum hsliced (by omega)
  have hgaps := hgap.mul_ofInt (show last - first ≤ (count - 1).toNat by omega) (by omega) (by omega)
  have hspanned : ((last - first : Nat) : Int) = last - first := by omega
  rw [hspanned] at hgaps
  exact (hcells.mono (by omega)).add (hgaps.mono hedge) (by decide)

end Track

namespace Canvas

variable {ratio : Int × Int} {canvas : Canvas}

/-- The edges of a canvas, and for which ratios both have a pixel at least. -/
theorem edges_of_ofRatio (hpos : 0 < ratio.1 ∧ 0 < ratio.2) (h : ofRatio ratio = .ok canvas) :
    (0 ≤ canvas.width ∧ canvas.width ≤ longest) ∧ (0 ≤ canvas.height ∧ canvas.height ≤ longest) ∧
      (ratio.1 ≤ 2560 * ratio.2 ∧ ratio.2 ≤ 2560 * ratio.1 → 1 ≤ canvas.width ∧ 1 ≤ canvas.height) ∧
      (ratio.1 ≤ 2 ^ 52 ∧ ratio.2 ≤ 2 ^ 52 → 1 ≤ canvas.width ∧ 1 ≤ canvas.height →
        ratio.1 ≤ 2560 * ratio.2 ∧ ratio.2 ≤ 2560 * ratio.1) := by
  have hlongest : longest = 1280 := rfl
  rw [ofRatio] at h
  by_cases hwide : ratio.2 ≤ ratio.1
  · rw [if_pos hwide] at h
    obtain ⟨height, hheight, rfl⟩ := Results.map_eq_ok.mp h
    have hbounds := otherEdge_bounds hpos.2 hwide hheight
    simp only
    omega
  · rw [if_neg hwide] at h
    obtain ⟨width, hwidth, rfl⟩ := Results.map_eq_ok.mp h
    have hbounds := otherEdge_bounds hpos.1 (Int.le_of_not_le hwide) hwidth
    simp only
    omega

end Canvas

theorem Rect.toFloat?_eq_ok {r : Rect Measure} {f : Rect Float} (h : r.toFloat? = .ok f) :
    r.width.toFloat? = .ok f.width ∧ r.height.toFloat? = .ok f.height := by
  rw [Rect.toFloat?] at h
  obtain ⟨x, -, h⟩ := Results.bind_eq_ok.mp h
  obtain ⟨y, -, h⟩ := Results.bind_eq_ok.mp h
  obtain ⟨width, hwidth, h⟩ := Results.bind_eq_ok.mp h
  obtain ⟨height, hheight, h⟩ := Results.bind_eq_ok.mp h
  obtain ⟨padding, -, h⟩ := Results.bind_eq_ok.mp h
  cases h
  exact ⟨hwidth, hheight⟩

namespace Plan

variable {s : Settings} {p : Plan Measure}

/-- What a plan is made of. -/
theorem ofSettings_eq_ok (h : ofSettings s = .ok p) :
    Canvas.ofRatio s.ratio = .ok p.canvas ∧ p.spacing.gap = .ok s.gap ∧
      track p.canvas.width p.spacing.gap s.grid.1 s.colWidths = .ok p.cols ∧
      track p.canvas.height p.spacing.gap s.grid.2 s.rowHeights = .ok p.rows := by
  rw [ofSettings] at h
  obtain ⟨canvas, hcanvas, h⟩ := Results.bind_eq_ok.mp h
  obtain ⟨spacing, hspacing, h⟩ := Results.bind_eq_ok.mp h
  obtain ⟨cols, hcols, h⟩ := Results.bind_eq_ok.mp h
  obtain ⟨rows, hrows, h⟩ := Results.bind_eq_ok.mp h
  have hgap : spacing.gap = s.gap := by
    rw [Spacing.ofLengths] at hspacing
    split at hspacing
    · cases hspacing
    · split at hspacing
      · cases hspacing
      · cases hspacing
        rfl
  cases h
  exact ⟨Results.mapError_eq_ok.mp hcanvas, congrArg Except.ok hgap, hcols, hrows⟩

/-- The gaps of an axis in units, where they fit its edge. -/
theorem isGapUpTo_of_fits (hsound : s.IsSound) (hgap : s.gap = .whole 0 ∨ ∃ x, s.gap = .real x)
    (hfinite : s.gap.toFloat.isFinite = true) {count : Int} {edge : Nat} (hcount : 1 ≤ count)
    (hfits : s.gap.toRat * (count - 1) ≤ edge) :
    Measure.IsGapUpTo (count - 1).toNat edge (.ok s.gap) := by
  have hsign := hsound.gap_notNegative
  rcases hgap with h | ⟨x, h⟩
  · exact Or.inl (congrArg Except.ok h)
  · rw [h] at hsign hfinite hfits ⊢
    change x.isFinite = true at hfinite
    refine Or.inr ⟨x, rfl, of_decide_eq_true hsign, hfinite, ?_⟩
    have hexact : (level x : ℚ) * (count - 1) ≤ edge * Binary64.one := by
      have hunits : (Length.real x).toRat * Binary64.one = level x := by
        rw [Length.toRat, Binary64.toRat_ofFloat hfinite, div_mul_cancel₀ _ Binary64.cast_one_pos.ne']
      calc
        (level x : ℚ) * (count - 1) = (Length.real x).toRat * (count - 1) * Binary64.one := by
          rw [← hunits]
          ring
        _ ≤ edge * Binary64.one := mul_le_mul_of_nonneg_right hfits Binary64.cast_one_pos.le
    rw [Binary64.magnitude_eq_mul, Binary64.magnitude_one, Int.toNat_of_nonneg (by omega)]
    exact_mod_cast hexact

theorem count_inLimits (hsound : s.IsSound) (axis : Axis) : 1 ≤ s.count axis ∧ s.count axis ≤ 26 := by
  cases axis with
  | columns => exact Settings.inGridLimits_iff.mp hsound.grid_inLimits.1
  | rows => exact Settings.inGridLimits_iff.mp hsound.grid_inLimits.2

/-- The gaps and the cells along an axis, on an edge that the gaps fit. -/
theorem isSizeUpTo_axis (axis : Axis) {edge : Nat} {sizes : List Measure} (hsound : s.IsSound)
    (hgap : s.gap = .whole 0 ∨ ∃ x, s.gap = .real x) (hfinite : s.IsFinite)
    (hroom : ∀ ws, s.weights axis = some ws → ∀ w ∈ ws,
      (Float.ofInt Canvas.longest * w).isFinite = true)
    (hedge : (edge : Int) ≤ Canvas.longest) (hfits : s.gap.toRat * (s.count axis - 1) ≤ edge)
    (h : track edge (.ok s.gap) (s.count axis) (s.weights axis) = .ok sizes) :
    Measure.IsGapUpTo (s.count axis - 1).toNat edge (.ok s.gap) ∧
      ∀ x ∈ sizes, Measure.IsSizeUpTo 2048 x := by
  have hcount := count_inLimits hsound axis
  have hlongest : Canvas.longest = 1280 := rfl
  have hgaps := isGapUpTo_of_fits hsound hgap hfinite.gap hcount.1 hfits
  refine ⟨hgaps, ?_⟩
  exact Track.isSizeUpTo_track h hgaps (by omega) hcount (hsound.weights_positive axis)
    fun ws hws w hw => ⟨hfinite.weights axis ws hws w hw, hroom ws hws w hw⟩

end Plan

namespace Document

variable {source : String} {doc : Document}

/-- The geometry of a document that has been read. Both edges of its canvas have a pixel at least for
ratios up to 2560 to 1, and of ratios of integers up to `2 ^ 52` for no others. Where the gap and the
weights are finite, the gaps fit the canvas and no weight is too great to be multiplied by the longest
edge, each component is drawn with a finite width and height that are not below zero. -/
theorem read_drawable (h : (read source).value = .ok doc) :
    ∃ p : Parts, p.Of doc ∧
      (doc.settings.ratio.1 ≤ 2560 * doc.settings.ratio.2 ∧
          doc.settings.ratio.2 ≤ 2560 * doc.settings.ratio.1 →
        1 ≤ p.plan.canvas.width ∧ 1 ≤ p.plan.canvas.height) ∧
      (doc.settings.ratio.1 ≤ 2 ^ 52 ∧ doc.settings.ratio.2 ≤ 2 ^ 52 →
        1 ≤ p.plan.canvas.width ∧ 1 ≤ p.plan.canvas.height →
          doc.settings.ratio.1 ≤ 2560 * doc.settings.ratio.2 ∧
            doc.settings.ratio.2 ≤ 2560 * doc.settings.ratio.1) ∧
      (doc.settings.IsFinite → doc.settings.Fits p.plan.canvas →
        (∀ axis ws, doc.settings.weights axis = some ws → ∀ w ∈ ws,
          (Float.ofInt Canvas.longest * w).isFinite = true) →
        p.placed.map (·.1) = doc.components ∧
          ∀ e ∈ p.placed, (0.0 ≤ e.2.width ∧ e.2.width.isFinite = true) ∧
            0.0 ≤ e.2.height ∧ e.2.height.isFinite = true) := by
  obtain ⟨p, hof, -⟩ := exists_parts h
  obtain ⟨hsound, hcounts, hgap⟩ := settings_of_read_eq_ok h
  obtain ⟨hcanvas, hspacing, hcols, hrows⟩ := Plan.ofSettings_eq_ok hof.plan
  obtain ⟨hwidth, hheight, hpixels, hpixels'⟩ := Canvas.edges_of_ofRatio hsound.ratio_pos hcanvas
  refine ⟨p, hof, hpixels, hpixels', fun hfinite hfits hroom => ⟨hof.components_eq, ?_⟩⟩
  have hlongest : Canvas.longest = 1280 := rfl
  obtain ⟨width, hw⟩ : ∃ n : Nat, p.plan.canvas.width = n := ⟨_, (Int.toNat_of_nonneg hwidth.1).symm⟩
  obtain ⟨height, hh⟩ : ∃ n : Nat, p.plan.canvas.height = n := ⟨_, (Int.toNat_of_nonneg hheight.1).symm⟩
  obtain ⟨hfitsWidth, hfitsHeight⟩ := hfits
  rw [hw] at hfitsWidth hcols
  rw [hh] at hfitsHeight hrows
  rw [hspacing] at hcols hrows
  obtain ⟨hcolGap, hcolSizes⟩ := Plan.isSizeUpTo_axis .columns hsound hgap hfinite
    (hroom .columns) (by omega) hfitsWidth hcols
  obtain ⟨hrowGap, hrowSizes⟩ := Plan.isSizeUpTo_axis .rows hsound hgap hfinite
    (hroom .rows) (by omega) hfitsHeight hrows
  intro e he
  obtain ⟨c, hc, hplace⟩ := Results.exists_of_mem_mapM hof.placed e he
  obtain ⟨r, hr, rfl⟩ := Results.map_eq_ok.mp (Results.mapError_eq_ok.mp hplace)
  obtain ⟨hcol, hrow⟩ := (laidOut_of_read_eq_ok h).inside c hc c.range.last c.range.last_mem_cells
  obtain ⟨hrwidth, hrheight⟩ := Rect.toFloat?_eq_ok hr
  rw [← hspacing] at hcolGap hrowGap
  have hspan := Track.isSizeUpTo_length hcolSizes hcolGap (by omega)
    (Plan.count_inLimits hsound .columns).2 c.range.col_le hcol
  have hrise := Track.isSizeUpTo_length hrowSizes hrowGap (by omega)
    (Plan.count_inLimits hsound .rows).2 c.range.row_le hrow
  have hspanned := hspan.isUpTo_toFloat? hrwidth
  have hrisen := hrise.isUpTo_toFloat? hrheight
  exact ⟨⟨hspanned.nonneg, hspanned.isFinite (by decide)⟩, hrisen.nonneg, hrisen.isFinite (by decide)⟩

theorem read_drawable_of_strip :
    ∃ source doc, ∃ p : Parts,
      source = "ratio: 2560:1\ngap: 8\ngrid: 3x1\ncol-widths: [1, 2, 0.5]\nA1..B1: \x7b type: box \x7d" ∧
      (read source).value = .ok doc ∧ p.Of doc ∧ p.plan.canvas = ⟨1280, 1⟩ ∧ doc.settings.IsFinite ∧
      doc.settings.Fits p.plan.canvas ∧ doc.ranges = [.spanning ⟨0, 0⟩ ⟨1, 0⟩] ∧
      p.placed.map (·.1) = doc.components ∧
      ∀ e ∈ p.placed, (0.0 ≤ e.2.width ∧ e.2.width.isFinite = true) ∧
        0.0 ≤ e.2.height ∧ e.2.height.isFinite = true := by
  obtain ⟨source, hsource⟩ : ∃ source, source =
      "ratio: 2560:1\ngap: 8\ngrid: 3x1\ncol-widths: [1, 2, 0.5]\nA1..B1: \x7b type: box \x7d" := ⟨_, rfl⟩
  obtain ⟨doc, hdoc⟩ : ∃ doc : Document, doc =
      { settings := {
          ratio := (2560, 1), gap := .real 8.0, grid := (3, 1), colWidths := some [1.0, 2.0, 0.5] }
        components := [⟨.spanning ⟨0, 0⟩ ⟨1, 0⟩, none, none, none, .box⟩] } := ⟨_, rfl⟩
  have hvalue : (read source).value.toOption = some doc := by
    rw [hsource, hdoc]
    decide +kernel
  have hread := Results.toOption_eq_some.mp hvalue
  obtain ⟨p, hof, -, -, hdrawn⟩ := read_drawable hread
  have hcanvas : p.plan.canvas = ⟨1280, 1⟩ := by
    have hratio : (Canvas.ofRatio doc.settings.ratio).toOption = some ⟨1280, 1⟩ := by
      rw [hdoc]
      decide +kernel
    rw [(Plan.ofSettings_eq_ok hof.plan).1] at hratio
    exact Option.some.inj hratio
  have hgap : doc.settings.gap.toRat = 8 := by
    rw [hdoc]
    decide +kernel
  have hfinite : doc.settings.IsFinite := by
    rw [hdoc]
    refine ⟨by decide +kernel, ?_⟩
    intro axis ws hws
    cases axis <;> cases hws
    decide +kernel
  have hfits : doc.settings.Fits p.plan.canvas := by
    constructor
    · rw [hgap, hcanvas, hdoc]
      norm_num
    · rw [hgap, hcanvas, hdoc]
      norm_num
  have hroom : ∀ axis ws, doc.settings.weights axis = some ws → ∀ w ∈ ws,
      (Float.ofInt Canvas.longest * w).isFinite = true := by
    rw [hdoc]
    intro axis ws hws
    cases axis <;> cases hws
    decide +kernel
  obtain ⟨hplaced, hsizes⟩ := hdrawn hfinite hfits hroom
  refine ⟨source, doc, p, hsource, hread, hof, hcanvas, hfinite, hfits, ?_, hplaced, hsizes⟩
  rw [hdoc]
  rfl

/-- Documents are read whose canvas has no height, or whose gaps leave a component less than no width. -/
theorem read_undrawable :
    (∃ doc canvas, (read "ratio: 2561:1").value = .ok doc ∧
      Canvas.ofRatio doc.settings.ratio = .ok canvas ∧ canvas.height = 0) ∧
    ∃ doc, ∃ p : Parts, (read "gap: 2000\nA1: \x7b type: box \x7d").value = .ok doc ∧ p.Of doc ∧
      ∃ e ∈ p.placed, e.2.width < 0.0 := by
  constructor
  · have hvalue : (read "ratio: 2561:1").value.toOption = some { settings := { ratio := (2561, 1) } } := by
      decide +kernel
    have hcanvas : (Canvas.ofRatio (2561, 1)).toOption = some ⟨1280, 0⟩ := by decide +kernel
    exact ⟨_, _, Results.toOption_eq_some.mp hvalue, Results.toOption_eq_some.mp hcanvas, rfl⟩
  · obtain ⟨doc, hdoc⟩ : ∃ doc : Document, doc =
        { settings := { gap := .real 2000.0 }
          components := [⟨.single ⟨0, 0⟩, none, none, none, .box⟩] } := ⟨_, rfl⟩
    have hvalue : (read "gap: 2000\nA1: \x7b type: box \x7d").value.toOption = some doc := by
      rw [hdoc]
      decide +kernel
    have hread := Results.toOption_eq_some.mp hvalue
    obtain ⟨p, hof, -⟩ := exists_parts hread
    have hwidths : ((Plan.ofSettings doc.settings).toOption.bind fun plan : Plan Measure =>
        (doc.components.mapM (place plan)).toOption.map fun placed =>
          placed.map fun e => decide (e.2.width < 0.0)) = some [true] := by
      rw [hdoc]
      decide +kernel
    rw [hof.plan] at hwidths
    change ((doc.components.mapM (place p.plan)).toOption.map _) = _ at hwidths
    rw [hof.placed] at hwidths
    have hmapped : (p.placed.map fun e => decide (e.2.width < 0.0)) = [true] := Option.some.inj hwidths
    have hnegative : true ∈ p.placed.map fun e => decide (e.2.width < 0.0) := by
      rw [hmapped]
      exact List.mem_singleton_self true
    obtain ⟨e, he, hwidth⟩ := List.mem_map.mp hnegative
    exact ⟨doc, p, hread, hof, e, he, of_decide_eq_true hwidth⟩

end Document
end Wireframe
