import Wireframe.Proofs.DrawingTotal
import Wireframe.Proofs.ExactScalars
import Wireframe.Proofs.FloatMonotone

/-! Layouts in exact arithmetic. The cells of an axis and the gaps between them add up to its length, so
where the gaps fit, a span of cells lies on the axis, and one span ends a gap before the next starts
(`Track.Divides`). Components share no cell, so their rectangles lie on the canvas and are a gap apart
along one of the axes (`Document.read_apart`). -/

namespace Wireframe

namespace Binary64

variable {x : Float}

theorem toRat_ofFloat (h : x.isFinite = true) : (ofFloat x).toRat = level x / one := by
  change x.toModel.unpack.isFinite = true at h
  rw [ofFloat, level]
  cases hx : x.toModel.unpack with
  | infinity | notANumber =>
      rw [hx] at h
      cases h
  | zero s =>
      rw [toRat, Rat.mkRat_eq_div]
      cases s <;> rfl
  | finite s m e hm =>
      rw [toRat, Rat.mkRat_eq_div]
      cases s <;> rfl

theorem cast_one_pos : (0 : ℚ) < one := Nat.cast_pos.mpr one_pos

theorem toRat_nonneg (h : x.isFinite = true) (hx : 0.0 ≤ x) : 0 ≤ (ofFloat x).toRat := by
  have hlevel : 0 ≤ level x := level_le hx
  rw [toRat_ofFloat h]
  exact div_nonneg (Int.cast_nonneg hlevel) cast_one_pos.le

theorem toRat_pos (h : x.isFinite = true) (hx : 0.0 < x) : 0 < (ofFloat x).toRat := by
  have hlevel : level 0.0 < level x := (lt_iff isNumber_zero (isNumber_of_isFinite h)).mp hx
  rw [toRat_ofFloat h]
  exact div_pos (Int.cast_pos.mpr hlevel) cast_one_pos

end Binary64

namespace Track

variable {sizes : List ℚ} {gap total : ℚ} {first last first' last' i j : Nat}

theorem offset_eq (sizes : List ℚ) (gap : ℚ) (first : Nat) :
    offset sizes gap first = (sizes.take first).sum + gap * first := by
  rw [offset, Scalar.sum_eq]
  rfl

theorem length_eq (sizes : List ℚ) (gap : ℚ) (first last : Nat) :
    length sizes gap first last =
      ((sizes.drop first).take (last + 1 - first)).sum + gap * ((last - first : Int) : ℚ) := by
  rw [length, Scalar.sum_eq]
  rfl

theorem offset_zero (sizes : List ℚ) (gap : ℚ) : offset sizes gap 0 = 0 := by
  rw [offset_eq, List.take_zero, List.sum_nil, Nat.cast_zero, mul_zero, add_zero]

/-- Sizes of cells that fill an axis together with the gaps between them. -/
structure Divides (sizes : List ℚ) (gap total : ℚ) : Prop where
  gap_nonneg : 0 ≤ gap
  sizes_nonneg : ∀ s ∈ sizes, 0 ≤ s
  total_eq : sizes.sum + gap * (sizes.length - 1) = total

theorem sum_take_add (sizes : List ℚ) (i j : Nat) :
    (sizes.take (i + j)).sum = (sizes.take i).sum + ((sizes.drop i).take j).sum := by
  rw [List.take_add, List.sum_append]

/-- A span ends where the cell after it starts, less the gap between the two. -/
theorem offset_add_length (sizes : List ℚ) (gap : ℚ) (h : first ≤ last) :
    offset sizes gap first + length sizes gap first last + gap = offset sizes gap (last + 1) := by
  have hsum := sum_take_add sizes first (last + 1 - first)
  rw [Nat.add_sub_cancel' (Nat.le_succ_of_le h)] at hsum
  rw [offset_eq, length_eq, offset_eq, hsum]
  push_cast
  ring

namespace Divides

theorem sum_nonneg (h : Divides sizes gap total) (i j : Nat) : 0 ≤ ((sizes.drop i).take j).sum :=
  List.sum_nonneg fun s hs => h.sizes_nonneg s (List.mem_of_mem_drop (List.mem_of_mem_take hs))

theorem offset_mono (h : Divides sizes gap total) (hij : i ≤ j) :
    offset sizes gap i ≤ offset sizes gap j := by
  have hsum := sum_take_add sizes i (j - i)
  rw [Nat.add_sub_cancel' hij] at hsum
  rw [offset_eq, offset_eq, hsum]
  have hcells := h.sum_nonneg i (j - i)
  have hgaps : gap * i ≤ gap * j := mul_le_mul_of_nonneg_left (Nat.cast_le.mpr hij) h.gap_nonneg
  linarith

theorem offset_nonneg (h : Divides sizes gap total) (first : Nat) : 0 ≤ offset sizes gap first := by
  rw [← offset_zero sizes gap]
  exact h.offset_mono (Nat.zero_le first)

theorem offset_length (h : Divides sizes gap total) : offset sizes gap sizes.length = total + gap := by
  rw [offset_eq, List.take_length, ← h.total_eq]
  ring

theorem length_nonneg (h : Divides sizes gap total) (hspan : first ≤ last) :
    0 ≤ length sizes gap first last := by
  have hgaps : (0 : ℚ) ≤ ((last - first : Int) : ℚ) := Int.cast_nonneg (by omega)
  rw [length_eq]
  exact add_nonneg (h.sum_nonneg _ _) (mul_nonneg h.gap_nonneg hgaps)

/-- A span of cells of the axis ends on it. -/
theorem offset_add_length_le (h : Divides sizes gap total) (hspan : first ≤ last)
    (hlast : last < sizes.length) :
    offset sizes gap first + length sizes gap first last ≤ total := by
  have hend := offset_add_length sizes gap hspan
  have hmono := h.offset_mono (Nat.succ_le_of_lt hlast)
  rw [h.offset_length] at hmono
  linarith

/-- A span ends a gap before the next one starts. -/
theorem offset_add_length_add_gap_le (h : Divides sizes gap total) (hspan : first ≤ last)
    (hbefore : last < first') :
    offset sizes gap first + length sizes gap first last + gap ≤ offset sizes gap first' := by
  rw [offset_add_length sizes gap hspan]
  exact h.offset_mono hbefore

end Divides

theorem checked_eq (x : ℚ) : checked x = .ok x := rfl

theorem available_eq (total gap : ℚ) (count : Int) :
    available total gap count = total - gap * (count - 1) := by
  show total - gap * ((count - 1 : Int) : ℚ) = total - gap * (count - 1)
  rw [Int.cast_sub, Int.cast_one]

theorem uniform_eq (available : ℚ) (count : Int) :
    uniform available count = .ok (List.replicate count.toNat (available / count)) := rfl

theorem weighted_eq (available : ℚ) (weights : List ℚ) :
    weighted available weights = .ok (weights.map fun w => available * w / weights.sum) := by
  rw [weighted, Scalar.sum_eq, checked_eq]
  exact List.mapM_pure

variable {room : ℚ}

/-- Equal shares of what is left beside the gaps. -/
theorem divides_uniform {n : Nat} (hgap : 0 ≤ gap) (hroom : 0 ≤ room) (hn : 0 < n) :
    Divides (List.replicate n (room / n)) gap (room + gap * (n - 1)) where
  gap_nonneg := hgap
  sizes_nonneg := by
    intro s hs
    rw [List.eq_of_mem_replicate hs]
    exact div_nonneg hroom (Nat.cast_nonneg n)
  total_eq := by
    rw [List.sum_replicate, List.length_replicate, nsmul_eq_mul,
      mul_div_cancel₀ _ (Nat.cast_ne_zero.mpr hn.ne')]

theorem sum_shares {weights : List ℚ} (h : weights.sum ≠ 0) :
    (weights.map fun w => room * w / weights.sum).sum = room := by
  simp only [div_eq_mul_inv]
  rw [List.sum_map_mul_right, List.sum_map_mul_left, List.map_id', mul_assoc, mul_inv_cancel₀ h, mul_one]

/-- Shares by weights above zero of what is left beside the gaps. -/
theorem divides_weighted {weights : List ℚ} (hgap : 0 ≤ gap) (hroom : 0 ≤ room)
    (hpos : ∀ w ∈ weights, 0 < w) (hne : weights ≠ []) :
    Divides (weights.map fun w => room * w / weights.sum) gap (room + gap * (weights.length - 1)) := by
  have hsum : 0 < weights.sum := List.sum_pos weights hpos hne
  refine ⟨hgap, ?_, ?_⟩
  · intro s hs
    obtain ⟨w, hw, rfl⟩ := List.mem_map.mp hs
    exact div_nonneg (mul_nonneg hroom (hpos w hw).le) hsum.le
  · rw [sum_shares hsum.ne', List.length_map]

/-- Cells that share what the gaps leave, equally or by weights above zero, fill the axis. -/
theorem exists_divides {edge count : Int} {weights : Option (List Float)} (hgap : 0 ≤ gap)
    (hcount : 1 ≤ count ∧ count ≤ 26) (hfits : gap * (count - 1) ≤ edge)
    (hpos : ∀ ws, weights = some ws → ∀ w ∈ ws, 0 < (Binary64.ofFloat w).toRat)
    (hlen : ∀ ws, weights = some ws → (ws.length : Int) = count) :
    ∃ sizes, Plan.track edge gap count weights = .ok sizes ∧ (sizes.length : Int) = count ∧
      Divides sizes gap edge := by
  obtain ⟨n, rfl⟩ : ∃ n : Nat, count = n := ⟨count.toNat, by omega⟩
  rw [Int.cast_natCast] at hfits
  have havailable : available (Scalar.ofInt edge) gap n = edge - gap * (n - 1) := by
    rw [available_eq, Int.cast_natCast]
    rfl
  have hroom : 0 ≤ edge - gap * (n - 1) := sub_nonneg.mpr hfits
  have htotal : edge - gap * (n - 1) + gap * (n - 1) = edge := sub_add_cancel _ _
  rw [Plan.track, Track.sizes, havailable, checked_eq]
  cases weights with
  | none =>
      have hdivides := divides_uniform hgap hroom (show 0 < n by omega)
      rw [htotal] at hdivides
      have huniform := uniform_eq (edge - gap * (n - 1) : ℚ) n
      rw [Int.toNat_natCast, Int.cast_natCast] at huniform
      exact ⟨_, huniform, by rw [List.length_replicate], hdivides⟩
  | some ws =>
      obtain ⟨values, hvalues⟩ :
          ∃ values : List ℚ, values = ws.map fun w => Scalar.ofLength (.real w) := ⟨_, rfl⟩
      have hlength : values.length = n := by
        rw [hvalues, List.length_map]
        exact Int.natCast_inj.mp (hlen ws rfl)
      have hweights : ∀ w ∈ values, 0 < w := by
        rw [hvalues]
        intro w hw
        obtain ⟨x, hx, rfl⟩ := List.mem_map.mp hw
        exact hpos ws rfl x hx
      have hdivides := divides_weighted hgap hroom hweights (by
        rw [← List.length_pos_iff]
        omega)
      rw [hlength, htotal] at hdivides
      refine ⟨_, ?_, ?_, hdivides⟩
      · rw [Option.map_some, ← hvalues]
        show (if (values.length : Int) = n then weighted _ values else _) = _
        rw [hlength, if_pos rfl, weighted_eq]
      · rw [List.length_map, hlength]

end Track

namespace Range

variable {r s : Range}

/-- Of two ranges without a common cell one lies before the other along an axis. -/
theorem before_of_disjoint (h : ∀ c ∈ r.cells, c ∉ s.cells) :
    (r.last.col < s.first.col ∨ s.last.col < r.first.col) ∨
      r.last.row < s.first.row ∨ s.last.row < r.first.row := by
  have hfree : ¬r.overlaps s = true := by
    rw [overlaps_iff]
    rintro ⟨c, hr, hs⟩
    exact h c hr hs
  simp only [overlaps, Bool.not_eq_true', Bool.not_eq_false, Bool.or_eq_true, decide_eq_true_eq] at hfree
  omega

end Range

namespace Rect

variable {r s : Rect ℚ} {gap : ℚ}

/-- The rectangle has sides of no negative length and lies on the canvas. -/
structure IsInside (r : Rect ℚ) (canvas : Canvas) : Prop where
  width_nonneg : 0 ≤ r.width
  height_nonneg : 0 ≤ r.height
  left_nonneg : 0 ≤ r.x
  top_nonneg : 0 ≤ r.y
  right_le : r.x + r.width ≤ canvas.width
  bottom_le : r.y + r.height ≤ canvas.height

/-- Along one of the axes a rectangle ends by the gap before the other starts. -/
def Apart (gap : ℚ) (r s : Rect ℚ) : Prop :=
  (r.x + r.width + gap ≤ s.x ∨ s.x + s.width + gap ≤ r.x) ∨
    r.y + r.height + gap ≤ s.y ∨ s.y + s.height + gap ≤ r.y

/-- The point lies in the rectangle, and not on its border. -/
def Surrounds (r : Rect ℚ) (x y : ℚ) : Prop :=
  (r.x < x ∧ x < r.x + r.width) ∧ r.y < y ∧ y < r.y + r.height

theorem Apart.not_surrounds (h : Apart gap r s) (hgap : 0 ≤ gap) {x y : ℚ} (hr : r.Surrounds x y) :
    ¬s.Surrounds x y := by
  rintro ⟨⟨hleft, hright⟩, htop, hbottom⟩
  obtain ⟨⟨hleft', hright'⟩, htop', hbottom'⟩ := hr
  rcases h with (hx | hx) | hy | hy <;> linarith

end Rect

namespace Settings

/-- The gap and all weights are finite. -/
structure IsFinite (s : Settings) : Prop where
  gap : s.gap.toFloat.isFinite = true
  weights : ∀ axis ws, s.weights axis = some ws → ∀ w ∈ ws, w.isFinite = true

/-- There is room on the canvas for the gaps of both axes. -/
structure Fits (s : Settings) (canvas : Canvas) : Prop where
  width : s.gap.toRat * (s.grid.1 - 1) ≤ canvas.width
  height : s.gap.toRat * (s.grid.2 - 1) ≤ canvas.height

variable {s : Settings}

theorem toRat_gap_nonneg (hsound : s.IsSound) (hfinite : s.IsFinite)
    (hgap : s.gap = .whole 0 ∨ ∃ x, s.gap = .real x) : 0 ≤ s.gap.toRat := by
  have hsign := hsound.gap_notNegative
  have hfin := hfinite.gap
  rcases hgap with h | ⟨x, h⟩
  · rw [h]
    exact le_refl _
  · rw [h] at hsign hfin ⊢
    exact Binary64.toRat_nonneg hfin (of_decide_eq_true hsign)

end Settings

namespace Plan

variable {s : Settings} {canvas : Canvas} {p : Plan ℚ} {a b : Range}

/-- The plan of a document with the given settings on a canvas of any size. -/
def onCanvas {α : Type} [Scalar α] (s : Settings) (canvas : Canvas) : Except Layout.Fault (Plan α) := do
  let spacing ← Spacing.ofLengths s.gap ((s.padding.map Length.real).getD defaultPadding)
  let gap : α := Scalar.ofLength spacing.gap
  let cols ← track canvas.width gap s.grid.1 s.colWidths
  let rows ← track canvas.height gap s.grid.2 s.rowHeights
  return ⟨canvas, ⟨gap, Scalar.ofLength spacing.padding⟩, cols, rows⟩

/-- A document is planned on the canvas of its ratio. -/
theorem ofSettings_of_canvas {α : Type} [Scalar α] (h : Canvas.ofRatio s.ratio = .ok canvas) :
    (ofSettings s : Except Layout.Fault (Plan α)) = onCanvas s canvas := by
  rw [ofSettings, h]
  rfl

/-- The cells of both axes fill the canvas. -/
structure IsDivided (p : Plan ℚ) : Prop where
  cols : Track.Divides p.cols p.spacing.gap p.canvas.width
  rows : Track.Divides p.rows p.spacing.gap p.canvas.height

theorem exists_onCanvas (hsound : s.IsSound) (hcounts : ∀ axis, s.miscounted axis = none)
    (hgap : s.gap = .whole 0 ∨ ∃ x, s.gap = .real x) (hfinite : s.IsFinite) (hfits : s.Fits canvas) :
    ∃ p : Plan ℚ, onCanvas s canvas = .ok p ∧ p.IsDivided ∧ p.canvas = canvas ∧
      p.spacing.gap = s.gap.toRat ∧ (p.cols.length : Int) = s.grid.1 ∧
      (p.rows.length : Int) = s.grid.2 := by
  have hnonneg := Settings.toRat_gap_nonneg hsound hfinite hgap
  have hweights : ∀ axis ws, s.weights axis = some ws → ∀ w ∈ ws, 0 < (Binary64.ofFloat w).toRat :=
    fun axis ws hws w hw => Binary64.toRat_pos (hfinite.weights axis ws hws w hw)
      (of_decide_eq_true (hsound.weights_positive axis ws hws w hw))
  obtain ⟨cols, hcols, hcolCount, hcolSizes⟩ := Track.exists_divides hnonneg
    (Settings.inGridLimits_iff.mp hsound.grid_inLimits.1) hfits.width (hweights .columns)
    (Settings.miscounted_eq_none_iff.mp (hcounts .columns))
  obtain ⟨rows, hrows, hrowCount, hrowSizes⟩ := Track.exists_divides hnonneg
    (Settings.inGridLimits_iff.mp hsound.grid_inLimits.2) hfits.height (hweights .rows)
    (Settings.miscounted_eq_none_iff.mp (hcounts .rows))
  refine ⟨⟨canvas, ⟨s.gap.toRat, Scalar.ofLength ((s.padding.map Length.real).getD defaultPadding)⟩,
    cols, rows⟩, ?_, ⟨hcolSizes, hrowSizes⟩, rfl, rfl, hcolCount, hrowCount⟩
  rw [onCanvas]
  refine Results.bind_eq_ok.mpr ⟨_, ofLengths_eq_ok hsound hgap, ?_⟩
  refine Results.bind_eq_ok.mpr ⟨cols, hcols, ?_⟩
  exact Results.bind_eq_ok.mpr ⟨rows, hrows, rfl⟩

/-- A range on the grid has its rectangle on the canvas. -/
theorem IsDivided.isInside_place (h : p.IsDivided) (padding : Option Float)
    (hcol : a.last.col < p.cols.length) (hrow : a.last.row < p.rows.length) :
    (p.place a padding).IsInside p.canvas where
  width_nonneg := h.cols.length_nonneg a.col_le
  height_nonneg := h.rows.length_nonneg a.row_le
  left_nonneg := h.cols.offset_nonneg a.first.col
  top_nonneg := h.rows.offset_nonneg a.first.row
  right_le := h.cols.offset_add_length_le a.col_le hcol
  bottom_le := h.rows.offset_add_length_le a.row_le hrow

/-- Ranges without a common cell have rectangles that are a gap apart. -/
theorem IsDivided.apart_place (h : p.IsDivided) (padding padding' : Option Float)
    (hdisjoint : ∀ c ∈ a.cells, c ∉ b.cells) :
    Rect.Apart p.spacing.gap (p.place a padding) (p.place b padding') := by
  rcases Range.before_of_disjoint hdisjoint with (hbefore | hafter) | habove | hbelow
  · exact Or.inl (Or.inl (h.cols.offset_add_length_add_gap_le a.col_le hbefore))
  · exact Or.inl (Or.inr (h.cols.offset_add_length_add_gap_le b.col_le hafter))
  · exact Or.inr (Or.inl (h.rows.offset_add_length_add_gap_le a.row_le habove))
  · exact Or.inr (Or.inr (h.rows.offset_add_length_add_gap_le b.row_le hbelow))

end Plan

namespace Document

variable {source : String} {doc : Document}

/-- Drawn components never collide. A document that has been read is planned on the canvas of its ratio.
On any canvas with room for its gaps, where the gap and the weights are finite, the rectangles of the
components lie on the canvas, and those of any two components are a gap apart along one of the axes, so
that no point is inside both. -/
theorem read_apart (h : (read source).value = .ok doc) (hfinite : doc.settings.IsFinite) :
    (∃ canvas, Canvas.ofRatio doc.settings.ratio = .ok canvas ∧
      (Plan.ofSettings doc.settings : Except Layout.Fault (Plan ℚ)) = Plan.onCanvas doc.settings canvas) ∧
    ∀ canvas, doc.settings.Fits canvas →
      ∃ p : Plan ℚ, Plan.onCanvas doc.settings canvas = .ok p ∧ p.canvas = canvas ∧
        p.spacing.gap = doc.settings.gap.toRat ∧
        (∀ c ∈ doc.components, (p.place c.range c.padding).IsInside canvas) ∧
        doc.components.Pairwise fun a b =>
          Rect.Apart doc.settings.gap.toRat (p.place a.range a.padding) (p.place b.range b.padding) ∧
          ∀ x y, (p.place a.range a.padding).Surrounds x y →
            ¬(p.place b.range b.padding).Surrounds x y := by
  obtain ⟨hsound, hcounts, hgap⟩ := settings_of_read_eq_ok h
  have hlaid := laidOut_of_read_eq_ok h
  constructor
  · obtain ⟨canvas, hcanvas, -, -⟩ := Canvas.exists_ofRatio hsound.ratio_pos
    exact ⟨canvas, hcanvas, Plan.ofSettings_of_canvas hcanvas⟩
  · intro canvas hfits
    obtain ⟨p, hplan, hdivided, hcanvas, hspacing, hcols, hrows⟩ :=
      Plan.exists_onCanvas hsound hcounts hgap hfinite hfits
    refine ⟨p, hplan, hcanvas, hspacing, ?_, ?_⟩
    · intro c hc
      obtain ⟨hcol, hrow⟩ := hlaid.inside c hc c.range.last c.range.last_mem_cells
      rw [← hcanvas]
      exact hdivided.isInside_place c.padding (by omega) (by omega)
    · apply hlaid.disjoint.imp
      intro a b hdisjoint
      have hapart := hdivided.apart_place a.padding b.padding hdisjoint
      rw [hspacing] at hapart
      exact ⟨hapart, fun x y => hapart.not_surrounds (Settings.toRat_gap_nonneg hsound hfinite hgap)⟩

theorem read_apart_of_weights :
    ∃ source doc canvas, ∃ p : Plan ℚ,
      source = "gap: 8\ngrid: 3x2\ncol-widths: [1, 2, 0.5]\n" ++
        "A1..B1: \x7b type: box \x7d\nC1..C2: \x7b type: box \x7d\nA2: \x7b type: box \x7d" ∧
      (read source).value = .ok doc ∧ doc.settings.IsFinite ∧ doc.settings.Fits canvas ∧
      Canvas.ofRatio doc.settings.ratio = .ok canvas ∧ Plan.ofSettings doc.settings = .ok p ∧
      doc.ranges = [.spanning ⟨0, 0⟩ ⟨1, 0⟩, .spanning ⟨2, 0⟩ ⟨2, 1⟩, .single ⟨0, 1⟩] ∧
      (∀ c ∈ doc.components, (p.place c.range c.padding).IsInside canvas) ∧
      doc.components.Pairwise fun a b =>
        Rect.Apart 8 (p.place a.range a.padding) (p.place b.range b.padding) := by
  obtain ⟨source, hsource⟩ : ∃ source, source = "gap: 8\ngrid: 3x2\ncol-widths: [1, 2, 0.5]\n" ++
      "A1..B1: \x7b type: box \x7d\nC1..C2: \x7b type: box \x7d\nA2: \x7b type: box \x7d" := ⟨_, rfl⟩
  obtain ⟨doc, hdoc⟩ : ∃ doc : Document, doc =
      { settings := { gap := .real 8.0, grid := (3, 2), colWidths := some [1.0, 2.0, 0.5] }
        components := [⟨.spanning ⟨0, 0⟩ ⟨1, 0⟩, none, none, none, .box⟩,
          ⟨.spanning ⟨2, 0⟩ ⟨2, 1⟩, none, none, none, .box⟩,
          ⟨.single ⟨0, 1⟩, none, none, none, .box⟩] } := ⟨_, rfl⟩
  have hvalue : (read source).value.toOption = some doc := by
    rw [hsource, hdoc]
    decide +kernel
  have hread := Results.toOption_eq_some.mp hvalue
  have hgap : doc.settings.gap.toRat = 8 := by
    rw [hdoc]
    decide +kernel
  have hfinite : doc.settings.IsFinite := by
    rw [hdoc]
    refine ⟨by decide +kernel, ?_⟩
    intro axis ws hws
    cases axis <;> cases hws
    decide +kernel
  obtain ⟨⟨canvas, hcanvas, hplan⟩, hdrawn⟩ := read_apart hread hfinite
  have hsize : canvas = ⟨1280, 720⟩ := by
    have hratio : (Canvas.ofRatio doc.settings.ratio).toOption = some ⟨1280, 720⟩ := by
      rw [hdoc]
      decide +kernel
    rw [hcanvas] at hratio
    exact Option.some.inj hratio
  have hfits : doc.settings.Fits canvas := by
    constructor
    · rw [hgap, hsize, hdoc]
      norm_num
    · rw [hgap, hsize, hdoc]
      norm_num
  obtain ⟨p, hp, -, -, hinside, hapart⟩ := hdrawn canvas hfits
  refine ⟨source, doc, canvas, p, hsource, hread, hfinite, hfits, hcanvas, hplan.trans hp, ?_, hinside, ?_⟩
  · rw [hdoc]
    rfl
  · rw [hgap] at hapart
    exact hapart.imp And.left

end Document
end Wireframe
