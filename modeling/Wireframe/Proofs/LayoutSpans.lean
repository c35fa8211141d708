import Wireframe.Proofs.LayoutApart

/-! Spans of cells in exact arithmetic. The cells of an axis share what the gaps leave of it, equally or in
the ratio of their weights, so that sizes and gaps add up to the axis (`Track.isShared`). A span is cut
between two of its cells into two spans with a gap between them (`Track.length_split`), so the rectangles of
ranges add up as the ranges do, and that of the whole grid is the canvas (`Rect.ofRange_adds_up`). -/

namespace Wireframe

namespace Track

variable {total gap : ℚ} {count : Int} {weights : Option (List ℚ)} {ws sizes : List ℚ}
  {first mid last : Nat}

/-- Weights above zero, one for each cell, where there are weights. -/
def Weighs (count : Int) (weights : Option (List ℚ)) : Prop :=
  ∀ ws, weights = some ws → (ws.length : Int) = count ∧ ∀ w ∈ ws, 0 < w

/-- The sizes of the cells of an axis, which fill it together with the gaps. -/
structure AreShares (total gap : ℚ) (count : Int) (weights : Option (List ℚ)) (sizes : List ℚ) : Prop where
  length_eq : (sizes.length : Int) = count
  sum_eq : sizes.sum + gap * (count - 1) = total
  proportional : ∀ ws, weights = some ws → ∃ unit, sizes = ws.map (unit * ·)
  scaled : ∀ ws k, weights = some ws → 0 < k → Track.sizes total gap count (some (ws.map (k * ·))) = .ok sizes
  equal : ∀ ws w, weights = some ws → (∀ v ∈ ws, v = w) → Track.sizes total gap count none = .ok sizes

/-- Spans of cells add up: a span is the part up to one of its cells, a gap and the part behind it, and the
span of all cells is the axis. -/
structure AddUp (sizes : List ℚ) (gap total : ℚ) : Prop where
  offset_split : ∀ first mid, first ≤ mid →
    offset sizes gap (mid + 1) = offset sizes gap first + length sizes gap first mid + gap
  length_split : ∀ first mid last, first ≤ mid → mid < last →
    length sizes gap first last = length sizes gap first mid + gap + length sizes gap (mid + 1) last
  offset_zero : offset sizes gap 0 = 0
  length_whole : length sizes gap 0 (sizes.length - 1) = total

/-- The axis has its sizes. -/
def IsShared (total gap : ℚ) (count : Int) (weights : Option (List ℚ)) : Prop :=
  ∃ sizes, Track.sizes total gap count weights = .ok sizes ∧ AreShares total gap count weights sizes ∧
    AddUp sizes gap total

theorem sizes_some (total gap : ℚ) (h : (ws.length : Int) = count) : Track.sizes total gap count (some ws) =
    .ok (ws.map fun w => (total - gap * (count - 1)) * w / ws.sum) := by
  rw [Track.sizes, available_eq, checked_eq]
  show (if (ws.length : Int) = count then weighted (_ : ℚ) ws else _) = _
  rw [if_pos h, weighted_eq]

theorem sizes_none (total gap : ℚ) (count : Int) : Track.sizes total gap count none =
    .ok (List.replicate count.toNat ((total - gap * (count - 1)) / count)) := by
  rw [Track.sizes, available_eq, checked_eq]
  exact uniform_eq _ count

/-- Shares do not depend on the unit of the weights. -/
theorem shares_scaled {k : ℚ} (hk : 0 < k) (room : ℚ) (ws : List ℚ) :
    ((ws.map (k * ·)).map fun w => room * w / (ws.map (k * ·)).sum) = ws.map fun w => room * w / ws.sum := by
  have hsum : (ws.map (k * ·)).sum = k * ws.sum := by rw [List.sum_map_mul_left, List.map_id']
  rw [hsum, List.map_map]
  refine List.map_congr_left fun w _ => ?_
  rw [Function.comp_apply, mul_left_comm, mul_div_mul_left _ _ hk.ne']

theorem shares_equal {w : ℚ} (hw : 0 < w) (h : ∀ v ∈ ws, v = w) (room : ℚ) :
    (ws.map fun v => room * v / ws.sum) = List.replicate ws.length (room / ws.length) := by
  obtain ⟨n, rfl⟩ : ∃ n, ws = List.replicate n w := ⟨_, List.eq_replicate_iff.mpr ⟨rfl, h⟩⟩
  rw [List.map_replicate, List.sum_replicate, List.length_replicate, nsmul_eq_mul,
    mul_div_mul_right _ _ hw.ne']

theorem areShares_none (total gap : ℚ) (hcount : 1 ≤ count) :
    AreShares total gap count none
      (List.replicate count.toNat ((total - gap * (count - 1)) / count)) where
  length_eq := by
    rw [List.length_replicate]
    omega
  sum_eq := by
    have hne : (count : ℚ) ≠ 0 := Int.cast_ne_zero.mpr (by omega)
    have hnat : ((count.toNat : Nat) : ℚ) = count := by
      rw [← Int.cast_natCast, Int.toNat_of_nonneg (by omega)]
    rw [List.sum_replicate, nsmul_eq_mul, hnat, mul_div_cancel₀ _ hne, sub_add_cancel]
  proportional := nofun
  scaled := nofun
  equal := nofun

theorem areShares_some (total gap : ℚ) (hcount : 1 ≤ count) (hlength : (ws.length : Int) = count)
    (hpos : ∀ w ∈ ws, 0 < w) :
    AreShares total gap count (some ws) (ws.map fun w => (total - gap * (count - 1)) * w / ws.sum) where
  length_eq := by rw [List.length_map, hlength]
  sum_eq := by
    have hne : ws ≠ [] := List.ne_nil_of_length_pos (by omega)
    rw [sum_shares (List.sum_pos ws hpos hne).ne', sub_add_cancel]
  proportional := by
    rintro _ ⟨⟩
    exact ⟨(total - gap * (count - 1)) / ws.sum, List.map_congr_left fun w _ => mul_div_right_comm _ _ _⟩
  scaled := by
    rintro _ k ⟨⟩ hk
    have hlength' : ((ws.map (k * ·)).length : Int) = count := by rw [List.length_map, hlength]
    rw [sizes_some _ _ hlength', shares_scaled hk]
  equal := by
    rintro _ w ⟨⟩ hw
    obtain ⟨v, hv⟩ := List.exists_mem_of_length_pos (l := ws) (by omega)
    have hwpos : 0 < w := hw v hv ▸ hpos v hv
    have hnat : (ws.length : ℚ) = count := by rw [← hlength, Int.cast_natCast]
    rw [sizes_none, shares_equal hwpos hw, hnat, ← hlength, Int.toNat_natCast]

theorem length_split (sizes : List ℚ) (gap : ℚ) (hfirst : first ≤ mid) (hmid : mid < last) :
    length sizes gap first last = length sizes gap first mid + gap + length sizes gap (mid + 1) last := by
  have hfront := offset_add_length sizes gap hfirst
  have hback := offset_add_length sizes gap (Nat.succ_le_of_lt hmid)
  have hwhole := offset_add_length sizes gap (hfirst.trans hmid.le)
  linarith

theorem AreShares.length_whole (h : AreShares total gap count weights sizes) (hcount : 1 ≤ count) :
    length sizes gap 0 (sizes.length - 1) = total := by
  have hlength := h.length_eq
  have hsum := h.sum_eq
  have hspan := offset_add_length sizes gap (Nat.zero_le (sizes.length - 1))
  rw [offset_zero, Nat.sub_add_cancel (by omega), offset_eq, List.take_length] at hspan
  rw [← hlength, Int.cast_natCast] at hsum
  linarith

theorem AreShares.addUp (h : AreShares total gap count weights sizes) (hcount : 1 ≤ count) :
    AddUp sizes gap total where
  offset_split _ _ hfirst := (offset_add_length sizes gap hfirst).symm
  length_split _ _ _ hfirst hmid := Track.length_split sizes gap hfirst hmid
  offset_zero := Track.offset_zero sizes gap
  length_whole := h.length_whole hcount

theorem isShared (total gap : ℚ) (hcount : 1 ≤ count) (h : Weighs count weights) :
    IsShared total gap count weights := by
  cases weights with
  | some ws =>
      obtain ⟨hlength, hpos⟩ := h ws rfl
      have hshares := areShares_some total gap hcount hlength hpos
      exact ⟨_, sizes_some total gap hlength, hshares, hshares.addUp hcount⟩
  | none =>
      have hshares := areShares_none total gap hcount
      exact ⟨_, sizes_none total gap count, hshares, hshares.addUp hcount⟩

theorem IsShared.of_sizes (h : IsShared total gap count weights)
    (hsizes : Track.sizes total gap count weights = .ok sizes) :
    AreShares total gap count weights sizes ∧ AddUp sizes gap total := by
  obtain ⟨found, hfound, hshares⟩ := h
  rw [hfound] at hsizes
  cases hsizes
  exact hshares

end Track

namespace Range

/-- The range with columns and rows exchanged. -/
def transpose (r : Range) : Range where
  first := ⟨r.first.row, r.first.col⟩
  last := ⟨r.last.row, r.last.col⟩
  col_le := r.row_le
  row_le := r.col_le

/-- A range cut between two of its columns. -/
structure Beside (left right whole : Range) : Prop where
  first_eq : left.first = whole.first
  last_eq : right.last = whole.last
  col_eq : right.first.col = left.last.col + 1
  row_eq : right.first.row = whole.first.row ∧ left.last.row = whole.last.row

end Range

namespace Rect

variable {width height gap padding : ℚ} {colCount rowCount : Int} {colWeights rowWeights : Option (List ℚ)}
  {cols rows : List ℚ} {left right whole : Range}

/-- The rectangle with its axes exchanged. -/
def transpose (r : Rect ℚ) : Rect ℚ := ⟨r.y, r.x, r.height, r.width, r.padding⟩

/-- Two rectangles side by side that make up a third one with the gap between them. -/
structure Beside (gap : ℚ) (left right whole : Rect ℚ) : Prop where
  left_eq : left.x = whole.x
  right_eq : right.x = left.x + left.width + gap
  width_eq : whole.width = left.width + gap + right.width
  top_eq : left.y = whole.y ∧ right.y = whole.y
  height_eq : left.height = whole.height ∧ right.height = whole.height

/-- Among columns and rows of these sizes the rectangles of ranges add up, and that of the whole grid
begins at the origin and has the edges of the canvas. -/
structure AddsUp (width height gap padding : ℚ) (colCount rowCount : Int) (cols rows : List ℚ) : Prop where
  whole : ∀ grid : Range, grid.first = ⟨0, 0⟩ → (grid.last.col : Int) + 1 = colCount →
    (grid.last.row : Int) + 1 = rowCount → ofRange grid cols rows gap padding = ⟨0, 0, width, height, padding⟩
  beside : ∀ left right whole : Range, left.Beside right whole →
    Beside gap (ofRange left cols rows gap padding) (ofRange right cols rows gap padding)
      (ofRange whole cols rows gap padding)
  above : ∀ top bottom whole : Range, top.transpose.Beside bottom.transpose whole.transpose →
    Beside gap (ofRange top cols rows gap padding).transpose (ofRange bottom cols rows gap padding).transpose
      (ofRange whole cols rows gap padding).transpose

theorem ofRange_transpose (r : Range) (cols rows : List ℚ) (gap padding : ℚ) :
    (ofRange r cols rows gap padding).transpose = ofRange r.transpose rows cols gap padding := rfl

theorem ofRange_beside (h : left.Beside right whole) (cols rows : List ℚ) (gap padding : ℚ) :
    Beside gap (ofRange left cols rows gap padding) (ofRange right cols rows gap padding)
      (ofRange whole cols rows gap padding) := by
  have hcol : left.first.col = whole.first.col := congrArg Coord.col h.first_eq
  have hrow : left.first.row = whole.first.row := congrArg Coord.row h.first_eq
  have hcols : right.last.col = whole.last.col := congrArg Coord.col h.last_eq
  have hrows : right.last.row = whole.last.row := congrArg Coord.row h.last_eq
  have hbehind : left.last.col < whole.last.col := by
    have hle := right.col_le
    have hnext := h.col_eq
    omega
  have hoffset := Track.offset_add_length cols gap left.col_le
  have hlength := Track.length_split cols gap left.col_le hbehind
  simp only [ofRange]
  constructor
  · rw [hcol]
  · rw [h.col_eq, hoffset]
  · rw [h.col_eq, hcols, ← hlength, hcol]
  · rw [hrow, h.row_eq.1]
    exact ⟨rfl, rfl⟩
  · rw [hrow, h.row_eq.1, h.row_eq.2, hrows]
    exact ⟨rfl, rfl⟩

theorem ofRange_whole (hcols : Track.AddUp cols gap width) (hrows : Track.AddUp rows gap height)
    (hfirst : whole.first = ⟨0, 0⟩) (hcol : whole.last.col + 1 = cols.length)
    (hrow : whole.last.row + 1 = rows.length) (padding : ℚ) :
    ofRange whole cols rows gap padding = ⟨0, 0, width, height, padding⟩ := by
  have hlastCol : whole.last.col = cols.length - 1 := by omega
  have hlastRow : whole.last.row = rows.length - 1 := by omega
  rw [ofRange, hfirst, hlastCol, hlastRow, hcols.offset_zero, hrows.offset_zero, hcols.length_whole,
    hrows.length_whole]

/-- The sizes of an axis and the gaps between them fill it, shared equally or by the weights; spans of cells
add up on both axes, and so do the rectangles of ranges. -/
theorem ofRange_adds_up (hcol : 1 ≤ colCount) (hrow : 1 ≤ rowCount) (hcols : Track.Weighs colCount colWeights)
    (hrows : Track.Weighs rowCount rowWeights) (width height gap padding : ℚ) :
    Track.IsShared width gap colCount colWeights ∧ Track.IsShared height gap rowCount rowWeights ∧
      ∀ cols rows, Track.sizes width gap colCount colWeights = .ok cols →
        Track.sizes height gap rowCount rowWeights = .ok rows →
          AddsUp width height gap padding colCount rowCount cols rows := by
  have hwidth := Track.isShared width gap hcol hcols
  have hheight := Track.isShared height gap hrow hrows
  refine ⟨hwidth, hheight, fun cols rows hcolSizes hrowSizes => ?_⟩
  obtain ⟨hcolShares, hcolSpans⟩ := hwidth.of_sizes hcolSizes
  obtain ⟨hrowShares, hrowSpans⟩ := hheight.of_sizes hrowSizes
  have hcolLength := hcolShares.length_eq
  have hrowLength := hrowShares.length_eq
  refine ⟨fun grid hfirst hlastCol hlastRow => ?_, fun left right whole h => ?_, fun top bottom whole h => ?_⟩
  · exact ofRange_whole hcolSpans hrowSpans hfirst (by omega) (by omega) padding
  · exact ofRange_beside h cols rows gap padding
  · rw [ofRange_transpose, ofRange_transpose, ofRange_transpose]
    exact ofRange_beside h rows cols gap padding

/-- Three columns by weight and two rows; the first two columns are merged. -/
theorem ofRange_adds_up_of_weights :
    Track.Weighs 3 (some [1, 2, 1 / 2]) ∧ Track.Weighs 2 none ∧
      Track.sizes (1280 : ℚ) 8 3 (some [1, 2, 1 / 2]) = .ok [2528 / 7, 5056 / 7, 1264 / 7] ∧
      Track.sizes (720 : ℚ) 8 2 none = .ok [356, 356] ∧
      Track.IsShared 1280 8 3 (some [1, 2, 1 / 2]) ∧ Track.IsShared 720 8 2 none ∧
      AddsUp 1280 720 8 16 3 2 [2528 / 7, 5056 / 7, 1264 / 7] [356, 356] := by
  have hcols : Track.Weighs 3 (some [1, 2, 1 / 2]) := by
    rintro _ ⟨⟩
    refine ⟨rfl, ?_⟩
    simp only [List.forall_mem_cons, List.not_mem_nil, false_imp_iff, implies_true, and_true]
    norm_num
  have hrows : Track.Weighs 2 none := by
    rintro _ ⟨⟩
  obtain ⟨hwidth, hheight, hadds⟩ := ofRange_adds_up (by decide) (by decide) hcols hrows 1280 720 8 16
  have hcolSizes : Track.sizes (1280 : ℚ) 8 3 (some [1, 2, 1 / 2]) =
      .ok [2528 / 7, 5056 / 7, 1264 / 7] := by
    rw [Track.sizes_some _ _ (by rfl)]
    norm_num
  have hrowSizes : Track.sizes (720 : ℚ) 8 2 none = .ok [356, 356] := by
    rw [Track.sizes_none]
    norm_num
    rfl
  exact ⟨hcols, hrows, hcolSizes, hrowSizes, hwidth, hheight, hadds _ _ hcolSizes hrowSizes⟩

end Rect
end Wireframe
