import Wireframe.Layout.Plan
import Wireframe.Proofs.FloatArithmetic
import Wireframe.Proofs.Results
import Wireframe.Proofs.SettingsRules

/-! Layouts that exist. A canvas within the binary64 numbers, a gap that is zero or a binary64 number,
and weights above zero, one for each cell, have a plan, and every range has a rectangle on it: nothing
is divided by zero and no whole number is too large (`Plan.exists_ofSettings`, `Plan.exists_toFloat?`). -/

namespace Wireframe

namespace Length

variable {a b : Length} {x y : Float}

theorem toFloat?_whole {n : Int} (h : n.natAbs < Binary64.limit) :
    (whole n).toFloat? = .ok (Float.ofInt n) := by
  rw [toFloat?, if_neg (Nat.not_le_of_lt h)]

theorem natAbs_lt_of_toFloat? {n : Int} (h : (whole n).toFloat? = .ok x) :
    n.natAbs < Binary64.limit := by
  rw [toFloat?] at h
  split at h
  · cases h
  · next hlt => exact Nat.lt_of_not_le hlt

theorem toFloat?_real (x : Float) : (real x).toFloat? = .ok x := rfl

theorem combine_eq_ok {f : Float → Float → Float} (ha : a.toFloat? = .ok x) (hb : b.toFloat? = .ok y) :
    combine f a b = .ok (real (f x y)) := by
  rw [combine, ha, hb]

theorem add_real (ha : a.toFloat? = .ok x) (y : Float) : add a (real y) = .ok (real (x + y)) := by
  rw [← combine_eq_ok ha (toFloat?_real y)]
  cases a <;> rfl

theorem real_add (x : Float) (hb : b.toFloat? = .ok y) : add (real x) b = .ok (real (x + y)) := by
  rw [← combine_eq_ok (toFloat?_real x) hb]
  cases b <;> rfl

theorem sub_real (ha : a.toFloat? = .ok x) (y : Float) : sub a (real y) = .ok (real (x - y)) := by
  rw [← combine_eq_ok ha (toFloat?_real y)]
  cases a <;> rfl

theorem mul_real (ha : a.toFloat? = .ok x) (y : Float) : mul a (real y) = .ok (real (x * y)) := by
  rw [← combine_eq_ok ha (toFloat?_real y)]
  cases a <;> rfl

theorem real_mul (x : Float) (hb : b.toFloat? = .ok y) : mul (real x) b = .ok (real (x * y)) := by
  rw [← combine_eq_ok (toFloat?_real x) hb]
  cases b <;> rfl

theorem whole_div {m n : Int} (hm : m.natAbs < Binary64.limit) (hn : 0 < n) :
    div (whole m) (whole n) = .ok (real (Binary64.divInt m n)) := by
  have hroom : ¬Binary64.limit * n.natAbs ≤ m.natAbs := by
    have hmul := Nat.mul_le_mul_left Binary64.limit (show 1 ≤ n.natAbs by omega)
    omega
  rw [div, quotient, if_neg (by omega), if_neg hroom]
  rfl

theorem real_div (x : Float) (hb : b.toFloat? = .ok y) (hy : (y == 0.0) = false) :
    div (real x) b = .ok (real (x / y)) := by
  rw [div, toFloat?_real, hb]
  · simp only [hy]
    rfl
  · intro m n h
    cases h

end Length

namespace Measure

theorem ok_add (a b : Length) : (Except.ok a : Measure) + Except.ok b = Length.add a b := rfl

theorem ok_sub (a b : Length) : (Except.ok a : Measure) - Except.ok b = Length.sub a b := rfl

theorem ok_mul (a b : Length) : (Except.ok a : Measure) * Except.ok b = Length.mul a b := rfl

theorem ok_div (a b : Length) : (Except.ok a : Measure) / Except.ok b = Length.div a b := rfl

theorem ofInt_eq (n : Int) : (Scalar.ofInt n : Measure) = .ok (.whole n) := rfl

/-- A size: zero pixels, or a binary64 number of them. -/
def IsSize (m : Measure) : Prop := m = .ok (.whole 0) ∨ ∃ x, m = .ok (.real x)

/-- A weight above zero. -/
def IsWeight (m : Measure) : Prop := ∃ x, m = .ok (.real x) ∧ Settings.isPositive x = true

/-- The measure is a binary64 number, or a whole one among them. -/
def Converts (m : Measure) : Prop := ∃ l x, m = .ok l ∧ l.toFloat? = .ok x

variable {a b : Measure}

theorem converts_ofInt {n : Int} (h : n.natAbs < Binary64.limit) : Converts (Scalar.ofInt n) :=
  ⟨.whole n, _, rfl, Length.toFloat?_whole h⟩

theorem toFloat?_zero : (Length.whole 0).toFloat? = .ok (Float.ofInt 0) :=
  Length.toFloat?_whole (Binary64.lt_limit (by decide))

theorem IsSize.converts (h : IsSize a) : Converts a := by
  rcases h with rfl | ⟨x, rfl⟩
  · exact ⟨.whole 0, _, rfl, toFloat?_zero⟩
  · exact ⟨.real x, x, rfl, rfl⟩

theorem Converts.exists_toFloat? (h : Converts a) : ∃ x, a.toFloat? = .ok x := by
  obtain ⟨l, x, rfl, hx⟩ := h
  exact ⟨x, hx⟩

theorem IsSize.add (ha : IsSize a) (hb : IsSize b) : IsSize (a + b) := by
  rcases ha with rfl | ⟨x, rfl⟩
  · rcases hb with rfl | ⟨y, rfl⟩
    · exact Or.inl rfl
    · rw [ok_add, Length.add_real toFloat?_zero]
      exact Or.inr ⟨_, rfl⟩
  · obtain ⟨l, y, rfl, hy⟩ := hb.converts
    rw [ok_add, Length.real_add x hy]
    exact Or.inr ⟨_, rfl⟩

theorem IsSize.mul_ofInt {n : Int} (ha : IsSize a) (hn : n.natAbs < Binary64.limit) :
    IsSize (a * Scalar.ofInt n) := by
  rcases ha with rfl | ⟨x, rfl⟩
  · apply Or.inl
    show (Except.ok (Length.whole (0 * n)) : Measure) = _
    rw [Int.zero_mul]
  · rw [ofInt_eq, ok_mul, Length.real_mul x (Length.toFloat?_whole hn)]
    exact Or.inr ⟨_, rfl⟩

theorem isSize_sum {xs : List Measure} (h : ∀ x ∈ xs, IsSize x) : IsSize (Scalar.sum xs) := by
  have hfold : ∀ acc, IsSize acc → IsSize (xs.foldl (· + ·) acc) := by
    induction xs with
    | nil => exact fun acc hacc => hacc
    | cons x rest ih =>
        obtain ⟨hx, hrest⟩ := List.forall_mem_cons.mp h
        exact fun acc hacc => ih hrest (acc + x) (hacc.add hx)
  exact hfold Scalar.zero (Or.inl rfl)

theorem isWeight_add (ha : a = .ok (.whole 0) ∨ IsWeight a) (hb : IsWeight b) : IsWeight (a + b) := by
  obtain ⟨y, rfl, hy⟩ := hb
  rcases ha with rfl | ⟨x, rfl, hx⟩
  · rw [ok_add, Length.add_real toFloat?_zero]
    exact ⟨_, rfl, Binary64.isPositive_add Binary64.isNonneg_ofInt_zero hy⟩
  · rw [ok_add, Length.real_add x (Length.toFloat?_real y)]
    exact ⟨_, rfl, Binary64.isPositive_add (Binary64.isNonneg_of_isPositive hx) hy⟩

/-- The sum of weights is above zero once there is one. -/
theorem isWeight_sum {xs : List Measure} (h : ∀ x ∈ xs, IsWeight x) (hne : xs ≠ []) :
    IsWeight (Scalar.sum xs) := by
  have hfold : ∀ acc, IsWeight acc → ∀ ys : List Measure, (∀ y ∈ ys, IsWeight y) →
      IsWeight (ys.foldl (· + ·) acc) := by
    intro acc hacc ys hys
    induction ys generalizing acc with
    | nil => exact hacc
    | cons y rest ih =>
        obtain ⟨hy, hrest⟩ := List.forall_mem_cons.mp hys
        exact ih (acc + y) (isWeight_add (Or.inr hacc) hy) hrest
  cases xs with
  | nil => exact absurd rfl hne
  | cons x rest =>
      obtain ⟨hx, hrest⟩ := List.forall_mem_cons.mp h
      exact hfold _ (isWeight_add (Or.inl rfl) hx) rest hrest

end Measure

namespace Track

open Wireframe.Measure

variable {total gap a : Measure} {edge count : Int}

theorem lt_limit_of_le {n : Int} (h : 0 ≤ n) (hmax : n ≤ 1280) : n.natAbs < Binary64.limit :=
  Binary64.lt_limit (by omega)

theorem converts_available (hedge : edge.natAbs < Binary64.limit) (hgap : IsSize gap)
    (hcount : 1 ≤ count ∧ count ≤ 26) : Converts (available (Scalar.ofInt edge) gap count) := by
  have hgaps := hgap.mul_ofInt (lt_limit_of_le (show 0 ≤ count - 1 by omega) (by omega))
  rw [available]
  rcases hgaps with hgaps | ⟨x, hgaps⟩
  · rw [hgaps, ofInt_eq, ok_sub]
    refine ⟨.whole (edge - 0), _, rfl, Length.toFloat?_whole ?_⟩
    rw [Int.sub_zero]
    exact hedge
  · rw [hgaps, ofInt_eq, ok_sub, Length.sub_real (Length.toFloat?_whole hedge)]
    exact ⟨_, _, rfl, Length.toFloat?_real _⟩

theorem ofInt_beq_zero (h : 1 ≤ count ∧ count ≤ 26) : (Float.ofInt count == 0.0) = false := by
  obtain ⟨n, rfl⟩ : ∃ n : Nat, count = n := ⟨count.toNat, by omega⟩
  have hpos : 0.0 < Float.ofNat n := Binary64.ofNat_pos (by omega) (by omega)
  exact Binary64.beq_zero_of_isPositive (decide_eq_true hpos)

theorem exists_uniform (ha : Converts a) (hcount : 1 ≤ count ∧ count ≤ 26) :
    ∃ sizes, uniform a count = .ok sizes ∧ ∀ s ∈ sizes, IsSize s := by
  have hshare : ∃ x, a / Scalar.ofInt count = .ok (.real x) := by
    obtain ⟨l, x, rfl, hx⟩ := ha
    cases l with
    | whole n =>
        rw [ofInt_eq, ok_div, Length.whole_div (Length.natAbs_lt_of_toFloat? hx) (by omega)]
        exact ⟨_, rfl⟩
    | real x =>
        rw [ofInt_eq, ok_div, Length.real_div x
          (Length.toFloat?_whole (lt_limit_of_le (by omega) (by omega))) (ofInt_beq_zero hcount)]
        exact ⟨_, rfl⟩
  obtain ⟨x, hx⟩ := hshare
  refine ⟨List.replicate count.toNat (.ok (.real x)), ?_, ?_⟩
  · rw [uniform, hx]
    rfl
  · intro s hs
    exact Or.inr ⟨x, List.eq_of_mem_replicate hs⟩

theorem exists_weighted {ws : List Measure} (ha : Converts a) (hws : ∀ w ∈ ws, IsWeight w)
    (hne : ws ≠ []) : ∃ sizes, weighted a ws = .ok sizes ∧ ∀ s ∈ sizes, IsSize s := by
  obtain ⟨total, htotal, hpos⟩ := isWeight_sum hws hne
  have hsum : checked (Scalar.sum ws) = .ok (.ok (.real total)) := by
    rw [htotal]
    rfl
  have hshare : ∀ w ∈ ws, ∃ s, checked (a * w / .ok (.real total)) = .ok s ∧ IsSize s := by
    intro w hw
    obtain ⟨x, rfl, -⟩ := hws w hw
    obtain ⟨l, y, rfl, hy⟩ := ha
    rw [ok_mul, Length.mul_real hy, ok_div,
      Length.real_div _ (Length.toFloat?_real total) (Binary64.beq_zero_of_isPositive hpos)]
    exact ⟨_, rfl, Or.inr ⟨_, rfl⟩⟩
  obtain ⟨sizes, hsizes, hall⟩ := Results.exists_mapM hshare
  refine ⟨sizes, ?_, hall⟩
  rw [weighted, hsum]
  exact hsizes

/-- Weights for every cell of an axis, if any, and the cells of the axis, have sizes. -/
theorem exists_track {weights : Option (List Float)} (hedge : edge.natAbs < Binary64.limit)
    (hgap : IsSize gap) (hcount : 1 ≤ count ∧ count ≤ 26)
    (hpos : ∀ ws, weights = some ws → ∀ w ∈ ws, Settings.isPositive w = true)
    (hlen : ∀ ws, weights = some ws → (ws.length : Int) = count) :
    ∃ sizes, Plan.track edge gap count weights = .ok sizes ∧ ∀ s ∈ sizes, IsSize s := by
  have havailable := converts_available hedge hgap hcount
  obtain ⟨l, x, hl, -⟩ := id havailable
  have hchecked : checked (available (Scalar.ofInt edge) gap count) =
      .ok (available (Scalar.ofInt edge) gap count) := by
    rw [hl]
    rfl
  rw [Plan.track, sizes, hchecked]
  cases weights with
  | none => exact exists_uniform havailable hcount
  | some ws =>
      have hlength := hlen ws rfl
      have hweights : ∀ w ∈ ws.map fun w => (Scalar.ofLength (.real w) : Measure), IsWeight w := by
        intro w hw
        obtain ⟨x, hx, rfl⟩ := List.mem_map.mp hw
        exact ⟨x, rfl, hpos ws rfl x hx⟩
      obtain ⟨sizes, hsizes, hall⟩ := exists_weighted havailable hweights (by
        rw [← List.length_pos_iff, List.length_map]
        omega)
      refine ⟨sizes, ?_, hall⟩
      show (if ((ws.map _).length : Int) = count then _ else _) = _
      rw [List.length_map, if_pos hlength]
      exact hsizes

end Track

namespace Canvas

/-- The canvas of a ratio, with both edges within the binary64 numbers. -/
theorem exists_ofRatio {ratio : Int × Int} (h : 0 < ratio.1 ∧ 0 < ratio.2) :
    ∃ canvas, ofRatio ratio = .ok canvas ∧ canvas.width.natAbs < Binary64.limit ∧
      canvas.height.natAbs < Binary64.limit := by
  have hlongest : longest.natAbs < Binary64.limit := Binary64.lt_limit (by decide)
  rw [ofRatio]
  by_cases hwide : ratio.2 ≤ ratio.1
  · obtain ⟨q, -, -, hq⟩ := exists_otherEdge h.2 hwide
    rw [if_pos hwide, hq]
    exact ⟨_, rfl, hlongest, Binary64.natAbs_truncate_lt _⟩
  · obtain ⟨q, -, -, hq⟩ := exists_otherEdge h.1 (Int.le_of_not_le hwide)
    rw [if_neg hwide, hq]
    exact ⟨_, rfl, Binary64.natAbs_truncate_lt _, hlongest⟩

end Canvas

namespace Plan

variable {s : Settings}

/-- The parts of a plan that rectangles are computed from. -/
structure IsSized (p : Plan Measure) : Prop where
  gap : Measure.IsSize p.spacing.gap
  padding : Measure.Converts p.spacing.padding
  cols : ∀ x ∈ p.cols, Measure.IsSize x
  rows : ∀ x ∈ p.rows, Measure.IsSize x
  width : p.canvas.width.natAbs < Binary64.limit
  height : p.canvas.height.natAbs < Binary64.limit

theorem isSize_gap (hgap : s.gap = .whole 0 ∨ ∃ x, s.gap = .real x) :
    Measure.IsSize (Scalar.ofLength s.gap) := by
  rcases hgap with h | ⟨x, h⟩
  · rw [h]
    exact Or.inl rfl
  · rw [h]
    exact Or.inr ⟨x, rfl⟩

/-- The inset of a document: its own, or the one that stands for none. -/
theorem converts_padding (padding : Option Float) :
    Measure.Converts (Scalar.ofLength ((padding.map Length.real).getD defaultPadding)) := by
  cases padding with
  | none => exact Measure.converts_ofInt (Binary64.lt_limit (show (16 : Int).natAbs ≤ 2 ^ 53 by decide))
  | some x => exact ⟨.real x, x, rfl, Length.toFloat?_real x⟩

theorem isNegative_real {x : Float} (h : Component.notNegative x = true) :
    (Length.real x).isNegative = false := by
  rw [Length.isNegative, decide_eq_false_iff_not]
  exact Binary64.not_lt_zero_of_notNegative h

theorem ofLengths_eq_ok (hsound : s.IsSound) (hgap : s.gap = .whole 0 ∨ ∃ x, s.gap = .real x) :
    Spacing.ofLengths s.gap ((s.padding.map Length.real).getD defaultPadding) =
      .ok ⟨s.gap, (s.padding.map Length.real).getD defaultPadding⟩ := by
  have hgapSign : s.gap.isNegative = false := by
    have hnotNegative := hsound.gap_notNegative
    rcases hgap with h | ⟨x, h⟩
    · rw [h]
      rfl
    · rw [h] at hnotNegative ⊢
      exact isNegative_real hnotNegative
  have hpaddingSign : ((s.padding.map Length.real).getD defaultPadding).isNegative = false := by
    cases hpadding : s.padding with
    | none => rfl
    | some x => exact isNegative_real (hsound.padding_notNegative x hpadding)
  rw [Spacing.ofLengths, hgapSign, hpaddingSign]
  rfl

/-- Settings that keep their rules have a plan. -/
theorem exists_ofSettings (hsound : s.IsSound) (hcounts : ∀ axis, s.miscounted axis = none)
    (hgap : s.gap = .whole 0 ∨ ∃ x, s.gap = .real x) :
    ∃ p : Plan Measure, ofSettings s = .ok p ∧ p.IsSized := by
  obtain ⟨canvas, hcanvas, hwidth, hheight⟩ := Canvas.exists_ofRatio hsound.ratio_pos
  have hsize := isSize_gap hgap
  obtain ⟨cols, hcols, hcolSizes⟩ := Track.exists_track hwidth hsize
    (Settings.inGridLimits_iff.mp hsound.grid_inLimits.1) (hsound.weights_positive .columns)
    (Settings.miscounted_eq_none_iff.mp (hcounts .columns))
  obtain ⟨rows, hrows, hrowSizes⟩ := Track.exists_track hheight hsize
    (Settings.inGridLimits_iff.mp hsound.grid_inLimits.2) (hsound.weights_positive .rows)
    (Settings.miscounted_eq_none_iff.mp (hcounts .rows))
  refine ⟨⟨canvas, ⟨Scalar.ofLength s.gap, _⟩, cols, rows⟩, ?_,
    ⟨hsize, converts_padding s.padding, hcolSizes, hrowSizes, hwidth, hheight⟩⟩
  rw [ofSettings]
  refine Results.bind_eq_ok.mpr ⟨canvas, Results.mapError_eq_ok.mpr hcanvas, ?_⟩
  refine Results.bind_eq_ok.mpr ⟨_, ofLengths_eq_ok hsound hgap, ?_⟩
  refine Results.bind_eq_ok.mpr ⟨cols, hcols, ?_⟩
  exact Results.bind_eq_ok.mpr ⟨rows, hrows, rfl⟩

variable {p : Plan Measure}

theorem isSize_offset {sizes : List Measure} {gap : Measure} {first : Nat}
    (hsizes : ∀ x ∈ sizes, Measure.IsSize x) (hgap : Measure.IsSize gap)
    (hfirst : (first : Int).natAbs < Binary64.limit) :
    Measure.IsSize (Track.offset sizes gap first) := by
  apply (Measure.isSize_sum fun x hx => hsizes x (List.mem_of_mem_take hx)).add
  exact hgap.mul_ofInt hfirst

theorem isSize_length {sizes : List Measure} {gap : Measure} {first last : Nat}
    (hsizes : ∀ x ∈ sizes, Measure.IsSize x) (hgap : Measure.IsSize gap)
    (hlast : ((last : Int) - first).natAbs < Binary64.limit) :
    Measure.IsSize (Track.length sizes gap first last) := by
  refine (Measure.isSize_sum fun x hx => hsizes x ?_).add (hgap.mul_ofInt hlast)
  exact List.mem_of_mem_drop (List.mem_of_mem_take hx)

/-- A range on the grid has a rectangle. -/
theorem exists_toFloat? (hp : p.IsSized) {range : Range} (padding : Option Float)
    (hcol : range.last.col < 26) (hrow : range.last.row < 26) :
    ∃ r, (p.place range padding).toFloat? = .ok r := by
  have hlimit (n : Int) (hmin : 0 ≤ n) (hmax : n ≤ 26) : n.natAbs < Binary64.limit :=
    Track.lt_limit_of_le hmin (by omega)
  have hcols := range.col_le
  have hrows := range.row_le
  have hx := isSize_offset hp.cols hp.gap (hlimit range.first.col (by omega) (by omega))
  have hy := isSize_offset hp.rows hp.gap (hlimit range.first.row (by omega) (by omega))
  have hwidth := isSize_length hp.cols hp.gap
    (hlimit ((range.last.col : Int) - range.first.col) (by omega) (by omega))
  have hheight := isSize_length hp.rows hp.gap
    (hlimit ((range.last.row : Int) - range.first.row) (by omega) (by omega))
  have hpadding : Measure.Converts
      ((padding.map fun x => Scalar.ofLength (.real x)).getD p.spacing.padding) := by
    cases padding with
    | none => exact hp.padding
    | some x => exact ⟨.real x, x, rfl, Length.toFloat?_real x⟩
  obtain ⟨x, hx⟩ := hx.converts.exists_toFloat?
  obtain ⟨y, hy⟩ := hy.converts.exists_toFloat?
  obtain ⟨width, hwidth⟩ := hwidth.converts.exists_toFloat?
  obtain ⟨height, hheight⟩ := hheight.converts.exists_toFloat?
  obtain ⟨inset, hinset⟩ := hpadding.exists_toFloat?
  refine ⟨⟨x, y, width, height, inset⟩, ?_⟩
  rw [Rect.toFloat?]
  refine Results.bind_eq_ok.mpr ⟨x, hx, ?_⟩
  refine Results.bind_eq_ok.mpr ⟨y, hy, ?_⟩
  refine Results.bind_eq_ok.mpr ⟨width, hwidth, ?_⟩
  refine Results.bind_eq_ok.mpr ⟨height, hheight, ?_⟩
  exact Results.bind_eq_ok.mpr ⟨inset, hinset, rfl⟩

end Plan
end Wireframe
