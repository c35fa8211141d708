import Wireframe.Drawing
import Wireframe.Proofs.FitLoop
import Wireframe.Proofs.WrapPacking

/-! Where a text stands in its rectangle. The search for a size sees only the lengths that the inset leaves,
while lines are placed from the middle of the rectangle and from an edge. In exact arithmetic both agree: a
text that passes the test of its height stands inside the inset from top to bottom and in the middle, and of
its lines only a piece that is too wide by itself leaves the inset at a side (`Block.fit_inside`). -/

namespace Wireframe

namespace Typeset

variable {width height size padding limit : ℚ} {cs : List Char} {found : Fitted ℚ} {l : List Char}

theorem lineHeight_eq : (lineHeight : ℚ) = 6 / 5 := by
  rw [lineHeight, OrderedScalar.ofDecimal_eq]
  norm_num

theorem inside_eq (length padding : ℚ) : inside length padding = max (length - 2 * padding) 0 :=
  OrderedScalar.max_eq _ _

theorem smaller_eq (size : ℚ) : smaller size = max (size - 2) 8 :=
  OrderedScalar.max_eq _ _

theorem heightFits_iff {n : ℕ} : heightFits limit size n = true ↔ n * size * (6 / 5) ≤ limit := by
  rw [heightFits, lineHeight_eq]
  exact OrderedScalar.le_eq_true_iff

/-- No size that is tried after a positive one is zero. -/
theorem Settles.size_pos (h : Settles width height cs size found) (hsize : 0 < size) : 0 < found.size := by
  induction h with
  | stop => exact hsize
  | next _ _ ih =>
      apply ih
      rw [smaller_eq]
      exact lt_max_of_lt_right (by norm_num)

theorem textWidth_pos (hsize : 0 < size) (hne : l ≠ []) : 0 < textWidth size l := by
  obtain ⟨c, cs, rfl⟩ := List.exists_cons_of_ne_nil hne
  have hc : 0 < charWidth size c := mul_pos hsize (zero_lt_widthRatio c)
  have hcs := zero_le_textWidth hsize.le cs
  rw [textWidth_eq] at hcs ⊢
  rw [List.map_cons, List.sum_cons]
  linarith

/-- A line is one piece of the text, without its spaces, that the width does not hold. -/
def IsOverlong (limit size : ℚ) (cs l : List Char) : Prop :=
  limit < textWidth size l ∧ ∃ hard ∈ Text.splitAt '\n' cs, ∃ piece ∈ pieces hard, Text.IsTrimmed piece l

theorem within_or_isOverlong (hsize : 0 ≤ size) (h : l ∈ wrap limit size cs) (hne : l ≠ []) :
    textWidth size l ≤ limit ∨ IsOverlong limit size cs l := by
  rcases le_or_gt (textWidth size l) limit with hwithin | hbeyond
  · exact Or.inl hwithin
  obtain ⟨hard, hhard, hl⟩ := List.mem_flatMap.mp h
  have hcs : hard ≠ [] := by
    rintro rfl
    exact hne (List.mem_singleton.mp hl)
  have hshortest : IsShortest limit size hard _ _ := isShortest_wrapLine hsize hcs
  obtain hwithin | ⟨piece, hgroup, -, htrimmed⟩ := hshortest.within l hl
  · exact absurd (hwithin.trans_lt hbeyond) (lt_irrefl _)
  · refine Or.inr ⟨hbeyond, hard, hhard, piece, ?_, htrimmed⟩
    rw [← hshortest.flatten_eq]
    exact List.mem_flatten.mpr ⟨[piece], hgroup, List.mem_singleton_self piece⟩

end Typeset

namespace Theme

variable {name : Option String} {theme : Theme}

theorem fontSize_pos (h : named? name = .ok theme) : 0 < theme.fontSize := by
  have hall : ∀ t ∈ all.map (·.2), 0 < t.fontSize := by decide
  exact hall theme (mem_all_of_named? h)

/-- In exact arithmetic too the search from the size of a theme ends within its bound. -/
theorem settles_fontSize (h : named? name = .ok theme) (width height padding : ℚ) (cs : List Char) :
    Typeset.Settles (Typeset.inside width padding) (Typeset.inside height padding) cs (theme.fontSize : ℚ)
      (Typeset.fit width height padding (theme.fontSize : ℚ) cs) := by
  have hall : ∀ t ∈ all.map (·.2),
      Typeset.reachesLeast (OrderedScalar.bound (t.fontSize : ℚ)) (t.fontSize : ℚ) = true := by
    decide +kernel
  exact Typeset.settles_fitFrom (hall theme (mem_all_of_named? h))

end Theme

/-- What lies between two places on an axis. -/
structure Stretch where
  start : ℚ
  stop : ℚ

namespace Stretch

/-- A stretch of that width at a place, on the side or around it as the alignment says. -/
def anchored (width place : ℚ) : Align → Stretch
  | .left => ⟨place, place + width⟩
  | .center => ⟨place - width / 2, place + width / 2⟩
  | .right => ⟨place - width, place⟩

/-- What an inset at both ends leaves. -/
def inset (start length padding : ℚ) : Stretch := ⟨start + padding, start + length - padding⟩

def middle (s : Stretch) : ℚ := (s.start + s.stop) / 2

structure IsIn (s t : Stretch) : Prop where
  start_le : t.start ≤ s.start
  le_stop : s.stop ≤ t.stop

end Stretch

namespace Drawing

open Typeset (Settles wrap IsOverlong heightFits inside textWidth)

variable {r : Rect ℚ} {size : ℚ} {align : Align} {cs l : List Char}

/-- The box of a line in a stack of line boxes of one height. -/
def lineBox (top height : ℚ) (index : ℕ) : Stretch := ⟨top + index * height, top + (index + 1) * height⟩

/-- The lines stand in boxes of one height, one below the other, that are inside the inset and in the middle
of the rectangle. -/
structure IsStacked (r : Rect ℚ) (b : Block ℚ) (top height : ℚ) : Prop where
  height_eq : height = 6 / 5 * b.size
  isIn : Stretch.IsIn ⟨top, top + b.lines.length * height⟩ (.inset r.y r.height r.padding)
  middle_eq : Stretch.middle ⟨top, top + b.lines.length * height⟩ = r.centerY
  baselines : b.top :: b.others =
    (List.range b.lines.length).map fun i => (lineBox top height i).middle + b.size / 3

theorem baseline_eq (r : Rect ℚ) (size : ℚ) (lines index : ℕ) : baseline r size lines index =
    (lineBox (r.centerY - lines * (6 / 5 * size) / 2) (6 / 5 * size) index).middle + size / 3 := by
  have hhalf : (OrderedScalar.ofDecimal 5 1 : ℚ) = 1 / 2 := by
    rw [OrderedScalar.ofDecimal_eq]
    norm_num
  have hbaseline : baseline r size lines index = r.centerY - lines * (size * (6 / 5)) / 2 +
      size * (6 / 5) * (index + 1 / 2) + size / 3 := by
    rw [baseline, Typeset.lineHeight_eq, hhalf]
    rfl
  rw [hbaseline, lineBox, Stretch.middle]
  ring

/-- Each line has a baseline. -/
theorem baselines_fit (hlines : (Block.fit r size align cs).lines ≠ []) :
    (Block.fit r size align cs).top :: (Block.fit r size align cs).others =
      (List.range (Block.fit r size align cs).lines.length).map
        (baseline r (Block.fit r size align cs).size (Block.fit r size align cs).lines.length) := by
  have hpos := List.length_pos_of_ne_nil hlines
  have hrange (n : ℕ) (hn : 0 < n) : List.range n = 0 :: List.range' 1 (n - 1) := by
    rw [List.range_eq_range', ← Nat.sub_add_cancel hn, List.range'_succ, Nat.add_sub_cancel]
  rw [hrange _ hpos, List.map_cons]
  rfl

/-- Lines that pass the test of their height are stacked in the middle of the rectangle. -/
theorem isStacked_fit (hlines : (Block.fit r size align cs).lines ≠ [])
    (hsize : 0 < (Block.fit r size align cs).size)
    (hfits : heightFits (inside r.height r.padding) (Block.fit r size align cs).size
      (Block.fit r size align cs).lines.length = true) :
    ∃ top height, IsStacked r (Block.fit r size align cs) top height := by
  set b := Block.fit r size align cs with hb
  have hlength := List.length_pos_of_ne_nil hlines
  -- lines of a positive height only fit what the inset leaves where it leaves something
  have hroom : b.lines.length * b.size * (6 / 5) ≤ r.height - 2 * r.padding := by
    rw [Typeset.heightFits_iff, Typeset.inside_eq, le_max_iff] at hfits
    have hpos : 0 < b.lines.length * b.size * (6 / 5) := by positivity
    exact hfits.resolve_right hpos.not_ge
  have hcenter : r.centerY = r.y + r.height / 2 := rfl
  refine ⟨r.centerY - b.lines.length * (6 / 5 * b.size) / 2, 6 / 5 * b.size, rfl, ⟨?_, ?_⟩, ?_, ?_⟩
  · show r.y + r.padding ≤ r.centerY - b.lines.length * (6 / 5 * b.size) / 2
    rw [hcenter]
    linarith
  · show r.centerY - b.lines.length * (6 / 5 * b.size) / 2 + b.lines.length * (6 / 5 * b.size) ≤
      r.y + r.height - r.padding
    rw [hcenter]
    linarith
  · rw [Stretch.middle]
    ring
  · rw [hb, baselines_fit hlines, ← hb]
    exact List.map_congr_left fun i _ => baseline_eq r b.size b.lines.length i

/-- From the place of its alignment what is not wider than the inset leaves stays in it. -/
theorem anchored_isIn {width : ℚ} (h : width ≤ r.width - 2 * r.padding) (align : Align) :
    (Stretch.anchored width (anchorX r align) align).IsIn (.inset r.x r.width r.padding) := by
  cases align with
  | left =>
      constructor
      · exact le_refl (r.x + r.padding)
      · show r.x + r.padding + width ≤ r.x + r.width - r.padding
        linarith
  | center =>
      constructor
      · show r.x + r.padding ≤ r.x + r.width / 2 - width / 2
        linarith
      · show r.x + r.width / 2 + width / 2 ≤ r.x + r.width - r.padding
        linarith
  | right =>
      constructor
      · show r.x + r.padding ≤ r.x + r.width - r.padding - width
        linarith
      · exact le_refl (r.x + r.width - r.padding)

theorem line_isIn (hsize : 0 < size) (h : l ∈ wrap (inside r.width r.padding) size cs) (hne : l ≠ [])
    (hshort : ¬IsOverlong (inside r.width r.padding) size cs l) (align : Align) :
    (Stretch.anchored (textWidth size l) (anchorX r align) align).IsIn (.inset r.x r.width r.padding) := by
  have hwithin := (Typeset.within_or_isOverlong hsize.le h hne).resolve_right hshort
  rw [Typeset.inside_eq, le_max_iff] at hwithin
  exact anchored_isIn (hwithin.resolve_right (Typeset.textWidth_pos hsize hne).not_ge) align

/-- In exact arithmetic a text that passes the test of its height is inside the inset of its rectangle: its
lines are stacked in the middle, and each that has characters, but for a piece that is too wide by itself,
stays inside at both sides. -/
theorem Block.fit_inside {name : Option String} {theme : Theme} (h : Theme.named? name = .ok theme)
    (r : Rect ℚ) (align : Align) (value : String) {b : Block ℚ}
    (hb : b = Block.fit r (theme.fontSize : ℚ) align value.toList)
    (hfits : heightFits (inside r.height r.padding) b.size b.lines.length = true) :
    (∃ top height, IsStacked r b top height) ∧
      ∀ l ∈ b.lines, l ≠ [] → ¬IsOverlong (inside r.width r.padding) b.size value.toList l →
        (Stretch.anchored (textWidth b.size l) b.x align).IsIn (.inset r.x r.width r.padding) := by
  subst hb
  have hsettles := Theme.settles_fontSize h r.width r.height r.padding value.toList
  have hstart : (0 : ℚ) < theme.fontSize := Nat.cast_pos.mpr (Theme.fontSize_pos h)
  have hsize := hsettles.size_pos hstart
  have hlines := hsettles.lines_eq
  constructor
  · refine isStacked_fit ?_ hsize hfits
    show (Typeset.fit r.width r.height r.padding (theme.fontSize : ℚ) value.toList).lines ≠ []
    rw [hlines]
    exact Typeset.wrap_ne_nil _ _ _
  · intro l hl hne hshort
    refine line_isIn hsize ?_ hne hshort align
    rw [← hlines]
    exact hl

/-- Two lines in the middle of a rectangle. -/
theorem Block.fit_inside_of_two_lines :
    ∃ (r : Rect ℚ) (b : Block ℚ), Theme.named? none = .ok Theme.default ∧
      b = Block.fit r (Theme.default.fontSize : ℚ) .center "Hello wide world".toList ∧
      b.lines = ["Hello wide".toList, "world".toList] ∧
      heightFits (inside r.height r.padding) b.size b.lines.length = true ∧
      (∃ top height, IsStacked r b top height) ∧
      ∀ l ∈ b.lines, l ≠ [] → ¬IsOverlong (inside r.width r.padding) b.size "Hello wide world".toList l →
        (Stretch.anchored (textWidth b.size l) b.x .center).IsIn (.inset r.x r.width r.padding) := by
  have hlines : (Block.fit (⟨10, 20, 200, 100, 8⟩ : Rect ℚ) (Theme.default.fontSize : ℚ) .center
      "Hello wide world".toList).lines = ["Hello wide".toList, "world".toList] := by
    decide +kernel
  have hfits : heightFits (inside (100 : ℚ) 8) (Block.fit (⟨10, 20, 200, 100, 8⟩ : Rect ℚ)
      (Theme.default.fontSize : ℚ) .center "Hello wide world".toList).size 2 = true := by
    decide +kernel
  refine ⟨⟨10, 20, 200, 100, 8⟩, _, rfl, rfl, hlines, ?_, ?_⟩
  · rw [hlines]
    exact hfits
  · refine Block.fit_inside (show Theme.named? none = .ok Theme.default from rfl)
      ⟨10, 20, 200, 100, 8⟩ .center "Hello wide world" rfl ?_
    rw [hlines]
    exact hfits

end Drawing
end Wireframe
