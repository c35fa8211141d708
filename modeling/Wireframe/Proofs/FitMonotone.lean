import Wireframe.Proofs.FitLoop
import Wireframe.Proofs.FloatMonotone

/-! Fitting a text into a smaller box. Greedy packing into a narrower width takes at least as many groups,
although it breaks at other pieces: it is never behind by a group, and where both are at the same group the
narrower one holds the shorter rest (`length_packAfter_le`). So a text that does not fit a box at a size
does not fit a smaller one at that size, and the search in the smaller box goes on at least as long
(`size_fit_le`). -/

namespace Wireframe.Typeset

open Binary64 (level IsNumber le_iff lt_iff level_le level_zero isNumber_of_le isNumber_zero)

section Scalars

variable {x x' y length length' padding padding' : Float}

theorem level_max (hx : IsNumber x) (hy : IsNumber y) :
    IsNumber (OrderedScalar.max x y) ∧ level (OrderedScalar.max x y) = max (level x) (level y) := by
  have hmax : OrderedScalar.max x y = if x < y then y else x := by
    show (if decide (x < y) = true then y else x) = _
    simp only [decide_eq_true_eq]
  rw [hmax]
  split
  · next hlt =>
    rw [lt_iff hx hy] at hlt
    exact ⟨hy, by omega⟩
  · next hle =>
    rw [lt_iff hx hy] at hle
    exact ⟨hx, by omega⟩

theorem max_le_max (hxx : x' ≤ x) (hy : IsNumber y) :
    OrderedScalar.max x' y ≤ OrderedScalar.max x y := by
  obtain ⟨hx', hx⟩ := isNumber_of_le hxx
  obtain ⟨hnumber, hlevel⟩ := level_max hx hy
  obtain ⟨hnumber', hlevel'⟩ := level_max hx' hy
  have hle := level_le hxx
  rw [le_iff hnumber' hnumber, hlevel, hlevel']
  omega

theorem zero_lt_two : 0.0 < Float.ofNat 2 := by decide

/-- A smaller length and a wider inset leave less inside. -/
theorem inside_le_inside (hlength : length.isFinite = true) (hlength' : length'.isFinite = true)
    (hpadding' : padding'.isFinite = true) (hsmaller : length' ≤ length) (hpos : 0.0 ≤ padding)
    (hwider : padding ≤ padding') : inside length' padding' ≤ inside length padding := by
  have hpadding := Binary64.isFinite_of_le hpos hwider hpadding'
  have htwo := Binary64.isFinite_ofNat (show 2 ≤ 2 ^ 53 by decide)
  refine max_le_max ?_ (Binary64.level_ofNat 0).1
  exact Binary64.sub_le_sub hlength hlength' hsmaller
    (Binary64.mul_nonneg_left zero_lt_two htwo hpos hpadding)
    (Binary64.mul_le_mul_left zero_lt_two htwo hpadding hpadding' hwider)

end Scalars

section Packing

variable {limit limit' size width width' : Float}

/-- The part of its size that a character is wide. -/
theorem widthRatio_pos (c : Char) : 0.0 < (widthRatio c : Float) ∧ (widthRatio c : Float).isFinite = true := by
  rw [widthRatio]
  split
  · decide
  · split <;> decide

theorem textWidth_nonneg (hsize : 0.0 ≤ size) (cs : List Char) : 0.0 ≤ textWidth size cs := by
  have hsum (xs : List Float) (hxs : ∀ x ∈ xs, 0.0 ≤ x) {start : Float} (hstart : 0.0 ≤ start) :
      0.0 ≤ xs.foldl (· + ·) start := by
    induction xs generalizing start with
    | nil => exact hstart
    | cons x xs ih =>
        exact ih (fun y hy => hxs y (List.mem_cons_of_mem _ hy))
          (Binary64.add_nonneg hstart (hxs x List.mem_cons_self))
  refine hsum _ (fun x hx => ?_) (Binary64.zero_le_ofNat 0)
  obtain ⟨c, -, rfl⟩ := List.mem_map.mp hx
  exact Binary64.mul_nonneg hsize (widthRatio_pos c).1 (widthRatio_pos c).2

/-- A piece that goes beyond the limit starts a group. -/
theorem length_packAfter_cons (limit size width : Float) (piece : List Char) (rest : List (List Char)) :
    (packAfter limit size width (piece :: rest)).2.length =
      if limit < width + textWidth size piece then
        (packAfter limit size (textWidth size piece) rest).2.length + 1
      else (packAfter limit size (width + textWidth size piece) rest).2.length := by
  have hlt : (OrderedScalar.lt limit (width + textWidth size piece) = true) =
      (limit < width + textWidth size piece) := decide_eq_true_eq
  rw [packAfter]
  simp only [hlt]
  split <;> rfl

/-- Two runs over the same pieces. The narrower one takes at least as many groups when it starts with the
longer rest, and at least as many but one from any start. -/
theorem length_packAfter_le (hlimit : limit' ≤ limit) (hsize : 0.0 ≤ size) (ps : List (List Char))
    (hwidth : 0.0 ≤ width) (hwidth' : 0.0 ≤ width') :
    (width ≤ width' →
        (packAfter limit size width ps).2.length ≤ (packAfter limit' size width' ps).2.length) ∧
      (packAfter limit size width ps).2.length ≤ (packAfter limit' size width' ps).2.length + 1 := by
  induction ps generalizing width width' with
  | nil => exact ⟨fun _ => Nat.le_refl _, Nat.zero_le _⟩
  | cons piece rest ih =>
      have hpiece := textWidth_nonneg hsize piece
      have hsum := Binary64.add_nonneg hwidth hpiece
      have hsum' := Binary64.add_nonneg hwidth' hpiece
      have hself := Binary64.le_self (isNumber_of_le hpiece).2
      rw [length_packAfter_cons, length_packAfter_cons]
      refine ⟨fun hle => ?_, ?_⟩
      · have hmono := Binary64.add_le_add hwidth hpiece hle hself
        split
        · next hbreak =>
          -- the narrower run is at least as far along, and breaks here as well
          have hbreak' := Binary64.lt_of_lt_of_le (isNumber_of_le hlimit).1
            (Binary64.lt_of_le_of_lt (isNumber_of_le hsum).2 hlimit hbreak) hmono
          rw [if_pos hbreak']
          exact Nat.succ_le_succ ((ih hpiece hpiece).1 hself)
        · split
          · exact (ih hsum hpiece).2
          · exact (ih hsum hsum').1 hmono
      · split
        · split
          · exact Nat.succ_le_succ (ih hpiece hpiece).2
          · exact Nat.succ_le_succ ((ih hpiece hsum').1 (Binary64.le_add_left hwidth' hpiece))
        · split
          · exact Nat.le_trans (ih hsum hpiece).2 (Nat.le_succ _)
          · exact (ih hsum hsum').2

theorem length_wrapLine (limit size : Float) (cs : List Char) :
    (wrapLine limit size cs).length = max 1 (pack limit size (pieces cs)).length := by
  rw [wrapLine]
  split
  · next hnone =>
    rw [hnone]
    rfl
  · next hne =>
    rw [List.length_map]
    have hpos := List.length_pos_of_ne_nil hne
    omega

theorem length_pack_le (hlimit : limit' ≤ limit) (hsize : 0.0 ≤ size) (ps : List (List Char)) :
    (pack limit size ps).length ≤ (pack limit' size ps).length := by
  cases ps with
  | nil => exact Nat.le_refl _
  | cons piece rest =>
      have hstart := Binary64.add_nonneg (Binary64.zero_le_ofNat 0) (textWidth_nonneg hsize piece)
      rw [pack, pack]
      exact Nat.succ_le_succ ((length_packAfter_le hlimit hsize rest hstart hstart).1
        (Binary64.le_self (isNumber_of_le hstart).2))

/-- A narrower limit takes at least as many lines. -/
theorem length_wrap_le (hlimit : limit' ≤ limit) (hsize : 0.0 ≤ size) (cs : List Char) :
    (wrap limit size cs).length ≤ (wrap limit' size cs).length := by
  rw [wrap, wrap]
  induction Text.splitAt '\n' cs with
  | nil => exact Nat.le_refl _
  | cons part rest ih =>
      have hpart := length_pack_le hlimit hsize (pieces part)
      rw [List.flatMap_cons, List.flatMap_cons, List.length_append, List.length_append, length_wrapLine,
        length_wrapLine]
      omega

end Packing

section Search

variable {width width' height height' size : Float} {cs : List Char} {found found' : Fitted Float}

/-- The sizes of a search, from which it goes to a smaller one. -/
def Positive (size : Float) : Prop := 0.0 < size ∧ size.isFinite = true

theorem Positive.nonneg (h : Positive size) : 0.0 ≤ size := by
  have hnumber := Binary64.isNumber_of_isFinite h.2
  have hlt := (lt_iff isNumber_zero hnumber).mp h.1
  exact (le_iff isNumber_zero hnumber).mpr (Int.le_of_lt hlt)

theorem minSize_eq : (minSize : Float) = Float.ofNat 8 := rfl

theorem level_minSize : IsNumber (minSize : Float) ∧ level (minSize : Float) = Binary64.magnitude 8 0 := by
  rw [minSize_eq]
  exact ⟨(Binary64.level_ofNat 8).1, Binary64.level_ofNat_of_le (by decide)⟩

theorem lineHeight_pos : 0.0 < (lineHeight : Float) ∧ (lineHeight : Float).isFinite = true := by
  decide

/-- Fewer lines fit wherever more lines do, and a greater height takes what a smaller one does. -/
theorem heightFits_of_le (hheight : height' ≤ height) (hsize : Positive size) {lines lines' : Nat}
    (hlines : lines ≤ lines') (h : heightFits height' size lines' = true) :
    heightFits height size lines = true := by
  have hfits : Float.ofNat lines' * size * lineHeight ≤ height' := of_decide_eq_true h
  have hcount := Binary64.mul_le_mul_right (Binary64.zero_le_ofNat lines) (Binary64.ofNat_le_ofNat hlines)
    hsize.1 hsize.2
  have hless := Binary64.mul_le_mul_right
    (Binary64.mul_nonneg (Binary64.zero_le_ofNat lines) hsize.1 hsize.2) hcount lineHeight_pos.1 lineHeight_pos.2
  exact decide_eq_true (Binary64.le_trans hless (Binary64.le_trans hfits hheight))

/-- Where the search stops in a smaller box, it stops in a greater one. -/
theorem stops_of_stops (hwidth : width' ≤ width) (hheight : height' ≤ height) (hsize : Positive size)
    (h : Stops width' height' cs size) : Stops width height cs size := by
  rw [Stops, Bool.or_eq_true] at h ⊢
  exact h.imp_left (heightFits_of_le hheight hsize (length_wrap_le hwidth hsize.nonneg cs))

theorem isFinite_two : (Float.ofNat 2).isFinite = true :=
  Binary64.isFinite_ofNat (show 2 ≤ 2 ^ 53 by decide)

theorem level_smaller (hsize : Positive size) : IsNumber (smaller size) ∧
    level (smaller size) = max (level (size - Float.ofNat 2)) (level (minSize : Float)) :=
  level_max (Binary64.level_sub hsize.2 isFinite_two).1 level_minSize.1

/-- Beyond the least size the next one is smaller, and a number above zero. -/
theorem smaller_le (hsize : Positive size) (h : ¬size ≤ (minSize : Float)) :
    Positive (smaller size) ∧ smaller size ≤ size := by
  have hnumber := Binary64.isNumber_of_isFinite hsize.2
  obtain ⟨hleast, hlevelLeast⟩ := level_minSize
  rw [le_iff hnumber hleast] at h
  obtain ⟨hsmaller, hlevel⟩ := level_smaller hsize
  have hstep := level_le (Binary64.sub_le_self hsize.2 (Binary64.zero_le_ofNat 2) isFinite_two)
  have hbounds := Binary64.level_lt_of_isFinite hsize.2
  have hpos : 0 < level (minSize : Float) := by
    rw [hlevelLeast]
    exact Int.natCast_pos.mpr (Binary64.magnitude_pos (by decide) 0)
  refine ⟨⟨(lt_iff isNumber_zero hsmaller).mpr ?_, Binary64.isFinite_of_level_lt hsmaller ?_⟩,
    (le_iff hsmaller hnumber).mpr ?_⟩
  · rw [level_zero]
    omega
  · omega
  · omega

theorem not_le_minSize (h : ¬Stops width height cs size) : ¬size ≤ (minSize : Float) :=
  fun hle => h (stops_of_le (decide_eq_true hle))

theorem Settles.size_le (h : Settles width height cs size found) (hsize : Positive size) :
    found.size ≤ size := by
  induction h with
  | stop => exact Binary64.le_self (Binary64.isNumber_of_isFinite hsize.2)
  | next hgoes _ ih =>
      obtain ⟨hsmaller, hle⟩ := smaller_le hsize (not_le_minSize hgoes)
      exact Binary64.le_trans (ih hsmaller) hle

/-- From one size the search in a smaller box does not stop before the one in a greater box. -/
theorem Settles.size_le_size (hwidth : width' ≤ width) (hheight : height' ≤ height)
    (h : Settles width height cs size found) (h' : Settles width' height' cs size found')
    (hsize : Positive size) : found'.size ≤ found.size := by
  induction h with
  | stop => exact h'.size_le hsize
  | next hgoes _ ih =>
      cases h' with
      | stop hstops => exact absurd (stops_of_stops hwidth hheight hsize hstops) hgoes
      | next _ rest => exact ih rest (smaller_le hsize (not_le_minSize hgoes)).1

end Search

section Bound

variable {size : Float} {n : Nat}

/-- Two is taken off exactly, as far as whole numbers are kept. -/
theorem level_smaller_le (hsize : Positive size) (hn : 8 + 2 * (n + 1) ≤ 2 ^ 53)
    (h : level size ≤ Binary64.magnitude (8 + 2 * (n + 1)) 0) :
    level (smaller size) ≤ Binary64.magnitude (8 + 2 * n) 0 := by
  have hstep := (Binary64.level_sub hsize.2 isFinite_two).2
  have htwo := Binary64.level_ofNat_of_le (show 2 ≤ 2 ^ 53 by decide)
  have hsplit : Binary64.magnitude (8 + 2 * (n + 1)) 0 =
      Binary64.magnitude (8 + 2 * n) 0 + Binary64.magnitude 2 0 := by
    rw [show 8 + 2 * (n + 1) = 8 + 2 * n + 2 by omega, Binary64.magnitude_add]
  have hmono := Binary64.clamp_roundedInt_mono 0
    (show level size - level (Float.ofNat 2) ≤ Binary64.magnitude (8 + 2 * n) 0 by omega)
  rw [Binary64.roundedInt_natCast, Binary64.rounded_whole (by omega),
    Binary64.clamp_of_lt (Binary64.magnitude_lt_top_of_le (by omega))] at hmono
  have hleast := Binary64.magnitude_le (show 8 ≤ 8 + 2 * n by omega) 0
  rw [(level_smaller hsize).2, hstep, level_minSize.2]
  omega

theorem reachesLeast_of_level_le (hsize : Positive size) (hn : 8 + 2 * n ≤ 2 ^ 53)
    (h : level size ≤ Binary64.magnitude (8 + 2 * n) 0) : reachesLeast n size = true := by
  have hnumber := Binary64.isNumber_of_isFinite hsize.2
  induction n generalizing size with
  | zero =>
      refine decide_eq_true ((le_iff hnumber level_minSize.1).mpr ?_)
      rw [level_minSize.2]
      exact h
  | succ n ih =>
      rw [reachesLeast, Bool.or_eq_true]
      by_cases hle : size ≤ (minSize : Float)
      · exact Or.inl (decide_eq_true hle)
      · have hsmaller := (smaller_le hsize hle).1
        exact Or.inr (ih hsmaller (by omega) (level_smaller_le hsize hn h)
          (Binary64.isNumber_of_isFinite hsmaller.2))

theorem reachesLeast_mono {α : Type} [OrderedScalar α] {size : α} {m : Nat} (h : reachesLeast n size = true)
    (hle : n ≤ m) : reachesLeast m size = true := by
  induction m generalizing n size with
  | zero =>
      obtain rfl : n = 0 := by omega
      exact h
  | succ m ih =>
      rw [reachesLeast, Bool.or_eq_true]
      cases n with
      | zero => exact Or.inl h
      | succ n =>
          rw [reachesLeast, Bool.or_eq_true] at h
          exact h.imp_right fun h => ih h (by omega)

/-- From a size of at most 53 bits the least one is reached within the bound. -/
theorem reachesLeast_bound (hsize : Positive size) (hmost : size ≤ Float.ofNat (2 ^ 53)) :
    reachesLeast (OrderedScalar.bound size) size = true := by
  have hlevel := level_le hmost
  rw [Binary64.level_ofNat_of_le (Nat.le_refl _)] at hlevel
  have hbound : OrderedScalar.bound size = size.toUInt64.toNat + 1 := rfl
  obtain ⟨whole, hwhole, hle, hlevel⟩ : ∃ whole, whole ≤ 2 ^ 53 ∧ whole ≤ OrderedScalar.bound size ∧
      level size ≤ Binary64.magnitude whole 0 := by
    by_cases hbits : 2 ^ 53 ≤ OrderedScalar.bound size
    · exact ⟨2 ^ 53, Nat.le_refl _, hbits, hlevel⟩
    · refine ⟨OrderedScalar.bound size, by omega, Nat.le_refl _, ?_⟩
      rcases Binary64.level_lt_of_toUInt64 hsize.1 hsize.2 with hlt | hbig
      · exact Int.le_of_lt hlt
      · omega
  have hstep := Binary64.magnitude_le (show whole ≤ 8 + 2 * ((whole - 7) / 2) by omega) 0
  exact reachesLeast_mono
    (reachesLeast_of_level_le (n := (whole - 7) / 2) hsize (by omega) (by omega)) (by omega)

end Bound

/-- From one size of at most 53 bits both searches end, and the one in the box that is not wider, not
higher and not less inset ends with a size that is not greater. -/
theorem size_fit_le {width width' height height' padding padding' size : Float} (cs : List Char)
    (hwidth : width.isFinite = true) (hwidth' : width'.isFinite = true)
    (hheight : height.isFinite = true) (hheight' : height'.isFinite = true)
    (hpadding' : padding'.isFinite = true) (hnarrower : width' ≤ width) (hlower : height' ≤ height)
    (hinset : 0.0 ≤ padding) (hwider : padding ≤ padding') (hpos : 0.0 < size)
    (hmost : size ≤ Float.ofNat (2 ^ 53)) :
    Settles (inside width padding) (inside height padding) cs size (fit width height padding size cs) ∧
      Settles (inside width' padding') (inside height' padding') cs size
        (fit width' height' padding' size cs) ∧
      (fit width' height' padding' size cs).size ≤ (fit width height padding size cs).size := by
  have hfinite : size.isFinite = true := by
    have hnonneg : 0.0 ≤ size :=
      (le_iff isNumber_zero (isNumber_of_le hmost).1).mpr
        (Int.le_of_lt ((lt_iff isNumber_zero (isNumber_of_le hmost).1).mp hpos))
    exact Binary64.isFinite_of_le hnonneg hmost (Binary64.isFinite_ofNat (Nat.le_refl _))
  have hreaches := reachesLeast_bound ⟨hpos, hfinite⟩ hmost
  have hsettles : Settles (inside width padding) (inside height padding) cs size
    (fit width height padding size cs) := settles_fitFrom hreaches
  have hsettles' : Settles (inside width' padding') (inside height' padding') cs size
    (fit width' height' padding' size cs) := settles_fitFrom hreaches
  exact ⟨hsettles, hsettles', Settles.size_le_size
    (inside_le_inside hwidth hwidth' hpadding' hnarrower hinset hwider)
    (inside_le_inside hheight hheight' hpadding' hlower hinset hwider) hsettles hsettles' ⟨hpos, hfinite⟩⟩

/-- Two boxes in which one text gets different sizes. -/
theorem size_fit_le_of_boxes :
    (fit 120.5 60.0 8.0 24.0 "Hello wide world".toList).size = 18.0 ∧
      (fit 200.0 60.0 4.0 24.0 "Hello wide world".toList).size = 20.0 ∧
      (fit 120.5 60.0 8.0 24.0 "Hello wide world".toList).size ≤
        (fit 200.0 60.0 4.0 24.0 "Hello wide world".toList).size := by
  refine ⟨?_, ?_, (size_fit_le "Hello wide world".toList rfl rfl rfl rfl rfl ?_ ?_ ?_ ?_ ?_ ?_).2.2⟩
  all_goals decide +kernel

end Wireframe.Typeset
