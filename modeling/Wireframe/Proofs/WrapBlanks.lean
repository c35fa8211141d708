import Wireframe.Proofs.FitMonotone
import Wireframe.Proofs.WrapPacking

/-! Blank lines. A line of a text gets a blank one where a group consists of spaces alone: of spaces that do
not go on the group before them, and on which the piece behind them does not go (`wrap_blanks`). This takes
a space that is a piece by itself, at the start of the line, behind another space or behind a wide character.
A line of spaces alone is wrapped into one blank line exactly if it is one space or within the limit. -/

namespace Wireframe.Typeset

open Binary64 (level IsNumber le_iff lt_iff isNumber_of_le)

section Pieces

variable {cs p : List Char} {group : List (List Char)}

/-- A space at the start of a line, behind another space or behind a wide character. -/
def HasLooseSpace (cs : List Char) : Prop :=
  ∃ before after, cs = before ++ ' ' :: after ∧ ∀ c ∈ before.getLast?, c = ' ' ∨ isWide c = true

theorem isWide_space : isWide ' ' = false := by decide

theorem IsPiece.eq_space (h : IsPiece p) (hspaces : ∀ c ∈ p, c = ' ') : p = [' '] := by
  cases h with
  | @wide c hwide =>
      rw [hspaces c List.mem_cons_self, isWide_space] at hwide
      cases hwide
  | word hne hrun =>
      obtain ⟨c, rest, rfl⟩ := List.exists_cons_of_ne_nil hne
      exact absurd (hspaces c List.mem_cons_self) (hrun c List.mem_cons_self).2
  | @spaced run hrun =>
      cases run with
      | nil => rfl
      | cons c rest => exact absurd (hspaces c List.mem_cons_self) (hrun c List.mem_cons_self).2

theorem hasLooseSpace_of_mem (h : [' '] ∈ pieces cs) : HasLooseSpace cs := by
  obtain ⟨front, back, hpieces⟩ := List.append_of_mem h
  have hcs := arePieces_pieces cs
  rw [hpieces] at hcs
  refine ⟨front.flatten, back.flatten, ?_, fun c hc => ?_⟩
  · rw [← hcs.flatten_eq, List.flatten_append, List.flatten_cons, List.singleton_append]
  · obtain rfl | ⟨front, last, rfl⟩ := List.eq_nil_or_concat' front
    · cases hc
    · have hmeet := (List.isChain_append.mp hcs.breaks).2.2 last (by rw [List.getLast?_concat]; rfl) [' '] rfl
      obtain ⟨c', d, hlast, hspace, hmay⟩ := hmeet
      rw [List.flatten_append, List.flatten_singleton, List.getLast?_append, hlast, Option.some_or] at hc
      cases hc
      cases hspace
      rw [isWide_space] at hmay
      exact hmay.imp_right fun h => h.resolve_right Bool.false_ne_true

theorem pieces_spaces (n : Nat) : pieces (List.replicate n ' ') = List.replicate n [' '] := by
  induction n with
  | zero => rfl
  | succ n ih =>
      rw [List.replicate_succ, pieces, if_pos (by decide), ih]
      rfl

theorem line_eq_nil_iff (hpieces : ∀ piece ∈ group, IsPiece piece) :
    line group = [] ↔ ∀ piece ∈ group, piece = [' '] := by
  rw [line, Text.dropTail, List.reverse_eq_nil_iff, List.dropWhile_eq_nil_iff]
  constructor
  · intro hspaces piece hpiece
    refine (hpieces piece hpiece).eq_space fun c hc => ?_
    exact of_decide_eq_true (hspaces c (List.mem_reverse.mpr (List.mem_flatten_of_mem hpiece hc)))
  · intro hspaces c hc
    obtain ⟨piece, hpiece, hc⟩ := List.mem_flatten.mp (List.mem_reverse.mp hc)
    rw [hspaces piece hpiece, List.mem_singleton] at hc
    exact decide_eq_true hc

end Pieces

section Widths

variable {limit size width width' x : Float} {k n : Nat}

theorem level_zero_add (hx : 0.0 ≤ x) : 0.0 ≤ Scalar.zero + x ∧ level (Scalar.zero + x) = level x := by
  have hzero : 0.0 ≤ (Scalar.zero : Float) := Binary64.zero_le_ofNat 0
  have hlevel : level (Scalar.zero : Float) = 0 := Binary64.level_zero
  refine ⟨Binary64.add_nonneg hzero hx, ?_⟩
  rw [(Binary64.level_add_of_nonneg hzero hx).2, hlevel, Int.zero_add, Binary64.clamp_roundedInt_level]

/-- Packing goes by the value of the width in front alone. -/
theorem packAfter_congr (hlimit : IsNumber limit) (hsize : 0.0 ≤ size) (hwidth : 0.0 ≤ width)
    (hwidth' : 0.0 ≤ width') (h : level width = level width') (ps : List (List Char)) :
    packAfter limit size width ps = packAfter limit size width' ps := by
  induction ps generalizing width width' with
  | nil => rfl
  | cons piece rest ih =>
      have hpiece := textWidth_nonneg hsize piece
      obtain ⟨hnumber, hlevel⟩ := Binary64.level_add_of_nonneg hwidth hpiece
      obtain ⟨hnumber', hlevel'⟩ := Binary64.level_add_of_nonneg hwidth' hpiece
      have hsame : level (width + textWidth size piece) = level (width' + textWidth size piece) := by
        rw [hlevel, hlevel', h]
      have hbreak : OrderedScalar.lt limit (width + textWidth size piece) =
          OrderedScalar.lt limit (width' + textWidth size piece) := by
        show decide (_ < _) = decide (_ < _)
        rw [decide_eq_decide, lt_iff hlimit hnumber, lt_iff hlimit hnumber', hsame]
      rw [packAfter, packAfter]
      simp only
      rw [hbreak, ih (Binary64.add_nonneg hwidth hpiece) (Binary64.add_nonneg hwidth' hpiece) hsame]

theorem isGreedy_pack_float (hlimit : IsNumber limit) (hsize : 0.0 ≤ size) (ps : List (List Char)) :
    IsGreedy limit size (pack limit size ps) := by
  refine isGreedy_pack (fun piece rest => ?_) ps
  have hpiece := textWidth_nonneg hsize piece
  obtain ⟨hstart, hlevel⟩ := level_zero_add hpiece
  exact packAfter_congr hlimit hsize hstart hpiece hlevel rest

theorem groupWidth_nonneg (hsize : 0.0 ≤ size) (group : List (List Char)) : 0.0 ≤ groupWidth size group := by
  induction group using List.reverseRecOn with
  | nil => exact Binary64.zero_le_ofNat 0
  | append_singleton group piece ih =>
      have hpiece := textWidth_nonneg hsize piece
      by_cases hgroup : group = []
      · subst hgroup
        exact hpiece
      · rw [groupWidth_append_singleton size hgroup]
        exact Binary64.add_nonneg ih hpiece

theorem charWidth_nonneg (hsize : 0.0 ≤ size) (c : Char) : 0.0 ≤ charWidth size c :=
  Binary64.mul_nonneg hsize (widthRatio_pos c).1 (widthRatio_pos c).2

theorem textWidth_append_singleton (size : Float) (cs : List Char) (c : Char) :
    textWidth size (cs ++ [c]) = textWidth size cs + charWidth size c := by
  rw [textWidth, Scalar.sum, List.map_append, List.map_singleton, List.foldl_concat]
  rfl

theorem textWidth_spaces (size : Float) (n : Nat) : textWidth size (List.replicate (n + 1) ' ') =
    textWidth size (List.replicate n ' ') + charWidth size ' ' := by
  rw [List.replicate_succ', textWidth_append_singleton]

theorem groupWidth_spaces (size : Float) (n : Nat) : groupWidth size (List.replicate (n + 2) [' ']) =
    groupWidth size (List.replicate (n + 1) [' ']) + textWidth size [' '] := by
  have hne : List.replicate (n + 1) [' '] ≠ [] := List.cons_ne_nil _ _
  rw [List.replicate_succ', groupWidth_append_singleton size hne]

/-- Spaces add up alike as characters and as pieces. -/
theorem level_groupWidth_spaces (hsize : 0.0 ≤ size) (n : Nat) :
    level (groupWidth size (List.replicate n [' '])) = level (textWidth size (List.replicate n ' ')) := by
  induction n with
  | zero => rfl
  | succ n ih =>
      cases n with
      | zero => rfl
      | succ n =>
          have hspace := charWidth_nonneg hsize ' '
          have hpiece : level (textWidth size [' ']) = level (charWidth size ' ') := (level_zero_add hspace).2
          have hgroup := Binary64.level_add_of_nonneg (groupWidth_nonneg hsize (List.replicate (n + 1) [' ']))
            (textWidth_nonneg hsize [' '])
          have htext := Binary64.level_add_of_nonneg (textWidth_nonneg hsize (List.replicate (n + 1) ' ')) hspace
          rw [groupWidth_spaces, hgroup.2, textWidth_spaces, htext.2, ih, hpiece]

theorem textWidth_spaces_le (hsize : 0.0 ≤ size) (h : k ≤ n) :
    textWidth size (List.replicate k ' ') ≤ textWidth size (List.replicate n ' ') := by
  induction n, h using Nat.le_induction with
  | base => exact Binary64.le_self (isNumber_of_le (textWidth_nonneg hsize _)).2
  | succ n _ ih =>
      rw [textWidth_spaces]
      exact Binary64.le_trans ih
        (Binary64.le_add_right (textWidth_nonneg hsize _) (charWidth_nonneg hsize ' '))

end Widths

section Blanks

variable {limit size : Float} {groups : List (List (List Char))} {n : Nat}

/-- Spaces go on a group of spaces as far as their width allows. -/
theorem goesOn_spaces_iff (hlimit : IsNumber limit) (hsize : 0.0 ≤ size) (n : Nat) :
    GoesOn limit size (List.replicate (n + 1) [' ']) [' '] ↔
      textWidth size (List.replicate (n + 2) ' ') ≤ limit := by
  have hgroup := (isNumber_of_le (groupWidth_nonneg hsize (List.replicate (n + 2) [' ']))).2
  have htext := (isNumber_of_le (textWidth_nonneg hsize (List.replicate (n + 2) ' '))).2
  have hlevel := level_groupWidth_spaces hsize (n + 2)
  rw [GoesOn, ← groupWidth_spaces]
  show ¬decide (limit < groupWidth size (List.replicate (n + 2) [' '])) = true ↔ _
  rw [decide_eq_true_iff, lt_iff hlimit hgroup, le_iff htext hlimit]
  omega

theorem exists_spaces {group : List (List Char)} (hspaces : groups.flatten = List.replicate n [' '])
    (hgroup : group ∈ groups) (hne : group ≠ []) : ∃ k, group = List.replicate (k + 1) [' '] := by
  obtain ⟨k, hk⟩ := Nat.exists_eq_succ_of_ne_zero (Nat.pos_iff_ne_zero.mp (List.length_pos_of_ne_nil hne))
  refine ⟨k, List.eq_replicate_iff.mpr ⟨hk, fun piece hpiece => ?_⟩⟩
  exact List.eq_of_mem_replicate (hspaces ▸ List.mem_flatten_of_mem hgroup hpiece)

theorem length_le_one_iff (hlimit : IsNumber limit) (hsize : 0.0 ≤ size) (h : IsGreedy limit size groups)
    (hspaces : groups.flatten = List.replicate n [' ']) :
    groups.length ≤ 1 ↔ n ≤ 1 ∨ textWidth size (List.replicate n ' ') ≤ limit := by
  constructor
  · intro hlength
    match n, groups with
    | 0, _ | 1, _ => exact Or.inl (by omega)
    | n + 2, [] => cases hspaces
    | n + 2, [group] =>
        rw [List.flatten_singleton, List.replicate_succ'] at hspaces
        have hgoes := (h.holds group List.mem_cons_self).goesOn hspaces (List.cons_ne_nil _ _)
        exact Or.inr ((goesOn_spaces_iff hlimit hsize n).mp hgoes)
    | _, _ :: _ :: _ =>
        simp only [List.length_cons] at hlength
        omega
  · intro hfits
    match groups with
    | [] | [_] => exact Nat.le_of_ble_eq_true rfl
    | group :: next :: rest =>
        have hgroup : group ∈ group :: next :: rest := List.mem_cons_self
        have hnext : next ∈ group :: next :: rest := List.mem_cons_of_mem _ List.mem_cons_self
        obtain ⟨k, rfl⟩ := exists_spaces hspaces hgroup (h.holds _ hgroup).ne_nil
        obtain ⟨m, rfl⟩ := exists_spaces hspaces hnext (h.holds _ hnext).ne_nil
        -- the space that starts the second group does not go on the first
        have hbeyond := (List.isChain_cons.mp h.full).1 _ rfl [' '] rfl
        rw [goesOn_spaces_iff hlimit hsize k] at hbeyond
        have hlength := congrArg List.length hspaces
        simp only [List.flatten_cons, List.length_append, List.length_replicate] at hlength
        rcases hfits with hfew | hfits
        · omega
        · exact absurd (Binary64.le_trans (textWidth_spaces_le hsize (by omega)) hfits) hbeyond

/-- The groups and the lines that a line is wrapped into, with what makes one of the lines blank. -/
structure Blanks (limit size : Float) (cs : List Char) (groups : List (List (List Char)))
    (lines : List (List Char)) : Prop where
  flatten_eq : groups.flatten = pieces cs
  greedy : IsGreedy limit size groups
  blank_iff : [] ∈ lines ↔ cs = [] ∨ ∃ group ∈ groups, ∀ piece ∈ group, piece = [' ']
  loose : [] ∈ lines → cs = [] ∨ HasLooseSpace cs
  one_iff : (∀ c ∈ cs, c = ' ') → (lines.length = 1 ↔ cs.length ≤ 1 ∨ textWidth size cs ≤ limit)

theorem nil_mem_wrapLine_iff {cs : List Char} : [] ∈ wrapLine limit size cs ↔
    cs = [] ∨ ∃ group ∈ pack limit size (pieces cs), ∀ piece ∈ group, piece = [' '] := by
  by_cases hcs : cs = []
  · subst hcs
    exact ⟨fun _ => Or.inl rfl, fun _ => List.mem_singleton_self _⟩
  · have hline : ∀ group ∈ pack limit size (pieces cs),
        (line group = [] ↔ ∀ piece ∈ group, piece = [' ']) := fun group hgroup =>
      line_eq_nil_iff fun piece hpiece => (arePieces_pieces cs).isPiece piece
        (flatten_pack limit size (pieces cs) ▸ List.mem_flatten_of_mem hgroup hpiece)
    rw [wrapLine_of_ne_nil limit size hcs, List.mem_map, or_iff_right hcs]
    exact exists_congr fun group => and_congr_right (hline group)

theorem blanks_wrapLine (hlimit : 0.0 ≤ limit) (hsize : 0.0 ≤ size) (cs : List Char) :
    Blanks limit size cs (pack limit size (pieces cs)) (wrapLine limit size cs) where
  flatten_eq := flatten_pack limit size (pieces cs)
  greedy := isGreedy_pack_float (isNumber_of_le hlimit).2 hsize _
  blank_iff := nil_mem_wrapLine_iff
  loose hblank := by
    refine (nil_mem_wrapLine_iff.mp hblank).imp_right ?_
    rintro ⟨group, hgroup, hspaces⟩
    obtain ⟨piece, hpiece⟩ := List.exists_mem_of_ne_nil group
      fun hnil => nil_not_mem_pack limit size (pieces cs) (hnil ▸ hgroup)
    refine hasLooseSpace_of_mem ?_
    rw [← flatten_pack limit size (pieces cs), ← hspaces piece hpiece]
    exact List.mem_flatten_of_mem hgroup hpiece
  one_iff hspaces := by
    obtain ⟨n, rfl⟩ : ∃ n, cs = List.replicate n ' ' := ⟨_, List.eq_replicate_iff.mpr ⟨rfl, hspaces⟩⟩
    have hnumber := (isNumber_of_le hlimit).2
    have hgroups := length_le_one_iff hnumber hsize (isGreedy_pack_float hnumber hsize _)
      ((flatten_pack limit size _).trans (pieces_spaces n))
    rw [List.length_replicate, ← hgroups, length_wrapLine]
    omega

/-- The lines of a text are those of its lines one after another, and one of these gets a blank line exactly
if it is empty or a group of its pieces consists of spaces alone. -/
theorem wrap_blanks (hlimit : 0.0 ≤ limit) (hsize : 0.0 ≤ size) (cs : List Char) :
    ∃ hards parts, Text.AreLines hards cs ∧ wrap limit size cs = parts.flatten ∧
      List.Forall₂ (fun hard lines => ∃ groups, Blanks limit size hard groups lines) hards parts :=
  exists_parts (fun hard => ⟨_, blanks_wrapLine hlimit hsize hard⟩) cs

/-- A space in front of a long word. -/
theorem wrap_blanks_of_long_word : (0.0 : Float) ≤ 40.0 ∧ (0.0 : Float) ≤ 24.0 ∧
    wrap (40.0 : Float) 24.0 " Superlongword\n".toList = [[], "Superlongword".toList, []] ∧
      ∃ hards parts, Text.AreLines hards " Superlongword\n".toList ∧
        wrap (40.0 : Float) 24.0 " Superlongword\n".toList = parts.flatten ∧
        List.Forall₂ (fun hard lines => ∃ groups, Blanks 40.0 24.0 hard groups lines) hards parts := by
  have hlimit : (0.0 : Float) ≤ 40.0 := by decide +kernel
  have hsize : (0.0 : Float) ≤ 24.0 := by decide +kernel
  refine ⟨hlimit, hsize, ?_, wrap_blanks hlimit hsize _⟩
  decide +kernel

/-- A second space behind a word takes a line of its own although it is not shown, and so does the second of
two spaces. -/
theorem wrap_trailing_spaces :
    wrap (40.0 : Float) 24.0 "ab  ".toList = ["ab".toList, []] ∧
      wrap (10.0 : Float) 24.0 "  ".toList = [[], []] := by
  decide +kernel

end Blanks
end Wireframe.Typeset
