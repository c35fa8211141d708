import Wireframe.Proofs.WrapPacking

/-! Wrapping a second time. Lines that are joined to a text again are the lines of that text
(`Text.splitAt_intercalate`). Each of them is within the limit as a whole, or it is what is left of one piece
without its space, and that is a piece again (`IsPiece.of_isTrimmed`); either way it is wrapped into itself. So
in exact arithmetic the lines of a text are wrapped into the same lines (`wrap_wrap`). -/

namespace Wireframe

namespace Text

theorem IsTrimmed.dropTail_eq {cs trimmed : List Char} (h : IsTrimmed cs trimmed) :
    dropTail (· = ' ') trimmed = trimmed := by
  obtain rfl | ⟨front, last, rfl⟩ := List.eq_nil_or_concat' trimmed
  · rfl
  · have hlast := h.getLast?_ne
    rw [List.getLast?_concat, ne_eq, Option.some.injEq] at hlast
    rw [dropTail, List.reverse_concat, List.dropWhile_cons_of_neg (by simpa using hlast), List.reverse_cons,
      List.reverse_reverse]

end Text

namespace Typeset

open Text (IsTrimmed)

section Pieces

variable {c d : Char} {p run piece cs : List Char}

theorem pieces_cons (hc : InWord c) (hd : isWide d = false) (h : pieces (d :: piece) = [d :: piece]) :
    pieces (c :: d :: piece) = [c :: d :: piece] := by
  rw [pieces, if_neg (inWord_iff.mp hc), h]
  simp only [hd, Bool.false_eq_true, if_false]

theorem pieces_singleton (c : Char) : pieces [c] = [[c]] := by
  rw [pieces]
  split <;> rfl

theorem pieces_word (hne : run ≠ []) (h : ∀ c ∈ run, InWord c) : pieces run = [run] := by
  induction run with
  | nil => exact absurd rfl hne
  | cons c run ih =>
      obtain ⟨hc, hrest⟩ := List.forall_mem_cons.mp h
      cases run with
      | nil => exact pieces_singleton c
      | cons d run => exact pieces_cons hc (hrest d List.mem_cons_self).1 (ih (List.cons_ne_nil _ _) hrest)

theorem pieces_spaced (h : ∀ c ∈ run, InWord c) : pieces (run ++ [' ']) = [run ++ [' ']] := by
  induction run with
  | nil => exact pieces_singleton ' '
  | cons c run ih =>
      obtain ⟨hc, hrest⟩ := List.forall_mem_cons.mp h
      cases run with
      | nil => exact pieces_cons hc (by decide) (pieces_singleton ' ')
      | cons d run => exact pieces_cons hc (hrest d List.mem_cons_self).1 (ih hrest)

/-- A piece is cut no further. -/
theorem IsPiece.pieces_eq (h : IsPiece p) : pieces p = [p] := by
  cases h with
  | wide => exact pieces_singleton _
  | word hne hrun => exact pieces_word hne hrun
  | spaced hrun => exact pieces_spaced hrun

/-- Only a word loses anything when the spaces at the end of a piece go. -/
theorem IsPiece.of_isTrimmed (h : IsPiece p) (htrimmed : IsTrimmed p cs) (hne : cs ≠ []) : IsPiece cs := by
  obtain ⟨n, hn⟩ := htrimmed.exists_spaces
  cases n with
  | zero =>
      rw [List.replicate_zero, List.append_nil] at hn
      rwa [← hn]
  | succ n =>
      rw [List.replicate_succ', ← List.append_assoc] at hn
      cases h with
      | wide =>
          have hnil := (List.append_eq_singleton_iff.mp hn.symm)
          simp [hne] at hnil
      | word _ hrun =>
          have hspace := hrun ' ' (hn ▸ List.mem_append_right _ (List.mem_singleton_self ' '))
          exact absurd rfl hspace.2
      | spaced hrun =>
          have hrun' := List.append_cancel_right hn
          rw [hrun'] at hrun
          exact .word hne fun c hc => hrun c (List.mem_append_left _ hc)

end Pieces

section Exact

variable {limit size : ℚ} {cs l : List Char} {group : List (List Char)}

theorem pack_eq_singleton (hsize : 0 ≤ size) (hne : group ≠ []) (h : KeepsTo limit size group) :
    pack limit size group = [group] := by
  have hflatten := flatten_pack limit size group
  have hlength : (pack limit size group).length ≤ [group].length := by
    refine (isGreedy_pack_exact limit size group).length_le hsize ?_ ?_
    · exact List.forall_mem_singleton.mpr h
    · rw [hflatten, List.flatten_singleton]
  cases hpack : pack limit size group with
  | nil =>
      rw [hpack] at hflatten
      exact absurd hflatten.symm hne
  | cons first rest =>
      rw [hpack, List.length_cons, List.length_singleton] at hlength
      obtain rfl := List.eq_nil_of_length_eq_zero (show rest.length = 0 by omega)
      rw [hpack, List.flatten_singleton] at hflatten
      rw [hflatten]

/-- A line that goes on one group, without spaces at its end. -/
theorem wrapLine_eq_singleton (hsize : 0 ≤ size) (htrimmed : IsTrimmed cs l) (hne : l ≠ [])
    (h : KeepsTo limit size (pieces l)) : wrapLine limit size l = [l] := by
  have hpieces : pieces l ≠ [] := by
    intro hnil
    have hflatten := flatten_pieces l
    rw [hnil] at hflatten
    exact hne hflatten.symm
  rw [wrapLine_of_ne_nil limit size hne, pack_eq_singleton hsize hpieces h, List.map_singleton, line,
    flatten_pieces, htrimmed.dropTail_eq]

/-- What a group leaves as a line keeps to the limit as the group does. -/
theorem keepsTo_pieces (hsize : 0 ≤ size) (hpieces : ∀ piece ∈ group, IsPiece piece)
    (h : KeepsTo limit size group) (htrimmed : IsTrimmed group.flatten l) (hne : l ≠ []) :
    KeepsTo limit size (pieces l) := by
  obtain hwithin | ⟨piece, rfl, -, hpiece⟩ := h.within hsize htrimmed
  · left
    rw [flatten_pieces]
    exact hwithin
  · right
    exact ⟨l, ((hpieces piece List.mem_cons_self).of_isTrimmed hpiece hne).pieces_eq⟩

theorem wrapLine_of_mem_wrapLine (hsize : 0 ≤ size) (h : l ∈ wrapLine limit size cs) :
    wrapLine limit size l = [l] := by
  by_cases hl : l = []
  · rw [hl]
    rfl
  · by_cases hcs : cs = []
    · rw [hcs] at h
      exact absurd (List.mem_singleton.mp h) hl
    · rw [wrapLine_of_ne_nil limit size hcs] at h
      obtain ⟨group, hgroup, rfl⟩ := List.mem_map.mp h
      have htrimmed := Text.isTrimmed_dropTail group.flatten
      have hkeeps := ((isGreedy_pack_exact limit size _).holds group hgroup).keepsTo
      have hpieces : ∀ piece ∈ group, IsPiece piece := fun piece hpiece =>
        (arePieces_pieces cs).isPiece piece
          (flatten_pack limit size (pieces cs) ▸ List.mem_flatten_of_mem hgroup hpiece)
      exact wrapLine_eq_singleton hsize htrimmed hl (keepsTo_pieces hsize hpieces hkeeps htrimmed hl)

theorem newline_not_mem_of_mem_wrap (h : l ∈ wrap limit size cs) : '\n' ∉ l := by
  intro hnewline
  have hkept : '\n' ∈ (wrap limit size cs).flatten.filter (· ≠ ' ') :=
    List.mem_filter.mpr ⟨List.mem_flatten_of_mem h hnewline, by decide⟩
  rw [filter_flatten_wrap] at hkept
  have hline := (List.mem_filter.mp (List.mem_filter.mp hkept).1).2
  simp at hline

/-- In exact arithmetic the lines of a text, joined to a text again, are wrapped into the same lines. -/
theorem wrap_wrap (hsize : 0 ≤ size) (limit : ℚ) (cs : List Char) :
    wrap limit size (['\n'].intercalate (wrap limit size cs)) = wrap limit size cs := by
  have hlines := Text.splitAt_intercalate (wrap_ne_nil limit size cs) fun l => newline_not_mem_of_mem_wrap
  have hstay : ∀ l ∈ wrap limit size cs, wrapLine limit size l = [l] := by
    intro l hl
    obtain ⟨hard, -, hmem⟩ := List.mem_flatMap.mp hl
    exact wrapLine_of_mem_wrapLine hsize hmem
  calc
    wrap limit size (['\n'].intercalate (wrap limit size cs)) =
        (wrap limit size cs).flatMap (wrapLine limit size) := by rw [wrap, hlines]
    _ = (wrap limit size cs).flatMap ([·]) := List.flatMap_congr hstay
    _ = wrap limit size cs := List.flatMap_singleton' _

/-- A word beyond the limit, a blank line and a line that has lost two spaces. -/
theorem wrap_wrap_of_long_word : (0 : ℚ) ≤ 24 ∧
    wrap (40 : ℚ) 24 "a Superlongword ab  \n漢字".toList =
      ["a".toList, "Superlongword".toList, "ab".toList, [], "漢".toList, "字".toList] ∧
    wrap (40 : ℚ) 24 (['\n'].intercalate (wrap (40 : ℚ) 24 "a Superlongword ab  \n漢字".toList)) =
      wrap (40 : ℚ) 24 "a Superlongword ab  \n漢字".toList := by
  have hsize : (0 : ℚ) ≤ 24 := by norm_num
  refine ⟨hsize, ?_, wrap_wrap hsize 40 _⟩
  decide +kernel

end Exact

end Typeset
end Wireframe
