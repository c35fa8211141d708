import Wireframe.Proofs.TextSplit
import Wireframe.Typeset.Fit

/-! What wrapping does to the characters of a text. Cutting a line into pieces and packing them into
groups keeps every character in its place (`flatten_pieces`, `flatten_pack`); only the spaces at the end of
a line and the line ends of the text are left out, so the lines hold what else there is, in order
(`filter_flatten_wrap`). -/

namespace Wireframe

namespace Text

variable {p q : Char → Bool} {cs : List Char}

theorem filter_dropWhile (h : ∀ c, q c = true → p c = false) (cs : List Char) :
    (cs.dropWhile q).filter p = cs.filter p := by
  induction cs with
  | nil => rfl
  | cons c cs ih =>
      by_cases hc : q c = true
      · rw [List.dropWhile_cons_of_pos hc, ih, List.filter_cons_of_neg (by simp [h c hc])]
      · rw [List.dropWhile_cons_of_neg hc]

/-- A tail that is dropped holds nothing of what the filter keeps. -/
theorem filter_dropTail (h : ∀ c, q c = true → p c = false) (cs : List Char) :
    (dropTail q cs).filter p = cs.filter p := by
  rw [dropTail, List.filter_reverse, filter_dropWhile h, List.filter_reverse, List.reverse_reverse]

end Text

namespace Typeset

variable {α : Type} [OrderedScalar α]

theorem flatten_pieces (cs : List Char) : (pieces cs).flatten = cs := by
  fun_induction pieces cs with
  | case1 => rfl
  | case2 c cs _ ih => rw [List.flatten_cons, ih, List.singleton_append]
  | case3 c cs _ d piece rest hpieces _ ih =>
      rw [List.flatten_cons, ← hpieces, ih, List.singleton_append]
  | case4 c cs _ d piece rest hpieces _ ih =>
      rw [hpieces] at ih
      rw [← ih]
      rfl
  | case5 c cs _ _ ih => rw [List.flatten_cons, ih, List.singleton_append]

theorem flatten_packAfter (limit size width : α) (ps : List (List Char)) :
    (packAfter limit size width ps).1 ++ (packAfter limit size width ps).2.flatten = ps := by
  induction ps generalizing width with
  | nil => rfl
  | cons piece rest ih =>
      rw [packAfter]
      simp only
      split
      · rw [List.nil_append, List.flatten_cons, List.cons_append, ih]
      · rw [List.cons_append, ih]

theorem flatten_pack (limit size : α) (ps : List (List Char)) : (pack limit size ps).flatten = ps := by
  cases ps with
  | nil => rfl
  | cons piece rest =>
      rw [pack]
      simp only
      rw [List.flatten_cons, List.cons_append, flatten_packAfter]

theorem filter_line (group : List (List Char)) :
    (line group).filter (· ≠ ' ') = group.flatten.filter (· ≠ ' ') :=
  Text.filter_dropTail (fun c hc => by simpa using hc) _

theorem filter_flatten_map_line (groups : List (List (List Char))) :
    (groups.map line).flatten.filter (· ≠ ' ') = groups.flatten.flatten.filter (· ≠ ' ') := by
  induction groups with
  | nil => rfl
  | cons group rest ih =>
      rw [List.map_cons, List.flatten_cons, List.filter_append, filter_line, ih, List.flatten_cons,
        List.flatten_append, List.filter_append]

theorem filter_flatten_wrapLine (limit size : α) (cs : List Char) :
    (wrapLine limit size cs).flatten.filter (· ≠ ' ') = cs.filter (· ≠ ' ') := by
  have hcontent : (pack limit size (pieces cs)).flatten.flatten = cs := by
    rw [flatten_pack, flatten_pieces]
  rw [wrapLine]
  split
  · next hnone =>
    rw [hnone] at hcontent
    rw [← hcontent]
    rfl
  · rw [filter_flatten_map_line, hcontent]

/-- The lines of a text, one after another, are the text without spaces and line ends, up to the spaces
within the lines. -/
theorem filter_flatten_wrap (limit size : α) (cs : List Char) :
    (wrap limit size cs).flatten.filter (· ≠ ' ') =
      (cs.filter (· ≠ '\n')).filter (· ≠ ' ') := by
  have hparts (parts : List (List Char)) :
      (parts.flatMap (wrapLine limit size)).flatten.filter (· ≠ ' ') =
        parts.flatten.filter (· ≠ ' ') := by
    induction parts with
    | nil => rfl
    | cons part rest ih =>
        rw [List.flatMap_cons, List.flatten_append, List.filter_append, filter_flatten_wrapLine, ih,
          List.flatten_cons, List.filter_append]
  rw [wrap, hparts, Text.flatten_splitAt]

theorem lines_fitFrom (width height : α) (cs : List Char) (steps : Nat) (size : α) :
    (fitFrom width height cs steps size).lines =
      wrap width (fitFrom width height cs steps size).size cs := by
  induction steps generalizing size with
  | zero => rfl
  | succ steps ih =>
      rw [fitFrom]
      split
      · rfl
      · exact ih (smaller size)

end Typeset
end Wireframe
