import Wireframe.Proofs.ExactScalars
import Wireframe.Proofs.WrapPieces

/-! Greedy packing. A group takes pieces as long as they go on it, and the next group starts with one that
does not (`IsGreedy`). In exact arithmetic no other way to pack the pieces, in which no group but a piece
alone is beyond the limit, has fewer groups: each of its groups ends at the latest where the greedy one
does (`IsGreedy.length_le`). So a line is wrapped into the fewest lines that keep to the width
(`wrap_shortest`). -/

namespace Wireframe.Typeset

section Greedy

variable {α : Type} [OrderedScalar α] {limit size : α} {group : List (List Char)} {piece : List Char}

/-- The width of a group as it adds up piece by piece. -/
def groupWidth (size : α) : List (List Char) → α
  | [] => Scalar.zero
  | piece :: rest => rest.foldl (fun width p => width + textWidth size p) (textWidth size piece)

/-- With the piece the group is not beyond the limit. -/
def GoesOn (limit size : α) (group : List (List Char)) (piece : List Char) : Prop :=
  ¬OrderedScalar.lt limit (groupWidth size group + textWidth size piece) = true

/-- A group of a first piece, whatever its width, and of pieces that went on it. -/
inductive Holds (limit size : α) : List (List Char) → Prop
  | single (piece : List Char) : Holds limit size [piece]
  | add {group : List (List Char)} {piece : List Char} (h : Holds limit size group)
      (hgoes : GoesOn limit size group piece) : Holds limit size (group ++ [piece])

/-- Groups that take all that goes on them. -/
structure IsGreedy (limit size : α) (groups : List (List (List Char))) : Prop where
  holds : ∀ group ∈ groups, Holds limit size group
  full : groups.IsChain fun group next => ∀ piece ∈ next.head?, ¬GoesOn limit size group piece

theorem Holds.ne_nil (h : Holds limit size group) : group ≠ [] := by
  cases h with
  | single => exact List.cons_ne_nil _ _
  | add => exact List.append_ne_nil_of_right_ne_nil _ (List.cons_ne_nil _ _)

theorem Holds.goesOn {front : List (List Char)} (h : Holds limit size group) (heq : group = front ++ [piece])
    (hne : front ≠ []) : GoesOn limit size front piece := by
  cases h with
  | single p => exact absurd (List.append_eq_singleton_iff.mp heq.symm) (by simp [hne])
  | add _ hgoes =>
      obtain ⟨rfl, hlast⟩ := List.append_inj' heq rfl
      cases hlast
      exact hgoes

theorem groupWidth_append_singleton (size : α) (hne : group ≠ []) (piece : List Char) :
    groupWidth size (group ++ [piece]) = groupWidth size group + textWidth size piece := by
  obtain ⟨first, rest, rfl⟩ := List.exists_cons_of_ne_nil hne
  rw [List.cons_append, groupWidth, groupWidth, List.foldl_concat]

/-- What is packed onto a group and behind it. -/
theorem isGreedy_packAfter (h : Holds limit size group) (ps : List (List Char)) :
    IsGreedy limit size ((group ++ (packAfter limit size (groupWidth size group) ps).1) ::
      (packAfter limit size (groupWidth size group) ps).2) := by
  induction ps generalizing group with
  | nil =>
      rw [packAfter, List.append_nil]
      exact ⟨List.forall_mem_singleton.mpr h, .singleton _⟩
  | cons piece rest ih =>
      rw [packAfter]
      simp only
      split
      · next hbreak =>
        have hrest := ih (.single piece)
        rw [List.append_nil]
        refine ⟨List.forall_mem_cons.mpr ⟨h, hrest.holds⟩, List.isChain_cons.mpr ⟨?_, hrest.full⟩⟩
        intro next hnext p hp
        cases hnext
        cases hp
        exact fun hgoes => hgoes hbreak
      · next hgoes =>
        have hrest := ih (h.add hgoes)
        rw [groupWidth_append_singleton size h.ne_nil, List.append_assoc] at hrest
        exact hrest

theorem isGreedy_pack (hzero : ∀ piece rest, packAfter limit size (Scalar.zero + textWidth size piece) rest =
    packAfter limit size (textWidth size piece) rest) (ps : List (List Char)) :
    IsGreedy limit size (pack limit size ps) := by
  cases ps with
  | nil => exact ⟨nofun, .nil⟩
  | cons piece rest =>
      rw [pack, hzero]
      exact isGreedy_packAfter (.single piece) rest

end Greedy

section Exact

variable {limit size : ℚ} {group : List (List Char)} {groups others : List (List (List Char))}
  {cs : List Char}

theorem textWidth_eq (size : ℚ) (cs : List Char) : textWidth size cs = (cs.map (charWidth size)).sum :=
  Scalar.sum_eq _

theorem textWidth_append (size : ℚ) (cs cs' : List Char) :
    textWidth size (cs ++ cs') = textWidth size cs + textWidth size cs' := by
  rw [textWidth_eq, textWidth_eq, textWidth_eq, List.map_append, List.sum_append]

theorem zero_lt_widthRatio (c : Char) : (0 : ℚ) < widthRatio c := by
  rw [widthRatio]
  split
  · exact one_pos
  · split <;> exact OrderedScalar.zero_lt_ofDecimal (by decide) _

theorem zero_le_textWidth (hsize : 0 ≤ size) (cs : List Char) : 0 ≤ textWidth size cs := by
  rw [textWidth_eq]
  refine List.sum_nonneg fun x hx => ?_
  obtain ⟨c, -, rfl⟩ := List.mem_map.mp hx
  exact mul_nonneg hsize (zero_lt_widthRatio c).le

theorem textWidth_le_append (hsize : 0 ≤ size) (front cs back : List Char) :
    textWidth size cs ≤ textWidth size (front ++ cs ++ back) := by
  rw [textWidth_append, textWidth_append]
  have hfront := zero_le_textWidth hsize front
  have hback := zero_le_textWidth hsize back
  linarith

theorem groupWidth_eq (size : ℚ) (group : List (List Char)) :
    groupWidth size group = textWidth size group.flatten := by
  induction group using List.reverseRecOn with
  | nil => rfl
  | append_singleton group piece ih =>
      rw [List.flatten_append, List.flatten_singleton, textWidth_append]
      by_cases hgroup : group = []
      · subst hgroup
        exact (zero_add _).symm
      · rw [groupWidth_append_singleton size hgroup, ih]

theorem goesOn_iff {piece : List Char} :
    GoesOn limit size group piece ↔ textWidth size (group ++ [piece]).flatten ≤ limit := by
  rw [GoesOn, OrderedScalar.lt_eq_true_iff, not_lt, groupWidth_eq, List.flatten_append,
    List.flatten_singleton, textWidth_append]

/-- A group is within the limit or a piece alone. -/
def KeepsTo (limit size : ℚ) (group : List (List Char)) : Prop :=
  textWidth size group.flatten ≤ limit ∨ ∃ piece, group = [piece]

theorem Holds.keepsTo (h : Holds limit size group) : KeepsTo limit size group := by
  cases h with
  | single piece => exact Or.inr ⟨piece, rfl⟩
  | add _ hgoes => exact Or.inl (goesOn_iff.mp hgoes)

theorem IsGreedy.nil_not_mem (h : IsGreedy limit size groups) : [] ∉ groups :=
  fun hnil => (h.holds [] hnil).ne_nil rfl

theorem IsGreedy.tail (h : IsGreedy limit size (group :: groups)) : IsGreedy limit size groups :=
  ⟨(List.forall_mem_cons.mp h.holds).2, (List.isChain_cons.mp h.full).2⟩

theorem exists_head? {piece : List Char} {rest : List (List Char)} (hne : [] ∉ groups)
    (h : groups.flatten = piece :: rest) : ∃ group ∈ groups.head?, piece ∈ group.head? := by
  cases groups with
  | nil => cases h
  | cons group groups =>
      obtain ⟨first, tail, rfl⟩ := List.exists_cons_of_ne_nil fun hnil => hne (hnil ▸ List.mem_cons_self)
      refine ⟨first :: tail, rfl, ?_⟩
      rw [List.flatten_cons, List.cons_append, List.cons.injEq] at h
      exact congrArg some h.1

/-- What does not go on a group is not behind it in any group that keeps to the limit. -/
theorem not_keepsTo {piece : List Char} (hsize : 0 ≤ size) (hne : group ≠ [])
    (hbeyond : ¬GoesOn limit size group piece) (front back : List (List Char)) :
    ¬KeepsTo limit size (front ++ group ++ piece :: back) := by
  rintro (hwithin | ⟨single, hsingle⟩)
  · rw [goesOn_iff, not_le] at hbeyond
    have hpart := textWidth_le_append hsize front.flatten (group ++ [piece]).flatten back.flatten
    have hwhole : front.flatten ++ (group ++ [piece]).flatten ++ back.flatten =
        (front ++ group ++ piece :: back).flatten := by
      simp only [List.flatten_append, List.flatten_cons, List.flatten_nil, List.append_nil, List.append_assoc]
    rw [hwhole] at hpart
    exact absurd (hbeyond.trans_le (hpart.trans hwithin)) (lt_irrefl limit)
  · have hlength := congrArg List.length hsingle
    have hpos := List.length_pos_of_ne_nil hne
    simp only [List.length_append, List.length_cons, List.length_nil] at hlength
    omega

/-- Groups that keep to the limit are at least as many as the greedy ones of the same pieces, also where they
are of more pieces in front. -/
theorem IsGreedy.length_le (hsize : 0 ≤ size) (h : IsGreedy limit size groups)
    (hothers : ∀ other ∈ others, KeepsTo limit size other) (hsuffix : groups.flatten <:+ others.flatten) :
    groups.length ≤ others.length := by
  induction others generalizing groups with
  | nil =>
      rw [List.flatten_nil, List.suffix_nil, List.flatten_eq_nil_iff] at hsuffix
      cases groups with
      | nil => exact Nat.le_refl _
      | cons group rest =>
          exact absurd (hsuffix group List.mem_cons_self) (h.holds group List.mem_cons_self).ne_nil
  | cons other others ih =>
      cases groups with
      | nil => exact Nat.zero_le _
      | cons group rest =>
          obtain ⟨hother, hothers⟩ := List.forall_mem_cons.mp hothers
          have hholds := h.holds group List.mem_cons_self
          have hfull := (List.isChain_cons.mp h.full).1
          refine Nat.succ_le_succ (ih h.tail hothers ?_)
          obtain ⟨front, hfront⟩ := hsuffix
          rw [List.flatten_cons, List.flatten_cons, ← List.append_assoc] at hfront
          rcases List.append_eq_append_iff.mp hfront with ⟨beyond, heq, hbeyond⟩ | ⟨between, -, heq⟩
          · cases beyond with
            | nil => exact ⟨[], hbeyond⟩
            | cons piece beyond =>
                -- the other group would go on past the greedy one
                rw [heq] at hother
                obtain ⟨next, hnext, hpiece⟩ := exists_head? h.tail.nil_not_mem hbeyond
                exact absurd hother (not_keepsTo hsize hholds.ne_nil (hfull next hnext piece hpiece) _ _)
          · exact ⟨between, heq.symm⟩

/-- A line broken into the fewest lines that keep to the width. -/
structure IsShortest (limit size : ℚ) (cs : List Char) (groups : List (List (List Char)))
    (lines : List (List Char)) : Prop where
  flatten_eq : groups.flatten = pieces cs
  nonempty : [] ∉ groups
  keepsTo : ∀ group ∈ groups, KeepsTo limit size group
  least : ∀ others : List (List (List Char)), others.flatten = pieces cs →
    (∀ other ∈ others, KeepsTo limit size other) → groups.length ≤ others.length
  trimmed : List.Forall₂ Text.IsTrimmed (groups.map List.flatten) lines
  within : ∀ line ∈ lines, textWidth size line ≤ limit ∨
    ∃ piece, [piece] ∈ groups ∧ limit < textWidth size piece ∧ Text.IsTrimmed piece line

theorem textWidth_le_of_isTrimmed {trimmed : List Char} (hsize : 0 ≤ size) (h : Text.IsTrimmed cs trimmed) :
    textWidth size trimmed ≤ textWidth size cs := by
  obtain ⟨n, rfl⟩ := h.exists_spaces
  exact textWidth_le_append hsize [] trimmed _

theorem KeepsTo.within {trimmed : List Char} (hsize : 0 ≤ size) (h : KeepsTo limit size group)
    (htrimmed : Text.IsTrimmed group.flatten trimmed) : textWidth size trimmed ≤ limit ∨
      ∃ piece, group = [piece] ∧ limit < textWidth size piece ∧ Text.IsTrimmed piece trimmed := by
  have hle := textWidth_le_of_isTrimmed hsize htrimmed
  obtain hwithin | ⟨piece, rfl⟩ := h
  · exact Or.inl (hle.trans hwithin)
  · rw [List.flatten_singleton] at hle htrimmed
    rcases le_or_gt (textWidth size piece) limit with hwithin | hbeyond
    · exact Or.inl (hle.trans hwithin)
    · exact Or.inr ⟨piece, rfl, hbeyond, htrimmed⟩

theorem isGreedy_pack_exact (limit size : ℚ) (ps : List (List Char)) :
    IsGreedy limit size (pack limit size ps) :=
  isGreedy_pack (fun _ _ => by rw [Scalar.zero_add_eq]) ps

theorem isShortest_wrapLine (hsize : 0 ≤ size) (hcs : cs ≠ []) :
    IsShortest limit size cs (pack limit size (pieces cs)) (wrapLine limit size cs) where
  flatten_eq := flatten_pack limit size (pieces cs)
  nonempty := nil_not_mem_pack limit size (pieces cs)
  keepsTo group hgroup := ((isGreedy_pack_exact limit size _).holds group hgroup).keepsTo
  least others hflatten hothers := by
    refine (isGreedy_pack_exact limit size _).length_le hsize hothers ?_
    rw [flatten_pack, hflatten]
  trimmed := by
    rw [wrapLine_of_ne_nil limit size hcs]
    exact trimmed_map_line _
  within l hl := by
    rw [wrapLine_of_ne_nil limit size hcs] at hl
    obtain ⟨group, hgroup, rfl⟩ := List.mem_map.mp hl
    have hkeeps := ((isGreedy_pack_exact limit size _).holds group hgroup).keepsTo
    refine (hkeeps.within hsize (Text.isTrimmed_dropTail group.flatten)).imp_right ?_
    rintro ⟨piece, rfl, hbeyond, htrimmed⟩
    exact ⟨piece, hgroup, hbeyond, htrimmed⟩

/-- In exact arithmetic each line of a text is wrapped into the fewest lines that keep to the width. -/
theorem wrap_shortest (hsize : 0 ≤ size) (limit : ℚ) (cs : List Char) :
    ∃ hards parts, Text.AreLines hards cs ∧ wrap limit size cs = parts.flatten ∧
      List.Forall₂ (fun hard lines => hard ≠ [] → ∃ groups, IsShortest limit size hard groups lines)
        hards parts :=
  exists_parts (fun _ hne => ⟨_, isShortest_wrapLine hsize hne⟩) cs

/-- A long word between two short ones stands alone, beyond the limit. -/
theorem wrap_shortest_of_long_word :
    (0 : ℚ) ≤ 24 ∧ wrap (40 : ℚ) 24 "a Superlongword b".toList =
        ["a".toList, "Superlongword".toList, "b".toList] ∧
      ∃ hards parts, Text.AreLines hards "a Superlongword b".toList ∧
        wrap (40 : ℚ) 24 "a Superlongword b".toList = parts.flatten ∧
        List.Forall₂ (fun hard lines => hard ≠ [] → ∃ groups, IsShortest 40 24 hard groups lines)
          hards parts := by
  have hsize : (0 : ℚ) ≤ 24 := by norm_num
  refine ⟨hsize, ?_, wrap_shortest hsize 40 "a Superlongword b".toList⟩
  decide +kernel

end Exact
end Wireframe.Typeset
