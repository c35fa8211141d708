import Wireframe.Proofs.FitLoop
import Wireframe.Proofs.WrapContent

/-! Where lines are broken. The pieces of a line are its wide characters and its words, each word with one
space behind it, and they meet only behind a space and beside a wide character (`arePieces_pieces`), so
that no word is in two of them. Wrapping breaks each line of a text between pieces and leaves out nothing
but the spaces in front of a break, whatever numbers it is given (`wrap_breaks`). -/

namespace Wireframe

namespace Text

/-- A text line by line. -/
structure AreLines (lines : List (List Char)) (cs : List Char) : Prop where
  ne_nil : lines ≠ []
  noLineEnd : ∀ line ∈ lines, '\n' ∉ line
  joined : ['\n'].intercalate lines = cs

/-- A text, and what is left of it without the spaces at its end. -/
structure IsTrimmed (cs trimmed : List Char) : Prop where
  getLast?_ne : trimmed.getLast? ≠ some ' '
  exists_spaces : ∃ n, cs = trimmed ++ List.replicate n ' '

theorem areLines_splitAt (cs : List Char) : AreLines (splitAt '\n' cs) cs where
  ne_nil := splitAt_ne_nil '\n' cs
  noLineEnd _ h := not_mem_of_mem_splitAt h
  joined := intercalate_splitAt '\n' cs

theorem isTrimmed_dropTail (cs : List Char) : IsTrimmed cs (dropTail (· = ' ') cs) where
  getLast?_ne h := of_decide_eq_false (getLast?_dropTail (· = ' ') cs ' ' h) rfl
  exists_spaces := by
    obtain ⟨tail, hcs, htail⟩ := append_dropTail (· = ' ') cs
    have hspaces : tail = List.replicate tail.length ' ' :=
      List.eq_replicate_iff.mpr ⟨rfl, fun c hc => of_decide_eq_true (htail c hc)⟩
    exact ⟨tail.length, by rw [← hspaces, hcs]⟩

end Text

namespace Typeset

open Text (AreLines IsTrimmed)

/-- The characters of words. -/
def InWord (c : Char) : Prop := isWide c = false ∧ c ≠ ' '

/-- What is not broken: a wide character, a word, and a word with a space behind it, which may be
the space alone. -/
inductive IsPiece : List Char → Prop
  | wide {c : Char} (h : isWide c = true) : IsPiece [c]
  | word {run : List Char} (hne : run ≠ []) (h : ∀ c ∈ run, InWord c) : IsPiece run
  | spaced {run : List Char} (h : ∀ c ∈ run, InWord c) : IsPiece (run ++ [' '])

/-- A line may be broken behind a space and on either side of a wide character. -/
def MayBreak (before after : List Char) : Prop :=
  ∃ c d, before.getLast? = some c ∧ after.head? = some d ∧ (c = ' ' ∨ isWide c = true ∨ isWide d = true)

/-- A line in pieces that meet where it may be broken. -/
structure ArePieces (cs : List Char) (ps : List (List Char)) : Prop where
  flatten_eq : ps.flatten = cs
  isPiece : ∀ p ∈ ps, IsPiece p
  breaks : ps.IsChain MayBreak

/-- A line broken into lines: each is a group of its pieces without the spaces at the end. -/
structure BreaksInto (cs : List Char) (groups : List (List (List Char))) (lines : List (List Char)) :
    Prop where
  flatten_eq : groups.flatten = pieces cs
  arePieces : ArePieces cs (pieces cs)
  ne_nil : lines ≠ []
  nonempty : cs ≠ [] → [] ∉ groups
  breaks : (groups.map List.flatten).IsChain MayBreak
  trimmed : List.Forall₂ IsTrimmed (groups.map List.flatten) lines

variable {c d : Char} {p before after piece : List Char} {ps : List (List Char)}
  {groups : List (List (List Char))}

theorem IsPiece.ne_nil (h : IsPiece p) : p ≠ [] := by
  cases h with
  | wide => exact List.cons_ne_nil _ _
  | word hne => exact hne
  | spaced => exact List.append_ne_nil_of_right_ne_nil _ (List.cons_ne_nil _ _)

theorem IsPiece.cons (hc : InWord c) (hd : isWide d = false) (h : IsPiece (d :: piece)) :
    IsPiece (c :: d :: piece) := by
  generalize hp : d :: piece = p at h ⊢
  cases h with
  | wide hwide =>
      cases hp
      rw [hd] at hwide
      cases hwide
  | word hne hrun =>
      exact .word (List.cons_ne_nil _ _) (List.forall_mem_cons.mpr ⟨hc, hrun⟩)
  | @spaced run hrun => exact @IsPiece.spaced (c :: run) (List.forall_mem_cons.mpr ⟨hc, hrun⟩)

theorem inWord_iff : InWord c ↔ ¬(isWide c || c = ' ') = true := by
  rw [InWord, Bool.or_eq_true, not_or, Bool.not_eq_true, decide_eq_true_eq]

theorem isPiece_singleton (hc : InWord c) : IsPiece [c] :=
  .word (List.cons_ne_nil _ _) (List.forall_mem_singleton.mpr hc)

theorem ArePieces.cons {cs : List Char} (h : ArePieces cs ps) (hp : IsPiece p)
    (hbreak : ∀ q ∈ ps.head?, MayBreak p q) : ArePieces (p ++ cs) (p :: ps) where
  flatten_eq := by rw [List.flatten_cons, h.flatten_eq]
  isPiece := List.forall_mem_cons.mpr ⟨hp, h.isPiece⟩
  breaks := List.isChain_cons.mpr ⟨hbreak, h.breaks⟩

theorem arePieces_pieces (cs : List Char) : ArePieces cs (pieces cs) := by
  fun_induction pieces cs with
  | case1 => exact ⟨rfl, List.forall_mem_nil _, .nil⟩
  | case2 c cs hspecial ih =>
      have hone : IsPiece [c] ∧ (isWide c = true ∨ c = ' ') := by
        rw [Bool.or_eq_true, decide_eq_true_eq] at hspecial
        refine ⟨?_, hspecial⟩
        rcases hspecial with hwide | rfl
        · exact .wide hwide
        · exact @IsPiece.spaced [] (List.forall_mem_nil _)
      refine ih.cons hone.1 fun q hq => ?_
      obtain ⟨d, rest, rfl⟩ := List.exists_cons_of_ne_nil (ih.isPiece q (List.mem_of_mem_head? hq)).ne_nil
      exact ⟨c, d, rfl, rfl, hone.2.elim (fun h => Or.inr (Or.inl h)) Or.inl⟩
  | case3 c cs hplain d piece rest hpieces hd ih =>
      rw [hpieces] at ih
      refine ih.cons (isPiece_singleton (inWord_iff.mpr hplain)) fun q hq => ?_
      cases hq
      exact ⟨c, d, rfl, rfl, Or.inr (Or.inr hd)⟩
  | case4 c cs hplain d piece rest hpieces hd ih =>
      rw [hpieces] at ih
      obtain ⟨hfirst, hrest⟩ := List.forall_mem_cons.mp ih.isPiece
      obtain ⟨hbreak, hchain⟩ := List.isChain_cons.mp ih.breaks
      refine ⟨congrArg (c :: ·) ih.flatten_eq,
        List.forall_mem_cons.mpr ⟨hfirst.cons (inWord_iff.mpr hplain) (by simpa using hd), hrest⟩,
        List.isChain_cons.mpr ⟨fun q hq => ?_, hchain⟩⟩
      -- the piece ends as it did
      obtain ⟨last, first, hlast, hhead, hmay⟩ := hbreak q hq
      exact ⟨last, first, by rw [List.getLast?_cons_cons, hlast], hhead, hmay⟩
  | case5 c cs hplain hnone ih =>
      have hempty : pieces cs = [] := by
        cases hpieces : pieces cs with
        | nil => rfl
        | cons q rest =>
            obtain ⟨d, piece, rfl⟩ := List.exists_cons_of_ne_nil
              (ih.isPiece q (hpieces ▸ List.mem_cons_self)).ne_nil
            exact absurd hpieces (hnone d piece rest)
      refine ih.cons (isPiece_singleton (inWord_iff.mpr hplain)) ?_
      rw [hempty]
      exact fun q hq => absurd hq (Option.not_mem_none q)

theorem MayBreak.append_left (h : MayBreak before after) (front : List Char) :
    MayBreak (front ++ before) after := by
  obtain ⟨c, d, hlast, hhead, hmay⟩ := h
  exact ⟨c, d, by rw [List.getLast?_append, hlast, Option.some_or], hhead, hmay⟩

theorem MayBreak.append_right (h : MayBreak before after) (back : List Char) :
    MayBreak before (after ++ back) := by
  obtain ⟨c, d, hlast, hhead, hmay⟩ := h
  exact ⟨c, d, hlast, by rw [List.head?_append, hhead, Option.some_or], hmay⟩

/-- Groups of pieces meet where the pieces do. -/
theorem isChain_map_flatten (hne : [] ∉ groups) (h : groups.flatten.IsChain MayBreak) :
    (groups.map List.flatten).IsChain MayBreak := by
  induction groups with
  | nil => exact .nil
  | cons group rest ih =>
      rw [List.mem_cons, not_or] at hne
      obtain ⟨-, hchain, hmeet⟩ := List.isChain_append.mp h
      refine List.isChain_cons.mpr ⟨fun next hnext => ?_, ih hne.2 hchain⟩
      cases rest with
      | nil => cases hnext
      | cons group' rest =>
          cases hnext
          obtain ⟨front, last, rfl⟩ := (List.eq_nil_or_concat' group).resolve_left fun hnil => hne.1 hnil.symm
          obtain ⟨first, back, rfl⟩ := List.exists_cons_of_ne_nil
            fun hnil => hne.2 (hnil ▸ List.mem_cons_self)
          have hmay := hmeet last (by rw [List.getLast?_concat]; rfl) first rfl
          rw [List.flatten_append, List.flatten_singleton, List.flatten_cons]
          exact (hmay.append_left _).append_right _

variable {α : Type} [OrderedScalar α]

theorem nil_not_mem_packAfter (limit size width : α) (ps : List (List Char)) :
    [] ∉ (packAfter limit size width ps).2 := by
  induction ps generalizing width with
  | nil => exact List.not_mem_nil
  | cons piece rest ih =>
      rw [packAfter]
      simp only
      split
      · rw [List.mem_cons, not_or]
        exact ⟨(List.cons_ne_nil _ _).symm, ih _⟩
      · exact ih _

theorem nil_not_mem_pack (limit size : α) (ps : List (List Char)) : [] ∉ pack limit size ps := by
  cases ps with
  | nil => exact List.not_mem_nil
  | cons piece rest =>
      rw [pack]
      simp only
      rw [List.mem_cons, not_or]
      exact ⟨(List.cons_ne_nil _ _).symm, nil_not_mem_packAfter _ _ _ _⟩

theorem wrapLine_of_ne_nil {cs : List Char} (limit size : α) (h : cs ≠ []) :
    wrapLine limit size cs = (pack limit size (pieces cs)).map line := by
  rw [wrapLine]
  split
  · next hnone =>
    have hcontent : (pack limit size (pieces cs)).flatten.flatten = cs := by
      rw [flatten_pack, flatten_pieces]
    rw [hnone] at hcontent
    exact absurd hcontent.symm h
  · rfl

theorem trimmed_map_line (groups : List (List (List Char))) :
    List.Forall₂ IsTrimmed (groups.map List.flatten) (groups.map line) := by
  rw [List.forall₂_map_left_iff, List.forall₂_map_right_iff, List.forall₂_same]
  exact fun group _ => Text.isTrimmed_dropTail group.flatten

theorem exists_breaksInto (limit size : α) (cs : List Char) :
    ∃ groups, BreaksInto cs groups (wrapLine limit size cs) := by
  by_cases hcs : cs = []
  · subst hcs
    exact ⟨[[]], rfl, arePieces_pieces [], List.cons_ne_nil _ _, fun hne => absurd rfl hne, .singleton _,
      trimmed_map_line [[]]⟩
  · have hflatten := flatten_pack limit size (pieces cs)
    have hchain := (arePieces_pieces cs).breaks
    have hne := nil_not_mem_pack limit size (pieces cs)
    rw [← hflatten] at hchain
    refine ⟨pack limit size (pieces cs), hflatten, arePieces_pieces cs, wrapLine_ne_nil _ _ _, fun _ => hne,
      isChain_map_flatten hne hchain, ?_⟩
    rw [wrapLine_of_ne_nil limit size hcs]
    exact trimmed_map_line _

/-- A text is wrapped line by line. -/
theorem exists_parts {R : List Char → List (List Char) → Prop} {limit size : α}
    (h : ∀ hard, R hard (wrapLine limit size hard)) (cs : List Char) :
    ∃ hards parts, AreLines hards cs ∧ wrap limit size cs = parts.flatten ∧ List.Forall₂ R hards parts := by
  refine ⟨Text.splitAt '\n' cs, (Text.splitAt '\n' cs).map (wrapLine limit size),
    Text.areLines_splitAt cs, List.flatMap_def, ?_⟩
  rw [List.forall₂_map_right_iff, List.forall₂_same]
  exact fun hard _ => h hard

/-- The lines of a text are those of its lines one after another, and each of these is broken into at
least one, between its pieces only. -/
theorem wrap_breaks (limit size : α) (cs : List Char) :
    ∃ hards parts, AreLines hards cs ∧ wrap limit size cs = parts.flatten ∧
      List.Forall₂ (fun hard lines => ∃ groups, BreaksInto hard groups lines) hards parts :=
  exists_parts (exists_breaksInto limit size) cs

end Typeset
end Wireframe
