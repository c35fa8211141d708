import Mathlib
import Wireframe.Text.Blank
import Wireframe.Text.Split

/-! Texts cut at a separator, and texts without their tail. The pieces hold no separator, and they are the
pieces of what they are joined to (`splitAt_intercalate`). Cutting at one separator cuts the text before it
and the text behind it (`splitAt_append_sep`), so the piece that a place is in is counted by the separators
before it (`getElem?_splitAt`). -/

namespace Wireframe.Text

variable {sep : Char} {p : Char → Bool} {piece cs : List Char} {lines : List (List Char)}

theorem flatten_splitAt (sep : Char) (cs : List Char) :
    (splitAt sep cs).flatten = cs.filter (· ≠ sep) := by
  induction cs with
  | nil => rfl
  | cons c cs ih =>
      rw [splitAt]
      split
      · next hc => rw [List.flatten_cons, List.nil_append, ih, List.filter_cons_of_neg (by simp [hc])]
      · next hc =>
        rw [List.filter_cons_of_pos (by simp [hc]), ← ih]
        cases hpieces : splitAt sep cs with
        | nil => exact absurd hpieces (splitAt_ne_nil sep cs)
        | cons piece rest => rfl

theorem not_mem_of_mem_splitAt {sep : Char} {cs piece : List Char} (h : piece ∈ splitAt sep cs) :
    sep ∉ piece := by
  have hall : ∀ c ∈ (splitAt sep cs).flatten, c ≠ sep := by
    rw [flatten_splitAt]
    exact fun c hc => by simpa using (List.mem_filter.mp hc).2
  exact fun hsep => hall sep (List.mem_flatten_of_mem h hsep) rfl

theorem mem_of_mem_splitAt {sep c : Char} {cs piece : List Char} (h : piece ∈ splitAt sep cs)
    (hc : c ∈ piece) : c ∈ cs := by
  have hflat := List.mem_flatten_of_mem h hc
  rw [flatten_splitAt] at hflat
  exact (List.mem_filter.mp hflat).1

theorem splitAt_of_not_mem (h : sep ∉ piece) : splitAt sep piece = [piece] := by
  induction piece with
  | nil => rfl
  | cons c cs ih =>
      rw [List.mem_cons, not_or] at h
      rw [splitAt, if_neg (Ne.symm h.1), ih h.2]

theorem splitAt_append (h : sep ∉ piece) (rest : List Char) :
    splitAt sep (piece ++ sep :: rest) = piece :: splitAt sep rest := by
  induction piece with
  | nil => rw [List.nil_append, splitAt, if_pos rfl]
  | cons c cs ih =>
      rw [List.mem_cons, not_or] at h
      rw [List.cons_append, splitAt, if_neg (Ne.symm h.1), ih h.2]

/-- Pieces without the separator are the pieces of what they are joined to. -/
theorem splitAt_intercalate (hne : lines ≠ []) (h : ∀ line ∈ lines, sep ∉ line) :
    splitAt sep ([sep].intercalate lines) = lines := by
  induction lines with
  | nil => exact absurd rfl hne
  | cons line rest ih =>
      obtain ⟨hline, hrest⟩ := List.forall_mem_cons.mp h
      cases rest with
      | nil =>
          rw [List.intercalate_singleton]
          exact splitAt_of_not_mem hline
      | cons next rest =>
          rw [List.intercalate_cons_cons, List.append_assoc, List.singleton_append, splitAt_append hline,
            ih (List.cons_ne_nil _ _) hrest]

/-- Cutting at one of the separators cuts the texts on both sides of it. -/
theorem splitAt_append_sep (sep : Char) (front back : List Char) :
    splitAt sep (front ++ sep :: back) = splitAt sep front ++ splitAt sep back := by
  induction front with
  | nil =>
      show splitAt sep (sep :: back) = [] :: splitAt sep back
      rw [splitAt, if_pos rfl]
  | cons c cs ih =>
      rw [List.cons_append, splitAt, splitAt]
      split
      · rw [ih, List.cons_append]
      · cases hpieces : splitAt sep cs with
        | nil => exact absurd hpieces (splitAt_ne_nil sep cs)
        | cons first rest =>
            rw [ih, hpieces]
            rfl

theorem length_splitAt (sep : Char) (cs : List Char) :
    (splitAt sep cs).length = cs.count sep + 1 := by
  induction cs with
  | nil => rfl
  | cons c cs ih =>
      rw [splitAt]
      split
      · next hc => rw [List.length_cons, ih, hc, List.count_cons_self]
      · next hc =>
        rw [List.count_cons_of_ne hc, ← ih]
        cases hpieces : splitAt sep cs with
        | nil => exact absurd hpieces (splitAt_ne_nil sep cs)
        | cons first rest => rfl

theorem head?_splitAt (sep : Char) (cs : List Char) :
    (splitAt sep cs).head? = some (cs.takeWhile (· ≠ sep)) := by
  induction cs with
  | nil => rfl
  | cons c cs ih =>
      rw [splitAt]
      split
      · next hc => rw [List.takeWhile_cons_of_neg (by simp [hc]), List.head?_cons]
      · next hc =>
        rw [List.takeWhile_cons_of_pos (by simpa using hc)]
        cases hpieces : splitAt sep cs with
        | nil => exact absurd hpieces (splitAt_ne_nil sep cs)
        | cons first rest =>
            rw [hpieces, List.head?_cons] at ih
            rw [List.head?_cons, Option.some.inj ih]

/-- The piece that a place is in, counted by the separators before it: it goes from the last separator before
the place to the next one behind it. -/
theorem getElem?_splitAt (sep : Char) (before rest : List Char) :
    (splitAt sep (before ++ rest))[before.count sep]? =
      some (before.rtakeWhile (· ≠ sep) ++ rest.takeWhile (· ≠ sep)) := by
  have hbefore := List.rdropWhile_append_rtakeWhile (p := fun c => decide (c ≠ sep)) (l := before)
  have hlast := List.rdropWhile_last_not (fun c => decide (c ≠ sep)) before
  have hleft : ∀ c ∈ before.rtakeWhile (· ≠ sep), decide (c ≠ sep) = true :=
    fun _ hc => List.mem_rtakeWhile_imp (p := fun c => decide (c ≠ sep)) hc
  generalize before.rtakeWhile (· ≠ sep) = left at *
  generalize before.rdropWhile (· ≠ sep) = above at hbefore hlast
  have hcount : left.count sep = 0 := List.count_eq_zero.mpr fun h => by simpa using hleft sep h
  -- of the text from the start of the piece on it is the first one
  have hfirst : (splitAt sep (left ++ rest))[0]? = some (left ++ rest.takeWhile (· ≠ sep)) := by
    rw [← List.head?_eq_getElem?, head?_splitAt, List.takeWhile_append_of_pos hleft]
  obtain rfl | ⟨above, last, rfl⟩ := List.eq_nil_or_concat' above
  · rw [List.nil_append] at hbefore
    rw [← hbefore, hcount, hfirst]
  · obtain rfl : last = sep := by simpa using hlast
    rw [List.append_assoc, List.singleton_append] at hbefore
    have hlines : before.count last = (splitAt last above).length := by
      rw [← hbefore, List.count_append, List.count_cons_self, hcount, length_splitAt]
    rw [hlines, ← hbefore, List.append_assoc, List.cons_append, splitAt_append_sep,
      List.getElem?_append_right (le_refl _), Nat.sub_self, hfirst]

theorem append_dropTail (p : Char → Bool) (cs : List Char) :
    ∃ tail, dropTail p cs ++ tail = cs ∧ ∀ c ∈ tail, p c = true :=
  ⟨cs.rtakeWhile p, List.rdropWhile_append_rtakeWhile .., fun _ hc => List.mem_rtakeWhile_imp hc⟩

/-- What is left after a tail is dropped does not end in what is dropped. -/
theorem getLast?_dropTail (p : Char → Bool) (cs : List Char) :
    ∀ c ∈ (dropTail p cs).getLast?, p c = false := by
  rw [dropTail, List.getLast?_reverse]
  intro c hc
  have hhead := List.head?_dropWhile_not p cs.reverse
  rwa [Option.mem_def.mp hc] at hhead

/-- Two stretches of entries of one sort, each up to an entry that is not of it. -/
theorem append_inj_of_stop {α : Type} {P : α → Prop} {a b x y : List α} {c d : α} (ha : ∀ k ∈ a, P k)
    (hb : ∀ k ∈ b, P k) (hc : ¬P c) (hd : ¬P d) (heq : a ++ c :: x = b ++ d :: y) :
    a = b ∧ c :: x = d :: y := by
  induction a generalizing b with
  | nil =>
      cases b with
      | nil => exact ⟨rfl, heq⟩
      | cons k b =>
          obtain ⟨rfl, -⟩ := List.cons_eq_cons.mp heq
          exact absurd (hb c List.mem_cons_self) hc
  | cons k a ih =>
      cases b with
      | nil =>
          obtain ⟨rfl, -⟩ := List.cons_eq_cons.mp heq
          exact absurd (ha k List.mem_cons_self) hd
      | cons k' b =>
          obtain ⟨rfl, htail⟩ := List.cons_eq_cons.mp heq
          obtain ⟨rfl, hrest⟩ := ih (fun k hk => ha k (List.mem_cons_of_mem _ hk))
            (fun k hk => hb k (List.mem_cons_of_mem _ hk)) htail
          exact ⟨rfl, hrest⟩

end Wireframe.Text
