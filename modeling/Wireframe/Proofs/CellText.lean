import Mathlib
import Wireframe.Cell.Reference
import Wireframe.Proofs.Results

/-! References that can be read. What is read has a row that can be written again
(`Range.isWritable_of_read`) and keeps the rules of a cell. A reference of plain letters and digits
whose rows of digits are short enough is read or refused, but never stops the reading itself
(`Range.read_ne_numeral`). -/

namespace Wireframe

/-- No row of digits in the text is longer than a number may be. -/
def Numeral.RunsFit (cs : List Char) : Prop :=
  ∀ ds, ds <:+: cs → (∀ c ∈ ds, c.isDigit = true) → ds.length ≤ Numeral.maxDigits

/-- The text has only characters of the first block of Unicode. -/
def Text.IsPlain (cs : List Char) : Prop := ∀ c ∈ cs, c.toNat < 0x80

theorem Numeral.RunsFit.mono {cs ds : List Char} (h : RunsFit cs) (hds : ds <:+: cs) : RunsFit ds :=
  fun es hes => h es (hes.trans hds)

theorem Numeral.runsFit_of_length_le {cs : List Char} (h : cs.length ≤ maxDigits) : RunsFit cs :=
  fun _ hds _ => Nat.le_trans hds.length_le h

theorem Text.IsPlain.mono {cs ds : List Char} (h : IsPlain cs) (hds : ds <:+: cs) : IsPlain ds :=
  fun c hc => h c (hds.subset hc)

namespace Numeral

theorem value_lt (cs : List Char) : value cs < 10 ^ cs.length := by
  induction cs using List.reverseRecOn with
  | nil => exact Nat.one_pos
  | append_singleton cs c ih =>
      have hdigit : (Text.digitValue? c).getD 0 < 10 := by
        cases hd : Text.digitValue? c with
        | none => exact Nat.succ_pos _
        | some d => exact Text.digitValue?_lt hd
      rw [value_append_singleton, List.length_append, List.length_singleton, Nat.pow_succ]
      omega

theorem isWritable_iff {n : Nat} : isWritable n = true ↔ n < 10 ^ maxDigits := by
  rw [isWritable, decide_eq_true_eq, Int.natAbs_natCast, Nat.pow_eq]

theorem isWritable_of_read {cs : List Char} {n : Nat} (h : read cs = .ok n) : isWritable n = true := by
  rw [read] at h
  split at h
  · next hle =>
    cases h
    exact isWritable_iff.mpr (Nat.lt_of_lt_of_le (value_lt cs) (Nat.pow_le_pow_right (by omega) hle))
  · cases h

end Numeral

namespace Text

theorem trim_isInfix (cs : List Char) : trim cs <:+: cs := by
  have hhead : cs.dropWhile isBlank <:+: cs := (List.dropWhile_suffix _).isInfix
  have htail : trim cs <:+: cs.dropWhile isBlank := by
    rw [trim, trimBy, dropTail, ← List.reverse_infix, List.reverse_reverse]
    exact (List.dropWhile_suffix _).isInfix
  exact htail.trans hhead

theorem upper_eq_map {cs : List Char} (h : IsPlain cs) : upper cs = cs.map Char.toUpper := by
  induction cs with
  | nil => rfl
  | cons c cs ih =>
      obtain ⟨hc, hcs⟩ := List.forall_mem_cons.mp h
      have hupper : upper (c :: cs) = upperChar c ++ upper cs := rfl
      rw [hupper, ih hcs, upperChar, if_pos hc, List.map_cons, List.singleton_append]

theorem isDigit_of_isDecimal_toUpper {c : Char} (hplain : c.toNat < 0x80)
    (h : isDecimal c.toUpper = true) : c.isDigit = true := by
  have hall : ∀ n < 0x80, isDecimal (Char.ofNat n).toUpper = true → (Char.ofNat n).isDigit = true := by
    decide +kernel
  have hc := hall c.toNat hplain
  rw [Char.ofNat_toNat] at hc
  exact hc h

theorem prefix_of_splitDots {cs piece : List Char} {pieces : List (List Char)}
    (h : splitDots cs = piece :: pieces) : piece <+: cs := by
  fun_induction splitDots cs generalizing piece pieces with
  | case1 =>
      cases h
      exact List.prefix_refl _
  | case2 cs _ =>
      cases h
      exact List.nil_prefix
  | case3 c cs _ _ _ =>
      cases h
      exact (List.prefix_cons_inj c).mpr List.nil_prefix
  | case4 c cs _ first rest hcons ih =>
      cases h
      exact (List.prefix_cons_inj c).mpr (ih hcons)

theorem infix_of_mem_splitDots {cs piece : List Char} (h : piece ∈ splitDots cs) : piece <:+: cs := by
  fun_induction splitDots cs with
  | case1 =>
      cases List.mem_singleton.mp h
      exact List.infix_refl _
  | case2 cs ih =>
      rcases List.mem_cons.mp h with rfl | h
      · exact List.nil_infix
      · exact (ih h).trans ((List.suffix_cons _ _).trans (List.suffix_cons _ _)).isInfix
  | case3 c cs _ _ _ =>
      rw [List.mem_singleton.mp h]
      exact ((List.prefix_cons_inj c).mpr List.nil_prefix).isInfix
  | case4 c cs _ first rest hcons ih =>
      rcases List.mem_cons.mp h with rfl | h
      · exact ((List.prefix_cons_inj c).mpr (prefix_of_splitDots hcons)).isInfix
      · rw [hcons] at ih
        exact (ih (List.mem_cons_of_mem _ h)).trans (List.suffix_cons c cs).isInfix

end Text

namespace Column

theorem rank_append_singleton (cs : List Char) (c : Char) :
    rank (cs ++ [c]) = 26 * rank cs + place c := by
  simp [rank]

theorem rank_pos {cs : List Char} (h : cs ≠ []) : 0 < rank cs := by
  obtain ⟨cs, c, rfl⟩ := (List.eq_nil_or_concat cs).resolve_left h
  rw [List.concat_eq_append, rank_append_singleton, place]
  omega

end Column

namespace Coord

variable {cs : List Char} {c : Coord}

/-- The letters and the digits that a reference is read as. -/
def letters (cs : List Char) : List Char := (Text.upper (Text.trim cs)).takeWhile Char.isUpper

def digits (cs : List Char) : List Char := (Text.upper (Text.trim cs)).dropWhile Char.isUpper

theorem read_eq_ok (h : read cs = .ok c) :
    letters cs ≠ [] ∧ Numeral.read (digits cs) = .ok (c.row + 1) ∧
      c.col + 1 = Column.rank (letters cs) := by
  rw [read] at h
  split at h
  · next hshape =>
    split at h
    · cases h
    · cases h
    · next row hrow =>
      cases h
      refine ⟨hshape.1, hrow, ?_⟩
      have hpos := Column.rank_pos hshape.1
      simp only [letters] at hpos ⊢
      omega
  · cases h

theorem isWritable_of_read (h : read cs = .ok c) : c.isWritable = true := by
  obtain ⟨-, hdigits, -⟩ := read_eq_ok h
  exact Numeral.isWritable_of_read hdigits

/-- The column and the row that a reference names are not below zero. -/
theorem ofInts?_of_read (h : read cs = .ok c) :
    ofInts? ((Column.rank (letters cs) : Int) - 1) ((Numeral.value (digits cs) : Int) - 1) =
      .ok c := by
  obtain ⟨-, hdigits, hletters⟩ := read_eq_ok h
  have hrow : Numeral.value (digits cs) = c.row + 1 := by
    rw [Numeral.read] at hdigits
    split at hdigits
    · exact Except.ok.inj hdigits
    · cases hdigits
  rw [hrow, ← hletters]
  simp [ofInts?, FieldError.unless]

theorem read_ne_numeral {tooLong : Numeral.TooLong} (hplain : Text.IsPlain cs)
    (hruns : Numeral.RunsFit cs) : read cs ≠ .error (.numeral tooLong) := by
  intro h
  have hbody : Text.trim cs <:+: cs := Text.trim_isInfix cs
  have hdigits : digits cs =
      ((Text.trim cs).dropWhile fun c => c.toUpper.isUpper).map Char.toUpper := by
    rw [digits, Text.upper_eq_map (hplain.mono hbody), List.dropWhile_map]
    rfl
  have hpart : (Text.trim cs).dropWhile (fun c => c.toUpper.isUpper) <:+: cs :=
    (List.dropWhile_suffix _).isInfix.trans hbody
  rw [read] at h
  split at h
  · next hshape =>
    have hfits : (digits cs).length ≤ Numeral.maxDigits := by
      rw [hdigits, List.length_map]
      refine hruns _ hpart fun c hc => ?_
      apply Text.isDigit_of_isDecimal_toUpper (hplain c (hpart.subset hc))
      apply List.all_eq_true.mp hshape.2.2 _
      rw [← digits, hdigits]
      exact List.mem_map_of_mem hc
    rw [← digits, Numeral.read_of_length_le hfits] at h
    split at h <;> simp_all
  · cases h

end Coord

namespace Range

variable {cs : List Char} {r : Range}

theorem isWritable_of_read (h : read cs = .ok r) : r.isWritable = true := by
  rw [read] at h
  split at h
  · obtain ⟨a, ha, hr⟩ := Results.bind_eq_ok.mp h
    cases hr
    exact Coord.isWritable_of_read ha
  · obtain ⟨a, ha, hrest⟩ := Results.bind_eq_ok.mp h
    obtain ⟨b, hb, hr⟩ := Results.bind_eq_ok.mp hrest
    cases hr
    have hrow : max a.row b.row = a.row ∨ max a.row b.row = b.row := by omega
    rcases hrow with hrow | hrow
    · simpa only [isWritable, Coord.isWritable, spanning, hrow] using Coord.isWritable_of_read ha
    · simpa only [isWritable, Coord.isWritable, spanning, hrow] using Coord.isWritable_of_read hb
  · cases h

theorem read_ne_numeral {tooLong : Numeral.TooLong} (hplain : Text.IsPlain cs)
    (hruns : Numeral.RunsFit cs) : read cs ≠ .error (.numeral tooLong) := by
  have hpiece : ∀ piece ∈ Text.splitDots cs, Coord.read piece ≠ .error (.numeral tooLong) := by
    intro piece hmem
    have hpart := Text.infix_of_mem_splitDots hmem
    exact Coord.read_ne_numeral (hplain.mono hpart) (hruns.mono hpart)
  intro h
  rw [read] at h
  split at h
  · next a hsplit =>
    rw [hsplit] at hpiece
    rcases Results.bind_eq_error.mp h with ha | ⟨_, _, hr⟩
    · exact hpiece a (by simp) ha
    · cases hr
  · next a b hsplit =>
    rw [hsplit] at hpiece
    rcases Results.bind_eq_error.mp h with ha | ⟨_, _, h⟩
    · exact hpiece a (by simp) ha
    · rcases Results.bind_eq_error.mp h with hb | ⟨_, _, hr⟩
      · exact hpiece b (by simp) hb
      · cases hr
  · cases h

end Range
end Wireframe
