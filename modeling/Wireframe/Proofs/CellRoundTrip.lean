import Wireframe.Proofs.LexemeScan
import Wireframe.Proofs.TokenShape

/-! References are read back as they were written. Column letters and row digits are capital letters and
decimal digits, which reading neither trims nor changes, so a cell and a range whose rows may be written
are what their texts name (`Coord.read_text`, `Range.read_text`). Any text that is read as a range has one
written form, and a rectangle may be named by either pair of its opposite corners
(`Range.read_normalizes`). -/

namespace Wireframe

namespace Numeral

theorem digitValue?_digitChar {d : Nat} (h : d < 10) : Text.digitValue? d.digitChar = some d := by
  have hall : ∀ d < 10, Text.digitValue? d.digitChar = some d := by decide
  exact hall d h

/-- A decimal digit is the one of a number below ten. -/
theorem exists_digitChar {d : Char} (h : d.isDigit = true) :
    ∃ v < 10, Text.digitValue? d = some v ∧ v.digitChar = d := by
  have hall : ∀ n < 0x80, (Char.ofNat n).isDigit = true →
      ∃ v < 10, Text.digitValue? (Char.ofNat n) = some v ∧ v.digitChar = Char.ofNat n := by
    decide
  have hplain : d.toNat < 0x80 := Lexeme.toNat_lt_of_isWordChar (by simp [Lexeme.isWordChar, Char.isAlphanum, h])
  have hd := hall d.toNat hplain
  rw [Char.ofNat_toNat] at hd
  exact hd h

/-- The digits of a number have its value. -/
theorem value_toDigits (n : Nat) : value (Nat.toDigits 10 n) = n := by
  induction n using Nat.strongRecOn with
  | ind n ih =>
      by_cases h : n < 10
      · rw [Nat.toDigits_of_lt_base h]
        show 10 * 0 + (Text.digitValue? n.digitChar).getD 0 = n
        rw [digitValue?_digitChar h]
        exact Nat.zero_add n
      · rw [Nat.toDigits_of_base_le (by decide) (by omega), value_append_singleton, ih (n / 10) (by omega),
          digitValue?_digitChar (Nat.mod_lt n (by decide))]
        exact Nat.div_add_mod n 10

theorem isDigit_of_mem_toDigits {n : Nat} {c : Char} (h : c ∈ Nat.toDigits 10 n) : c.isDigit = true :=
  Nat.isDigit_of_mem_toDigits (by decide) (by decide) h

/-- The digits of a number above zero do not start with a zero. -/
theorem head?_toDigits_ne_zero {n : Nat} (h : 0 < n) : (Nat.toDigits 10 n).head? ≠ some '0' := by
  induction n using Nat.strongRecOn with
  | ind n ih =>
      by_cases hsmall : n < 10
      · have hall : ∀ d < 10, 0 < d → d.digitChar ≠ '0' := by decide
        rw [Nat.toDigits_of_lt_base hsmall, List.head?_cons, ne_eq, Option.some.injEq]
        exact hall n hsmall h
      · rw [Nat.toDigits_of_base_le (by decide) (by omega),
          List.head?_append_of_ne_nil _ Nat.toDigits_ne_nil]
        exact ih (n / 10) (by omega) (by omega)

/-- Digits that do not start with a zero are those of their value. -/
theorem toDigits_value {ds : List Char} (hne : ds ≠ []) (hds : ∀ d ∈ ds, d.isDigit = true)
    (hhead : ds.head? ≠ some '0') : 0 < value ds ∧ Nat.toDigits 10 (value ds) = ds := by
  induction ds using List.reverseRecOn with
  | nil => exact absurd rfl hne
  | append_singleton ds d ih =>
      rw [List.forall_mem_append, List.forall_mem_singleton] at hds
      obtain ⟨v, hv, hlast, rfl⟩ := exists_digitChar hds.2
      rw [value_append_singleton, hlast, Option.getD_some]
      by_cases hds' : ds = []
      · subst hds'
        have hpos : v ≠ 0 := by
          rintro rfl
          exact hhead rfl
        rw [value_nil, Nat.mul_zero, Nat.zero_add, Nat.toDigits_of_lt_base hv]
        exact ⟨Nat.pos_of_ne_zero hpos, rfl⟩
      · rw [List.head?_append_of_ne_nil _ hds'] at hhead
        obtain ⟨hpos, hdigits⟩ := ih hds' hds.1 hhead
        have hdiv : (10 * value ds + v) / 10 = value ds := by omega
        have hmod : (10 * value ds + v) % 10 = v := by omega
        rw [Nat.toDigits_of_base_le (by decide) (by omega), hdiv, hmod, hdigits]
        exact ⟨by omega, rfl⟩

theorem toList_toString (n : Nat) : (toString n).toList = Nat.toDigits 10 n := Nat.toList_repr

/-- A number that may be written is read back. -/
theorem read_toDigits {n : Nat} (h : isWritable n = true) : read (Nat.toDigits 10 n) = .ok n := by
  have hlength : (Nat.toDigits 10 n).length ≤ maxDigits :=
    (Nat.length_toDigits_le_iff (by decide) (by decide)).mpr (isWritable_iff.mp h)
  rw [read_of_length_le hlength, value_toDigits]

end Numeral

namespace Column

theorem place_letter {d : Nat} (h : d < 26) : place (letter d) = d + 1 ∧ (letter d).isUpper = true := by
  have hall : ∀ d < 26, place (letter d) = d + 1 ∧ (letter d).isUpper = true := by decide
  exact hall d h

/-- The position of the `n`-th word is `n`. -/
theorem rank_word (n : Nat) : rank (word n) = n := by
  induction n using Nat.strongRecOn with
  | ind n ih =>
      cases n with
      | zero =>
          rw [word]
          rfl
      | succ n =>
          rw [word, rank_append_singleton, ih (n / 26) (by omega),
            (place_letter (Nat.mod_lt n (by decide))).1]
          omega

theorem exists_place {c : Char} (h : c.isUpper = true) : ∃ d < 26, place c = d + 1 ∧ letter d = c := by
  have hall : ∀ n < 0x80, (Char.ofNat n).isUpper = true →
      ∃ d < 26, place (Char.ofNat n) = d + 1 ∧ letter d = Char.ofNat n := by
    decide
  have hplain : c.toNat < 0x80 :=
    Lexeme.toNat_lt_of_isWordChar (by simp [Lexeme.isWordChar, Char.isAlphanum, Char.isAlpha, h])
  have hc := hall c.toNat hplain
  rw [Char.ofNat_toNat] at hc
  exact hc h

/-- A word of capital letters is the one at its position. -/
theorem word_rank {cs : List Char} (h : ∀ c ∈ cs, c.isUpper = true) : word (rank cs) = cs := by
  induction cs using List.reverseRecOn with
  | nil =>
      show word 0 = []
      rw [word]
  | append_singleton cs c ih =>
      rw [List.forall_mem_append, List.forall_mem_singleton] at h
      obtain ⟨d, hd, hplace, rfl⟩ := exists_place h.2
      have hdiv : (26 * rank cs + d) / 26 = rank cs := by omega
      have hmod : (26 * rank cs + d) % 26 = d := by omega
      rw [rank_append_singleton, hplace, ← Nat.add_assoc, word, hdiv, hmod, ih h.1]

theorem isUpper_of_mem_word {n : Nat} {c : Char} (h : c ∈ word n) : c.isUpper = true := by
  induction n using Nat.strongRecOn with
  | ind n ih =>
      cases n with
      | zero =>
          rw [word] at h
          exact absurd h List.not_mem_nil
      | succ n =>
          rw [word, List.mem_append, List.mem_singleton] at h
          rcases h with h | rfl
          · exact ih (n / 26) (by omega) h
          · exact (place_letter (Nat.mod_lt n (by decide))).2

theorem word_succ_ne_nil (n : Nat) : word (n + 1) ≠ [] := by
  rw [word]
  exact List.append_ne_nil_of_right_ne_nil _ (List.cons_ne_nil _ _)

end Column

namespace Text

variable {p : Char → Bool} {c : Char} {cs : List Char}

theorem dropWhile_eq_self (h : ∀ c ∈ cs, p c = false) : cs.dropWhile p = cs := by
  cases cs with
  | nil => rfl
  | cons c cs => exact List.dropWhile_cons_of_neg (by simp [h c List.mem_cons_self])

theorem mem_dropWhile (h : c ∈ cs) (hc : p c = false) : c ∈ cs.dropWhile p := by
  rw [← List.takeWhile_append_dropWhile (p := p) (l := cs)] at h
  refine (List.mem_append.mp h).resolve_left fun htake => ?_
  rw [List.mem_takeWhile_imp htake] at hc
  cases hc

/-- Only blanks are trimmed. -/
theorem mem_trim (h : c ∈ cs) (hc : isBlank c = false) : c ∈ trim cs := by
  rw [trim, trimBy, dropTail, List.mem_reverse]
  exact mem_dropWhile (List.mem_reverse.mpr (mem_dropWhile h hc)) hc

theorem trim_eq_self (h : ∀ c ∈ cs, isBlank c = false) : trim cs = cs := by
  have hreverse : ∀ c ∈ cs.reverse, isBlank c = false := fun c hc => h c (List.mem_reverse.mp hc)
  rw [trim, trimBy, dropTail, dropWhile_eq_self h, dropWhile_eq_self hreverse, List.reverse_reverse]

/-- The characters that references are written in. -/
def IsCellChar (c : Char) : Prop := c.isUpper = true ∨ c.isDigit = true

theorem IsCellChar.isWordChar (h : IsCellChar c) : Lexeme.isWordChar c = true := by
  rcases h with h | h <;> simp [Lexeme.isWordChar, Char.isAlphanum, Char.isAlpha, h]

theorem IsCellChar.plain (h : IsCellChar c) : c.toNat < 0x80 := Lexeme.toNat_lt_of_isWordChar h.isWordChar

/-- Reading takes the characters of a reference as they are. -/
theorem IsCellChar.kept (h : IsCellChar c) : isBlank c = false ∧ c.toUpper = c ∧ c ≠ '.' := by
  have hall : ∀ n < 0x80, ((Char.ofNat n).isUpper || (Char.ofNat n).isDigit) = true →
      isBlank (Char.ofNat n) = false ∧ (Char.ofNat n).toUpper = Char.ofNat n ∧ Char.ofNat n ≠ '.' := by
    decide
  have hc := hall c.toNat h.plain
  rw [Char.ofNat_toNat] at hc
  exact hc ((Bool.or_eq_true _ _).mpr h)

theorem isUpper_eq_false_of_isDigit (h : c.isDigit = true) : c.isUpper = false := by
  have hstart := Lexeme.startsWord_eq_false_of_isDigit h
  simp only [Lexeme.startsWord, Char.isAlpha, Bool.or_eq_false_iff] at hstart
  exact hstart.1.1

theorem upper_eq_self (h : ∀ c ∈ cs, IsCellChar c) : upper cs = cs := by
  have hplain : IsPlain cs := fun c hc => (h c hc).plain
  have hsame : cs.map Char.toUpper = cs.map id :=
    List.map_congr_left fun c hc => (h c hc).kept.2.1
  rw [upper_eq_map hplain, hsame, List.map_id]

theorem isDecimal_of_isDigit (h : c.isDigit = true) : isDecimal c = true := by
  have hall : ∀ n < 0x80, (Char.ofNat n).isDigit = true → isDecimal (Char.ofNat n) = true := by
    decide
  have hc := hall c.toNat (IsCellChar.plain (Or.inr h))
  rw [Char.ofNat_toNat] at hc
  exact hc h

/-- What has no dot goes to the first piece. -/
theorem splitDots_append {rest piece : List Char} {pieces : List (List Char)} (h : '.' ∉ cs)
    (hrest : splitDots rest = piece :: pieces) : splitDots (cs ++ rest) = (cs ++ piece) :: pieces := by
  induction cs with
  | nil => exact hrest
  | cons c cs ih =>
      rw [List.mem_cons, not_or] at h
      rw [List.cons_append, splitDots, ih h.2]
      · rfl
      · intro _ hc _
        exact h.1 hc.symm

theorem splitDots_of_not_mem (h : '.' ∉ cs) : splitDots cs = [cs] := by
  have hone := splitDots_append h (show splitDots [] = [[]] from rfl)
  rwa [List.append_nil] at hone

/-- Two texts without a dot are the pieces that two dots between them make. -/
theorem splitDots_between {ds : List Char} (hcs : '.' ∉ cs) (hds : '.' ∉ ds) :
    splitDots (cs ++ '.' :: '.' :: ds) = [cs, ds] := by
  have hdots : splitDots ('.' :: '.' :: ds) = [[], ds] := by
    rw [splitDots, splitDots_of_not_mem hds]
  rw [splitDots_append hcs hdots, List.append_nil]

end Text

namespace Coord

variable {c : Coord}

theorem toList_text (c : Coord) :
    c.text.toList = Column.word (c.col + 1) ++ Nat.toDigits 10 (c.row + 1) := by
  rw [text, String.toList_append, Column.letters, String.toList_ofList, Numeral.toList_toString]

theorem isCellChar_of_mem_text (c : Coord) : ∀ d ∈ c.text.toList, Text.IsCellChar d := by
  intro d hd
  rw [toList_text, List.mem_append] at hd
  exact hd.imp Column.isUpper_of_mem_word Numeral.isDigit_of_mem_toDigits

theorem breaks_toDigits {p : Char → Bool} (hp : ∀ d, d.isDigit = true → p d = false) (n : Nat) :
    Lexeme.Breaks p (Nat.toDigits 10 n) := by
  intro d hd
  exact hp d (Numeral.isDigit_of_mem_toDigits (List.mem_of_mem_head? hd))

/-- Capital letters and digits behind them are taken for just these. -/
theorem letters_digits {ls ds : List Char} (hletters : ∀ d ∈ ls, d.isUpper = true)
    (hdigits : ∀ d ∈ ds, d.isDigit = true) :
    (∀ d ∈ ls ++ ds, Text.IsCellChar d) ∧ letters (ls ++ ds) = ls ∧ digits (ls ++ ds) = ds := by
  have hchars : ∀ d ∈ ls ++ ds, Text.IsCellChar d := fun d hd =>
    (List.mem_append.mp hd).imp (hletters d) (hdigits d)
  have hbreaks : Lexeme.Breaks Char.isUpper ds := fun d hd =>
    Text.isUpper_eq_false_of_isDigit (hdigits d (List.mem_of_mem_head? hd))
  rw [letters, digits, Text.trim_eq_self fun d hd => (hchars d hd).kept.1, Text.upper_eq_self hchars]
  exact ⟨hchars, Lexeme.takeWhile_append_of_breaks hletters hbreaks⟩

/-- A cell is what its text names. -/
theorem read_text (h : c.isWritable = true) : read c.text.toList = .ok c := by
  obtain ⟨-, hletters, hdigits⟩ := letters_digits
    (fun d hd => Column.isUpper_of_mem_word (n := c.col + 1) hd)
    (fun d hd => Numeral.isDigit_of_mem_toDigits (n := c.row + 1) hd)
  have hall : (Nat.toDigits 10 (c.row + 1)).all Text.isDecimal = true :=
    List.all_eq_true.mpr fun d hd => Text.isDecimal_of_isDigit (Numeral.isDigit_of_mem_toDigits hd)
  rw [letters] at hletters
  rw [digits] at hdigits
  rw [read, toList_text, hletters, hdigits]
  rw [if_pos ⟨Column.word_succ_ne_nil c.col, Nat.toDigits_ne_nil, hall⟩, Numeral.read_toDigits h,
    Column.rank_word]
  rfl

theorem not_mem_text (c : Coord) : '.' ∉ c.text.toList :=
  fun h => (isCellChar_of_mem_text c '.' h).kept.2.2 rfl

/-- A text that is read as a cell holds no dot: trimming and upper case would keep it. -/
theorem not_mem_of_read {cs : List Char} (h : read cs = .ok c) : '.' ∉ cs := by
  intro hdot
  have hupper : '.' ∈ Text.upper (Text.trim cs) := by
    rw [Text.upper, List.mem_flatMap]
    exact ⟨'.', Text.mem_trim hdot (by decide), by decide⟩
  rw [← List.takeWhile_append_dropWhile (p := Char.isUpper) (l := Text.upper (Text.trim cs)),
    List.mem_append] at hupper
  rw [read] at h
  split at h
  · next hshape =>
    rcases hupper with hletter | hdigit
    · exact absurd (List.mem_takeWhile_imp hletter) (by decide)
    · exact absurd (List.all_eq_true.mp hshape.2.2 _ hdigit) (by decide)
  · cases h

/-- The one written form of a cell: capital letters, then digits that do not start with a zero. -/
def IsCanonical (cs : List Char) : Prop :=
  ∃ letters digits, cs = letters ++ digits ∧
    (letters ≠ [] ∧ ∀ d ∈ letters, d.isUpper = true) ∧
    (digits ≠ [] ∧ ∀ d ∈ digits, d.isDigit = true) ∧ digits.head? ≠ some '0'

theorem isCanonical_text (c : Coord) : IsCanonical c.text.toList :=
  ⟨_, _, toList_text c,
    ⟨Column.word_succ_ne_nil c.col, fun _ hd => Column.isUpper_of_mem_word hd⟩,
    ⟨Nat.toDigits_ne_nil, fun _ hd => Numeral.isDigit_of_mem_toDigits hd⟩,
    Numeral.head?_toDigits_ne_zero (Nat.succ_pos c.row)⟩

theorem IsCanonical.not_mem {cs : List Char} (h : IsCanonical cs) : '.' ∉ cs := by
  obtain ⟨ls, ds, rfl, ⟨-, hletters⟩, ⟨-, hdigits⟩, -⟩ := h
  exact fun hdot => ((letters_digits hletters hdigits).1 '.' hdot).kept.2.2 rfl

/-- A text in the written form is the text of the cell that it names. -/
theorem IsCanonical.eq_text {cs : List Char} (h : IsCanonical cs) (hread : read cs = .ok c) :
    cs = c.text.toList := by
  obtain ⟨ls, ds, rfl, ⟨-, hletters⟩, ⟨hne, hdigits⟩, hhead⟩ := h
  obtain ⟨-, hls, hds⟩ := letters_digits hletters hdigits
  obtain ⟨-, hrow, hcol⟩ := read_eq_ok hread
  rw [hls] at hcol
  rw [hds, Numeral.read] at hrow
  split at hrow
  · rw [toList_text, hcol, Column.word_rank hletters, ← Except.ok.inj hrow,
      (Numeral.toDigits_value hne hdigits hhead).2]
  · cases hrow

theorem isWritable_of_row_le {d : Coord} (h : d.isWritable = true) (hrow : c.row ≤ d.row) :
    c.isWritable = true := by
  rw [isWritable, ← Nat.cast_succ, Numeral.isWritable_iff] at h ⊢
  omega

end Coord

namespace Range

variable {r : Range}

theorem spanning_first_last (r : Range) : spanning r.first r.last = r := by
  have hcol := r.col_le
  have hrow := r.row_le
  obtain ⟨⟨firstCol, firstRow⟩, ⟨lastCol, lastRow⟩, _, _⟩ := r
  simp only at hcol hrow
  simp [spanning, Nat.min_eq_left hcol, Nat.min_eq_left hrow, Nat.max_eq_right hcol, Nat.max_eq_right hrow]

theorem single_first (h : r.first = r.last) : single r.first = r := by
  obtain ⟨first, last, _, _⟩ := r
  cases (show first = last from h)
  rfl

theorem toList_between (s t : String) : (s ++ ".." ++ t).toList = s.toList ++ '.' :: '.' :: t.toList := by
  simp

/-- Two cells with two dots between them name the rectangle that they span. -/
theorem read_between {cs ds : List Char} {a b : Coord} (ha : Coord.read cs = .ok a)
    (hb : Coord.read ds = .ok b) : read (cs ++ '.' :: '.' :: ds) = .ok (spanning a b) := by
  rw [read, Text.splitDots_between (Coord.not_mem_of_read ha) (Coord.not_mem_of_read hb)]
  simp only [ha, hb]
  rfl

/-- A range is what its text names. -/
theorem read_text (h : r.isWritable = true) : read r.text.toList = .ok r := by
  have hlast := Coord.read_text h
  have hfirst := Coord.read_text (Coord.isWritable_of_row_le h r.row_le)
  rw [text]
  split
  · next hsingle =>
    have hsame : r.first = r.last := of_decide_eq_true hsingle
    rw [read, Text.splitDots_of_not_mem r.first.not_mem_text]
    simp only [hfirst]
    show Except.ok (single r.first) = _
    rw [single_first hsame]
  · rw [toList_between, read_between hfirst hlast, spanning_first_last]

theorem isWritable_of_length_le (h : (Nat.toDigits 10 (r.last.row + 1)).length ≤ Numeral.maxDigits) :
    r.isWritable = true := by
  rw [isWritable, Coord.isWritable, ← Nat.cast_succ, Numeral.isWritable_iff]
  exact (Nat.length_toDigits_le_iff (by decide) (by decide)).mp h

theorem text?_of_isWritable (h : r.isWritable = true) : r.text? = .ok r.text := if_pos h

/-- The one written form of a range: a cell, or two different cells, of which the first stands neither
right of the second nor below it. -/
inductive IsCanonical : List Char → Prop
  | cell {cs : List Char} (h : Coord.IsCanonical cs) : IsCanonical cs
  | corners {cs ds : List Char} {a b : Coord} (hfirst : Coord.IsCanonical cs)
      (hlast : Coord.IsCanonical ds) (hne : cs ≠ ds) (ha : Coord.read cs = .ok a)
      (hb : Coord.read ds = .ok b) (hcol : a.col ≤ b.col) (hrow : a.row ≤ b.row) :
      IsCanonical (cs ++ '.' :: '.' :: ds)

theorem isCanonical_text (h : r.isWritable = true) : IsCanonical r.text.toList := by
  have hlast := Coord.read_text h
  have hfirst := Coord.read_text (Coord.isWritable_of_row_le h r.row_le)
  rw [text]
  split
  · exact .cell r.first.isCanonical_text
  · next hsingle =>
    have hne : r.first.text.toList ≠ r.last.text.toList := by
      -- cells with the same text would be read as the same cell
      intro hsame
      rw [hsame, hlast] at hfirst
      exact hsingle (decide_eq_true (Except.ok.inj hfirst).symm)
    rw [toList_between]
    exact .corners r.first.isCanonical_text r.last.isCanonical_text hne hfirst hlast r.col_le r.row_le

theorem toList_text_of_ne (h : r.first ≠ r.last) :
    r.text.toList = r.first.text.toList ++ '.' :: '.' :: r.last.text.toList := by
  rw [text, isSingle, if_neg (by simpa using h), toList_between]

/-- A text in the written form is the text of the range that it names. -/
theorem IsCanonical.eq_text {cs : List Char} (h : IsCanonical cs) (hread : read cs = .ok r) :
    cs = r.text.toList := by
  cases h with
  | cell h =>
      rw [read, Text.splitDots_of_not_mem h.not_mem] at hread
      obtain ⟨c, hc, hr⟩ := Results.bind_eq_ok.mp hread
      cases hr
      have hsingle : (single c).isSingle = true := decide_eq_true rfl
      rw [text, if_pos hsingle]
      exact h.eq_text hc
  | @corners cs ds a b hfirst hlast hne ha hb hcol hrow =>
      have hends : (spanning a b).first = a ∧ (spanning a b).last = b := by
        simp only [spanning, Nat.min_eq_left hcol, Nat.min_eq_left hrow, Nat.max_eq_right hcol,
          Nat.max_eq_right hrow, and_self]
      have hcells : a ≠ b := by
        rintro rfl
        exact hne ((hfirst.eq_text ha).trans (hlast.eq_text hb).symm)
      obtain rfl := Except.ok.inj ((read_between ha hb).symm.trans hread)
      have htext := toList_text_of_ne (r := spanning a b)
      rw [hends.1, hends.2] at htext
      rw [htext hcells, ← hfirst.eq_text ha, ← hlast.eq_text hb]

theorem spanning_comm (a b : Coord) : spanning a b = spanning b a := by
  simp only [spanning, Nat.min_comm a.col, Nat.min_comm a.row, Nat.max_comm a.col, Nat.max_comm a.row]

/-- The other two corners span the same rectangle. -/
theorem spanning_crossed (a b : Coord) : spanning ⟨a.col, b.row⟩ ⟨b.col, a.row⟩ = spanning a b := by
  simp only [spanning, Nat.min_comm b.row, Nat.max_comm b.row]

/-- Ranges and their texts. A range whose row numbers have at most as many digits as a number may have is
read back from its text. Any text that is read as a range has one written form, which is read as the same
range and written as it is; no other text in this form names the range. And the four texts that name
opposite corners of a rectangle are read as the same range, from its top left to its bottom right cell. -/
theorem read_normalizes :
    (∀ r : Range, (Nat.toDigits 10 (r.last.row + 1)).length ≤ Numeral.maxDigits →
      ∃ s, r.text? = .ok s ∧ read s.toList = .ok r) ∧
    (∀ cs r, read cs = .ok r →
      ∃ s, r.text? = .ok s ∧ read s.toList = .ok r ∧ (read s.toList >>= text?) = .ok s ∧
        IsCanonical s.toList ∧ ∀ cs', IsCanonical cs' → read cs' = .ok r → cs' = s.toList) ∧
    ∀ cs ds a b, Coord.read cs = .ok a → Coord.read ds = .ok b →
      (∃ us vs, Coord.read us = .ok ⟨a.col, b.row⟩ ∧ Coord.read vs = .ok ⟨b.col, a.row⟩) ∧
      ∀ us vs, Coord.read us = .ok ⟨a.col, b.row⟩ → Coord.read vs = .ok ⟨b.col, a.row⟩ →
        ∃ r, (∀ p ∈ [(cs, ds), (ds, cs), (us, vs), (vs, us)], read (p.1 ++ '.' :: '.' :: p.2) = .ok r) ∧
          r.first = ⟨min a.col b.col, min a.row b.row⟩ ∧ r.last = ⟨max a.col b.col, max a.row b.row⟩ ∧
          r.first.col ≤ r.last.col ∧ r.first.row ≤ r.last.row := by
  refine ⟨fun r hlength => ?_, fun cs r h => ?_, fun cs ds a b ha hb => ⟨?_, fun us vs hu hv => ?_⟩⟩
  · have hwritable := isWritable_of_length_le hlength
    exact ⟨r.text, text?_of_isWritable hwritable, read_text hwritable⟩
  · have hwritable := isWritable_of_read h
    have htext := text?_of_isWritable hwritable
    have hread := read_text hwritable
    exact ⟨r.text, htext, hread, Results.bind_eq_ok.mpr ⟨r, hread, htext⟩, isCanonical_text hwritable,
      fun cs' hcs' hread' => hcs'.eq_text hread'⟩
  · exact ⟨_, _, Coord.read_text (Coord.isWritable_of_row_le (Coord.isWritable_of_read hb) (Nat.le_refl _)),
      Coord.read_text (Coord.isWritable_of_row_le (Coord.isWritable_of_read ha) (Nat.le_refl _))⟩
  · have hcrossed := read_between hu hv
    have hcrossed' := read_between hv hu
    have hturned := read_between hb ha
    rw [spanning_crossed] at hcrossed
    rw [spanning_comm, spanning_crossed] at hcrossed'
    rw [spanning_comm] at hturned
    refine ⟨spanning a b, ?_, rfl, rfl, (spanning a b).col_le, (spanning a b).row_le⟩
    simp only [List.forall_mem_cons, List.not_mem_nil, false_implies, implies_true, and_true]
    exact ⟨read_between ha hb, hturned, hcrossed, hcrossed'⟩

/-- Small letters, letters whose capitals are others or several, digits of another script, leading zeros
and blanks are all gone from the written form. -/
theorem read_normalizes_of_mixed_scripts :
    ∃ r s, read " ß٠٢..\ta1".toList = .ok r ∧ r.text? = .ok s ∧ s = "A1..SS2" ∧
      read s.toList = .ok r ∧ (read s.toList >>= text?) = .ok s ∧ IsCanonical s.toList ∧
      Coord.read "ſs1".toList = .ok ⟨512, 0⟩ ∧ read "ſs1..a2".toList = .ok r ∧
      read "a2..ſs1".toList = .ok r ∧ r.first = ⟨0, 0⟩ ∧ r.last = ⟨512, 1⟩ ∧
      (Nat.toDigits 10 (r.last.row + 1)).length ≤ Numeral.maxDigits ∧
      ∃ t, r.text? = .ok t ∧ read t.toList = .ok r := by
  have ha : Coord.read " ß٠٢".toList = .ok ⟨512, 1⟩ := by decide
  have hb : Coord.read "\ta1".toList = .ok ⟨0, 0⟩ := by decide
  have hu : Coord.read "ſs1".toList = .ok ⟨512, 0⟩ := by decide
  have hv : Coord.read "a2".toList = .ok ⟨0, 1⟩ := by decide
  have hwrites : (read " ß٠٢..\ta1".toList >>= text?) = .ok "A1..SS2" := by decide +kernel
  obtain ⟨hback, hnormal, hcorners⟩ := read_normalizes
  obtain ⟨r, hall, hfirst, hlast, -, -⟩ := (hcorners _ _ _ _ ha hb).2 _ _ hu hv
  simp only [List.forall_mem_cons, List.not_mem_nil, false_implies, implies_true, and_true] at hall
  obtain ⟨hread, -, hcrossed, hturned⟩ := hall
  obtain ⟨s, htext, hagain, hwritten, hcanonical, -⟩ := hnormal _ r hread
  have hs : s = "A1..SS2" := by
    obtain ⟨r', hr', htext'⟩ := Results.bind_eq_ok.mp hwrites
    obtain rfl := Except.ok.inj (hread.symm.trans hr')
    exact Except.ok.inj (htext.symm.trans htext')
  have hlength : (Nat.toDigits 10 (r.last.row + 1)).length ≤ Numeral.maxDigits := by
    rw [hlast]
    decide
  exact ⟨r, s, hread, htext, hs, hagain, hwritten, hcanonical, hu, hcrossed, hturned, hfirst, hlast,
    hlength, hback r hlength⟩

end Range
end Wireframe
