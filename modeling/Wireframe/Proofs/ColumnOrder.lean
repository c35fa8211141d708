import Wireframe.Proofs.CellRoundTrip

/-! The order of columns. The words over the alphabet are counted in the order of their lengths, and those
of one length in alphabetical order (`lt_iff_shortlex`): there is no letter for zero, so one more letter
behind two words keeps their order whatever it is. Hence columns and their letters correspond to each
other, with the order of columns as that of their letters (`letters_ordered`). -/

namespace Wireframe.Column

variable {m n : Nat} {c d : Char} {cs ds : List Char}

theorem letter_lt_letter {d e : Nat} (h : d < e) (he : e < 26) : letter d < letter e := by
  have hall : ∀ e < 26, ∀ d < e, letter d < letter e := by decide
  exact hall e he d h

/-- Lists of one length keep their order with one more entry behind each. -/
theorem lex_append_singleton (hlength : cs.length = ds.length) (h : List.Lex (· < ·) cs ds) (c d : Char) :
    List.Lex (· < ·) (cs ++ [c]) (ds ++ [d]) := by
  induction h with
  | nil => cases hlength
  | cons _ ih => exact .cons (ih (Nat.succ.inj hlength))
  | rel hfirst => exact .rel hfirst

theorem shortlex_append_singleton (h : List.Shortlex (· < ·) cs ds) (c d : Char) :
    List.Shortlex (· < ·) (cs ++ [c]) (ds ++ [d]) := by
  have hlengths : (cs ++ [c]).length = cs.length + 1 ∧ (ds ++ [d]).length = ds.length + 1 :=
    ⟨List.length_append, List.length_append⟩
  rcases List.shortlex_def.mp h with hshorter | ⟨hlength, hlex⟩
  · exact .of_length_lt (by omega)
  · exact .of_lex (by omega) (lex_append_singleton hlength hlex c d)

/-- A word comes before the next ones. -/
theorem shortlex_word (h : m < n) : List.Shortlex (· < ·) (word m) (word n) := by
  induction m using Nat.strongRecOn generalizing n with
  | ind m ih =>
      obtain ⟨n, rfl⟩ := Nat.exists_eq_succ_of_ne_zero (Nat.ne_zero_of_lt h)
      cases m with
      | zero =>
          rw [word]
          exact (List.shortlex_nil_or_eq_nil _).resolve_right (word_succ_ne_nil n)
      | succ m =>
          rw [word, word]
          rcases Nat.lt_or_eq_of_le (Nat.div_le_div_right (c := 26) (Nat.le_of_lt (Nat.lt_of_succ_lt_succ h)))
            with hfront | hfront
          · exact shortlex_append_singleton (ih (m / 26) (by omega) hfront) _ _
          · -- the words differ in the last letter only
            rw [hfront]
            have hlast : m % 26 < n % 26 := by omega
            refine List.Shortlex.append_left ?_ _
            exact (List.shortlex_singleton_iff _ _).mpr (letter_lt_letter hlast (Nat.mod_lt n (by decide)))

theorem lt_iff_shortlex : m < n ↔ List.Shortlex (· < ·) (word m) (word n) := by
  refine ⟨shortlex_word, fun h => ?_⟩
  rcases Nat.lt_trichotomy m n with hlt | rfl | hgt
  · exact hlt
  · exact absurd h (Std.Asymm.asymm _ _ h)
  · exact absurd h (Std.Asymm.asymm _ _ (shortlex_word hgt))

/-- A letter has the place of its capital. -/
theorem place_toUpper (h : c.isAlpha = true) :
    place c.toUpper = place c ∧ c.toUpper.isUpper = true ∧ c.toNat < 0x80 := by
  have hall : ∀ n < 0x80, (Char.ofNat n).isAlpha = true →
      place (Char.ofNat n).toUpper = place (Char.ofNat n) ∧ (Char.ofNat n).toUpper.isUpper = true := by
    decide
  have hplain : c.toNat < 0x80 :=
    Lexeme.toNat_lt_of_isWordChar (by simp [Lexeme.isWordChar, Char.isAlphanum, h])
  have hc := hall c.toNat hplain
  rw [Char.ofNat_toNat] at hc
  exact ⟨(hc h).1, (hc h).2, hplain⟩

/-- Letters are counted as their capitals. -/
theorem rank_map_toUpper (h : ∀ c ∈ cs, c.isAlpha = true) : rank (cs.map Char.toUpper) = rank cs := by
  induction cs using List.reverseRecOn with
  | nil => rfl
  | append_singleton cs c ih =>
      rw [List.forall_mem_append, List.forall_mem_singleton] at h
      rw [List.map_append, List.map_singleton, rank_append_singleton, rank_append_singleton, ih h.1,
        (place_toUpper h.2).1]

/-- The word at the position of some letters is the letters in upper case. -/
theorem word_rank_of_isAlpha (h : ∀ c ∈ cs, c.isAlpha = true) : word (rank cs) = Text.upper cs := by
  have hplain : Text.IsPlain cs := fun c hc => (place_toUpper (h c hc)).2.2
  have hcapital : ∀ c ∈ cs.map Char.toUpper, c.isUpper = true :=
    List.forall_mem_map.mpr fun c hc => (place_toUpper (h c hc)).2.1
  rw [Text.upper_eq_map hplain, ← rank_map_toUpper h, word_rank hcapital]

theorem ofLetters?_eq_ok {s : String} (hne : s ≠ "") (h : ∀ c ∈ s.toList, c.isAlpha = true) :
    ofLetters? s = .ok (rank s.toList - 1) ∧
      letters (rank s.toList - 1) = String.ofList (Text.upper s.toList) := by
  have hsome : s.toList ≠ [] := fun hnil => hne (String.toList_eq_nil_iff.mp hnil)
  have hposition : rank s.toList - 1 + 1 = rank s.toList := Nat.sub_add_cancel (rank_pos hsome)
  refine ⟨if_pos ⟨hsome, List.all_eq_true.mpr h⟩, ?_⟩
  rw [letters, hposition, word_rank_of_isAlpha h]

theorem isAlpha_of_mem_letters (n : Nat) : ∀ c ∈ (letters n).toList, c.isAlpha = true := by
  intro c hc
  rw [letters, String.toList_ofList] at hc
  rw [Char.isAlpha, isUpper_of_mem_word hc, Bool.true_or]

theorem ofLetters?_letters (n : Nat) : ofLetters? (letters n) = .ok n := by
  have hne : letters n ≠ "" := by
    intro hempty
    have hnil := congrArg String.toList hempty
    rw [letters, String.toList_ofList] at hnil
    exact word_succ_ne_nil n hnil
  rw [(ofLetters?_eq_ok hne (isAlpha_of_mem_letters n)).1, letters, String.toList_ofList, rank_word]
  rfl

theorem lettersOfInt?_natCast (n : Nat) : lettersOfInt? n = .ok (letters n) := if_pos (Int.natCast_nonneg n)

/-- Columns and their letters. The letters of each column name it, and letters in any case name a column,
whose letters they are in upper case. Of two columns the first has fewer letters, or as many that come
first in alphabetical order. -/
theorem letters_ordered :
    (∀ n : Nat, lettersOfInt? n = .ok (letters n) ∧ ofLetters? (letters n) = .ok n) ∧
    (∀ s : String, s ≠ "" → (∀ c ∈ s.toList, c.isAlpha = true) →
      ∃ n : Nat, ofLetters? s = .ok n ∧ lettersOfInt? n = .ok (String.ofList (Text.upper s.toList))) ∧
    ∀ m n : Nat, m < n ↔ (letters m).length < (letters n).length ∨
      (letters m).length = (letters n).length ∧ letters m < letters n := by
  refine ⟨fun n => ⟨lettersOfInt?_natCast n, ofLetters?_letters n⟩, fun s hne hs => ?_, fun m n => ?_⟩
  · obtain ⟨hcolumn, hletters⟩ := ofLetters?_eq_ok hne hs
    exact ⟨_, hcolumn, (lettersOfInt?_natCast _).trans (congrArg Except.ok hletters)⟩
  · rw [← Nat.succ_lt_succ_iff, lt_iff_shortlex, List.shortlex_def, String.lt_iff_toList_lt, letters, letters,
      String.length_ofList, String.length_ofList, String.toList_ofList, String.toList_ofList]
    rfl

/-- `Zz` is the last column of two letters. -/
theorem letters_ordered_of_zz :
    "Zz" ≠ "" ∧ (∀ c ∈ "Zz".toList, c.isAlpha = true) ∧
      (∃ n : Nat, ofLetters? "Zz" = .ok n ∧ lettersOfInt? n = .ok "ZZ") ∧ letters 701 = "ZZ" ∧
      letters 702 = "AAA" ∧ ofLetters? (letters 702) = .ok 702 ∧
      ((letters 701).length < (letters 702).length ∨
        (letters 701).length = (letters 702).length ∧ letters 701 < letters 702) := by
  obtain ⟨hback, hupper, horder⟩ := letters_ordered
  have halpha : ∀ c ∈ "Zz".toList, c.isAlpha = true := List.all_eq_true.mp (by decide)
  have hzz := hupper "Zz" (by decide) halpha
  rw [show String.ofList (Text.upper "Zz".toList) = "ZZ" by rfl] at hzz
  have hword (s : String) (h : s.toList.all Char.isUpper = true) (n : Nat) (hn : rank s.toList = n + 1) :
      letters n = s := by
    rw [letters, ← hn, word_rank (List.all_eq_true.mp h), String.ofList_toList]
  exact ⟨by decide, halpha, hzz, hword "ZZ" rfl 701 rfl, hword "AAA" rfl 702 rfl, (hback 702).2,
    (horder 701 702).mp (Nat.lt_succ_self 701)⟩

end Wireframe.Column
