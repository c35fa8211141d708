import Wireframe.Proofs.CellText
import Wireframe.Token.Basic

/-! The shape of the tokens of a text. A ratio or a grid is two rows of digits around one other
character, and a cell is plain text. Every lexeme is read at its own position in the text
(`Lexeme.isReadIn_scan`), so both are slices of the source, and where no row of digits in the source is
too long none in them is (`Tokens.isReadable_of_read`). -/

namespace Wireframe

namespace Token

/-- The kinds of tokens that are two numbers. -/
def termKinds : List Kind := [.ratio, .grid]

/-- The kinds of tokens that name cells. -/
def cellKinds : List Kind := [.cellRef, .cellRange]

/-- The kinds of tokens that the first character tells. -/
def markedKinds : List Kind :=
  [.colon, .comma, .leftBrace, .rightBrace, .leftBracket, .rightBracket, .string, .hexColor, .themeRef]

/-- A value from which numbers can be taken, where the kind is one of those that they are taken
from. -/
structure IsReadable (kind : Kind) (value : List Char) : Prop where
  runs : kind ∈ termKinds ++ cellKinds → Numeral.RunsFit value
  terms : kind ∈ termKinds → ∀ c ∈ (value.dropWhile Char.isDigit).drop 1, c.isDigit = true
  plain : kind ∈ cellKinds → Text.IsPlain value

theorem isReadable_of_not_mem {kind : Kind} {value : List Char} (h : kind ∉ termKinds ++ cellKinds) :
    IsReadable kind value where
  runs hmem := absurd hmem h
  terms hmem := absurd (List.mem_append_left _ hmem) h
  plain hmem := absurd (List.mem_append_right _ hmem) h

end Token

namespace Lexeme

variable {text value cs left : List Char} {kind : Token.Kind} {c : Char} {l : Lexeme}

theorem punctuation?_mem (h : punctuation? c = some kind) : kind ∈ Token.markedKinds := by
  unfold punctuation? at h
  repeat' split at h
  all_goals cases h
  all_goals decide

/-- A token at the front of a text is told by its first character, or it is a word or a number. -/
theorem next_token_cases (h : next c cs = .ok (l, left)) (hsense : l.sense = .token kind value) :
    kind ∈ Token.markedKinds ∨
      (startsWord c = true ∧ l = (ofWord (c :: cs.takeWhile isWordChar) (cs.dropWhile isWordChar)).1) ∨
      (c.isDigit = true ∧
        l = (ofNumber (c :: cs.takeWhile Char.isDigit) (cs.dropWhile Char.isDigit)).1) := by
  cases isNext_of_next h with
  | space | comment | newline => cases hsense
  | punctuation hkind =>
      cases hsense
      exact Or.inl (punctuation?_mem hkind)
  | quoted | backticked | hexColor | themeRef =>
      cases hsense
      exact Or.inl (by decide)
  | word hc => exact Or.inr (Or.inl ⟨hc, rfl⟩)
  | number hc => exact Or.inr (Or.inr ⟨hc, rfl⟩)

theorem toNat_lt_of_isWordChar (h : isWordChar c = true) : c.toNat < 0x80 := by
  simp only [isWordChar, Char.isAlphanum, Char.isAlpha, Char.isUpper, Char.isLower, Char.isDigit,
    Bool.or_eq_true, Bool.and_eq_true, decide_eq_true_eq, UInt32.le_iff_toNat_le] at h
  rcases h with (h | rfl) | rfl
  · simp at h
    omega
  · decide
  · decide

theorem isWordChar_of_startsWord (h : startsWord c = true) : isWordChar c = true := by
  simp only [startsWord, Bool.or_eq_true] at h
  rcases h with h | h
  · simp only [isWordChar, Char.isAlphanum, h, Bool.true_or]
  · simp only [isWordChar, h, Bool.or_true, Bool.true_or]

theorem isPlain_word (hstart : startsWord c = true) :
    Text.IsPlain (c :: cs.takeWhile isWordChar) := by
  intro d hd
  rcases List.mem_cons.mp hd with rfl | hd
  · exact toNat_lt_of_isWordChar (isWordChar_of_startsWord hstart)
  · exact toNat_lt_of_isWordChar (List.all_eq_true.mp List.all_takeWhile d hd)

theorem isPlain_rangeTail? (h : rangeTail? cs = some (text, left)) : Text.IsPlain text := by
  unfold rangeTail? at h
  split at h
  · next rest =>
    split at h
    · next second mid hword =>
      split at h
      · cases h
        unfold word? at hword
        split at hword
        · cases hword
        · split at hword
          · next hstart =>
            cases hword
            have hdot : '.'.toNat < 0x80 := by decide
            exact List.forall_mem_cons.mpr ⟨hdot, List.forall_mem_cons.mpr ⟨hdot, isPlain_word hstart⟩⟩
          · cases hword
      · cases h
    · cases h
  · cases h

theorem isReadable_ofWord (hplain : Text.IsPlain text)
    (hsense : (ofWord text cs).1.sense = .token kind value)
    (hruns : Numeral.RunsFit (ofWord text cs).1.text) : Token.IsReadable kind value := by
  by_cases hcell : isCellShaped text = true
  · cases htail : rangeTail? cs with
    | none =>
        simp only [ofWord, if_pos hcell, htail] at hsense hruns
        cases hsense
        exact ⟨fun _ => hruns, fun hmem => absurd hmem (by decide), fun _ => hplain⟩
    | some r =>
        obtain ⟨tail, mid⟩ := r
        simp only [ofWord, if_pos hcell, htail] at hsense hruns
        cases hsense
        refine ⟨fun _ => hruns, fun hmem => absurd hmem (by decide), fun _ => ?_⟩
        exact List.forall_mem_append.mpr ⟨hplain, isPlain_rangeTail? htail⟩
  · simp only [ofWord, if_neg hcell] at hsense
    cases hsense
    exact Token.isReadable_of_not_mem (by decide)

theorem separator?_eq_some (h : separator? c = some kind) :
    c.isDigit = false ∧ kind ∈ Token.termKinds ++ [.number] := by
  unfold separator? at h
  split at h
  · next hc =>
    subst hc
    cases h
    decide
  split at h
  · next hc =>
    cases h
    rcases hc with rfl | rfl <;> decide
  split at h
  · next hc =>
    subst hc
    cases h
    decide
  · cases h

theorem numericTail?_eq_some (h : numericTail? cs = some (kind, text, left)) :
    kind ∈ Token.termKinds ++ [.number] ∧
      ∃ s ds, text = s :: ds ∧ s.isDigit = false ∧ ∀ d ∈ ds, d.isDigit = true := by
  unfold numericTail? at h
  split at h
  · cases h
  · next s cs =>
    split at h
    · next k hsep =>
      split at h
      · cases h
      · cases h
        obtain ⟨hs, hkind⟩ := separator?_eq_some hsep
        exact ⟨hkind, s, _, rfl, hs, List.all_eq_true.mp List.all_takeWhile⟩
    · cases h

/-- A word is a name or a cell, and its value is its slice. -/
theorem exists_ofWord (word left : List Char) :
    ∃ kind ∈ .identifier :: Token.cellKinds, ∃ text, (ofWord word left).1 = verbatim kind text := by
  rw [ofWord]
  split
  · split
    · exact ⟨.cellRange, by decide, _, rfl⟩
    · exact ⟨.cellRef, by decide, _, rfl⟩
  · exact ⟨.identifier, by decide, _, rfl⟩

theorem exists_ofNumber (digits left : List Char) :
    ∃ kind ∈ Token.termKinds ++ [.number], ∃ text, (ofNumber digits left).1 = verbatim kind text := by
  rw [ofNumber]
  split
  · next htail => exact ⟨_, (numericTail?_eq_some htail).1, _, rfl⟩
  · exact ⟨.number, by decide, _, rfl⟩

theorem isReadable_ofNumber {digits : List Char} (hdigits : ∀ d ∈ digits, d.isDigit = true)
    (hsense : (ofNumber digits cs).1.sense = .token kind value)
    (hruns : Numeral.RunsFit (ofNumber digits cs).1.text) : Token.IsReadable kind value := by
  cases htail : numericTail? cs with
  | none =>
      simp only [ofNumber, htail] at hsense
      cases hsense
      exact Token.isReadable_of_not_mem (by decide)
  | some r =>
      obtain ⟨k, tail, mid⟩ := r
      obtain ⟨hkind, s, ds, rfl, hs, hds⟩ := numericTail?_eq_some htail
      simp only [ofNumber, htail] at hsense hruns
      cases hsense
      refine ⟨fun _ => hruns, fun _ => ?_, fun hmem => ?_⟩
      · rw [List.dropWhile_append_of_pos hdigits, List.dropWhile_cons_of_neg (by simp [hs])]
        exact hds
      · have hother : ∀ k ∈ Token.termKinds ++ [.number], k ∉ Token.cellKinds := by decide
        exact absurd hmem (hother kind hkind)

theorem isReadable_next (h : next c cs = .ok (l, left)) (hsense : l.sense = .token kind value)
    (hruns : Numeral.RunsFit l.text) : Token.IsReadable kind value := by
  obtain hmarked | ⟨hstart, rfl⟩ | ⟨hdigit, rfl⟩ := next_token_cases h hsense
  · have hother : ∀ k ∈ Token.markedKinds, k ∉ Token.termKinds ++ Token.cellKinds := by decide
    exact Token.isReadable_of_not_mem (hother kind hmarked)
  · exact isReadable_ofWord (isPlain_word hstart) hsense hruns
  · refine isReadable_ofNumber ?_ hsense hruns
    exact List.forall_mem_cons.mpr ⟨hdigit, List.all_eq_true.mp List.all_takeWhile⟩

/-- The lexeme is read at its position in the text. -/
def Placed.IsReadIn (p : Placed) (cs : List Char) : Prop :=
  ∃ before c rest left, cs = before ++ c :: rest ∧ p.location = Location.start.advance before ∧
    next c rest = .ok (p.lexeme, left)

/-- The fault stands at its position in the text, before the end. -/
def FailsIn (fault : LexicalFault × Location) (cs : List Char) : Prop :=
  ∃ before c rest, cs = before ++ c :: rest ∧ fault.2 = Location.start.advance before ∧
    next c rest = .error fault.1

/-- Scanning goes on behind what has been read, so each lexeme, and the fault if there is one, is
read at its position in the whole text. -/
theorem isReadIn_scan (before cs : List Char) :
    match scan (Location.start.advance before) cs with
    | .ok placed => ∀ p ∈ placed, p.IsReadIn (before ++ cs)
    | .error fault => FailsIn fault (before ++ cs) := by
  -- by induction along the scan, with the text that has been read left general
  generalize hstart : Location.start.advance before = start
  fun_induction scan start cs generalizing before with
  | case1 => exact fun p hp => absurd hp List.not_mem_nil
  | case2 start c cs fault hfault => exact ⟨before, c, cs, rfl, hstart.symm, hfault⟩
  | case3 start c cs lexeme left hnext _ ih =>
      have hwhole : before ++ lexeme.text ++ left = before ++ c :: cs := by
        rw [List.append_assoc, next_append hnext]
      have hrest := ih (before ++ lexeme.text) (by rw [Location.advance_append, hstart])
      rw [hwhole] at hrest
      cases hscan : scan (start.advance lexeme.text) left with
      | error fault =>
          rw [hscan] at hrest
          exact hrest
      | ok placed =>
          rw [hscan] at hrest
          exact List.forall_mem_cons.mpr ⟨⟨before, c, cs, left, rfl, hstart.symm, hnext⟩, hrest⟩

theorem isReadIn_of_scan {placed : List Placed} (h : scan Location.start cs = .ok placed) :
    ∀ p ∈ placed, p.IsReadIn cs := by
  have hscan := isReadIn_scan [] cs
  rw [Location.advance_nil, List.nil_append, h] at hscan
  exact hscan

/-- The lexemes of a text are slices of it, so no row of digits in them is longer than those of the text. -/
theorem Placed.IsReadIn.isReadable {p : Placed} (hp : p.IsReadIn cs) (hruns : Numeral.RunsFit cs)
    (hsense : p.lexeme.sense = .token kind value) : Token.IsReadable kind value := by
  obtain ⟨before, c, rest, left, rfl, -, hnext⟩ := hp
  refine isReadable_next hnext hsense (hruns.mono ?_)
  rw [← next_append hnext]
  exact (List.prefix_append _ _).isInfix.trans (List.suffix_append _ _).isInfix

/-- A token is what one of the lexemes stands for, at the position of the lexeme. -/
theorem mem_tokens {fresh : Bool} {placed : List Placed} {t : Token} (h : t ∈ tokens fresh placed) :
    ∃ p ∈ placed, t.location = p.location ∧
      (p.lexeme.sense = .newline ∧ t.kind = .newline ∧ t.value = "\n" ∨
        p.lexeme.sense = .token t.kind t.value.toList) := by
  fun_induction tokens fresh placed with
  | case1 => cases h
  | case2 _ _ _ _ ih => exact List.exists_mem_cons_of_exists (ih h)
  | case3 _ _ _ _ ih => exact List.exists_mem_cons_of_exists (ih h)
  | case4 p _ hsense ih =>
      rcases List.mem_cons.mp h with rfl | h
      · exact ⟨p, List.mem_cons_self, rfl, Or.inl ⟨hsense, rfl, rfl⟩⟩
      · exact List.exists_mem_cons_of_exists (ih h)
  | case5 _ _ _ _ _ ih => exact List.exists_mem_cons_of_exists (ih h)
  | case6 _ p _ kind value hsense ih =>
      rcases List.mem_cons.mp h with rfl | h
      · refine ⟨p, List.mem_cons_self, rfl, Or.inr ?_⟩
        rw [hsense, String.toList_ofList]
      · exact List.exists_mem_cons_of_exists (ih h)

end Lexeme

/-- The tokens of a text without overlong rows of digits can be read for numbers. -/
theorem Tokens.isReadable_of_read {source : String} {ts : Tokens} (h : Tokens.read source = .ok ts)
    (hruns : Numeral.RunsFit source.toList) {t : Token} (ht : t ∈ ts.list) :
    Token.IsReadable t.kind t.value.toList := by
  obtain ⟨placed, hplaced, hts⟩ := Results.bind_eq_ok.mp h
  cases hts
  obtain ⟨p, hp, -, ⟨-, hnewline, -⟩ | hsense⟩ := Lexeme.mem_tokens ht
  · rw [hnewline]
    exact Token.isReadable_of_not_mem (by decide)
  · exact (Lexeme.isReadIn_of_scan hplaced p hp).isReadable hruns hsense

end Wireframe
