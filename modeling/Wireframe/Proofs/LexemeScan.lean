import Wireframe.Proofs.Results
import Wireframe.Token.Basic

/-! Scanning a text that is put together from pieces. Each lemma on `Reads` says what a piece stands for
when it stands in front of more text: an end of line, a punctuation mark, a word, a number, a quoted
text. Positions play no part in it, so tokens are given by their shapes (`Tokens.exists_read`). -/

namespace Wireframe

/-- A token apart from its position. -/
def Token.shape (t : Token) : Token.Kind × String := (t.kind, t.value)

namespace Lexeme

/-- What the lexemes of the text stand for, one after another, wherever the text starts. -/
def Reads (cs : List Char) (senses : List Sense) : Prop :=
  ∀ l, ∃ placed, scan l cs = .ok placed ∧ placed.map (·.lexeme.sense) = senses

variable {c : Char} {cs word left rest text : List Char} {senses : List Sense} {l : Lexeme}
  {kind : Token.Kind}

theorem reads_nil : Reads [] [] := by
  intro start
  refine ⟨[], ?_, rfl⟩
  rw [scan]

theorem Reads.cons (hnext : next c cs = .ok (l, left)) (h : Reads left senses) :
    Reads (c :: cs) (l.sense :: senses) := by
  intro start
  obtain ⟨placed, hscan, hsenses⟩ := h (start.advance l.text)
  refine ⟨⟨l, start⟩ :: placed, ?_, ?_⟩
  · rw [scan]
    split
    · next fault hfault =>
      rw [hnext] at hfault
      cases hfault
    · next found mid hfound =>
      rw [hnext] at hfound
      cases hfound
      rw [hscan]
      rfl
  · rw [List.map_cons, hsenses]

/-- The characters that are decided on before words and numbers are. -/
def marks : List Char :=
  [' ', '\t', '\r', '/', '\n', ':', ',', '\x7b', '\x7d', '[', ']', '"', '\'', backtick, '#', '$']

theorem not_mem_marks {p : Char → Bool} (hp : marks.all (!p ·) = true) (h : p c = true) : c ∉ marks := by
  intro hmem
  have hc := List.all_eq_true.mp hp c hmem
  rw [h] at hc
  cases hc

theorem next_of_not_mem_marks (h : c ∉ marks) :
    next c cs =
      if startsWord c then .ok (ofWord (c :: cs.takeWhile isWordChar) (cs.dropWhile isWordChar))
      else if c.isDigit then
        .ok (ofNumber (c :: cs.takeWhile Char.isDigit) (cs.dropWhile Char.isDigit))
      else .error (.unexpected c) := by
  simp only [marks, List.mem_cons, List.not_mem_nil, or_false, not_or] at h
  simp only [next, isSpace, punctuation?, h, decide_false, Bool.or_self, Bool.false_eq_true, false_and,
    or_self, if_false]

/-- The text is at an end or goes on with a character outside the class. -/
def Breaks (p : Char → Bool) (cs : List Char) : Prop := ∀ c ∈ cs.head?, p c = false

theorem breaks_nil (p : Char → Bool) : Breaks p [] := fun _ h => absurd h (Option.not_mem_none _)

theorem breaks_cons {p : Char → Bool} (h : p c = false) : Breaks p (c :: cs) := by
  intro d hd
  cases hd
  exact h

theorem takeWhile_append_of_breaks {p : Char → Bool} (hword : ∀ d ∈ word, p d = true)
    (hrest : Breaks p rest) : (word ++ rest).takeWhile p = word ∧ (word ++ rest).dropWhile p = rest := by
  rw [List.takeWhile_append_of_pos hword, List.dropWhile_append_of_pos hword]
  cases rest with
  | nil => exact ⟨List.append_nil word, rfl⟩
  | cons d ds =>
      have hd : p d = false := hrest d rfl
      rw [List.takeWhile_cons_of_neg (by simp [hd]), List.dropWhile_cons_of_neg (by simp [hd])]
      exact ⟨List.append_nil word, rfl⟩

theorem next_word (hstart : startsWord c = true) (hword : ∀ d ∈ word, isWordChar d = true)
    (hrest : Breaks isWordChar rest) : next c (word ++ rest) = .ok (ofWord (c :: word) rest) := by
  obtain ⟨htake, hdrop⟩ := takeWhile_append_of_breaks hword hrest
  rw [next_of_not_mem_marks (not_mem_marks (by decide) hstart), if_pos hstart, htake, hdrop]

theorem startsWord_eq_false_of_isDigit (h : c.isDigit = true) : startsWord c = false := by
  rw [Bool.eq_false_iff]
  intro hstart
  simp only [Char.isDigit, startsWord, Char.isAlpha, Char.isUpper, Char.isLower, Bool.or_eq_true,
    Bool.and_eq_true, decide_eq_true_eq, UInt32.le_iff_toNat_le] at h hstart
  rcases hstart with (hupper | hlower) | rfl
  · simp at h hupper
    omega
  · simp at h hlower
    omega
  · simp at h

theorem next_number (hdigit : c.isDigit = true) (hword : ∀ d ∈ word, d.isDigit = true)
    (hrest : Breaks Char.isDigit rest) : next c (word ++ rest) = .ok (ofNumber (c :: word) rest) := by
  obtain ⟨htake, hdrop⟩ := takeWhile_append_of_breaks hword hrest
  have hstart := startsWord_eq_false_of_isDigit hdigit
  rw [next_of_not_mem_marks (not_mem_marks (by decide) hdigit), if_neg (by simp [hstart]), if_pos hdigit,
    htake, hdrop]

theorem Reads.space (hc : isSpace c = true) (h : Reads cs senses) : Reads (c :: cs) (.space :: senses) := by
  refine Reads.cons (l := ⟨[c], .space⟩) ?_ h
  rw [next, if_pos hc]

theorem Reads.newline (h : Reads cs senses) : Reads ('\n' :: cs) (.newline :: senses) :=
  Reads.cons (l := ⟨['\n'], .newline⟩) rfl h

theorem next_punctuation (hkind : punctuation? c = some kind) : next c cs = .ok (verbatim kind [c], cs) := by
  have hmark : c ∈ [':', ',', '\x7b', '\x7d', '[', ']'] := by
    rw [punctuation?] at hkind
    grind
  have hspace : isSpace c = false ∧ c ≠ '/' ∧ c ≠ '\n' := by
    simp only [List.mem_cons, List.not_mem_nil, or_false] at hmark
    rcases hmark with rfl | rfl | rfl | rfl | rfl | rfl <;> decide
  simp only [next, hspace, Bool.false_eq_true, false_and, if_false, hkind]

theorem Reads.punctuation (hkind : punctuation? c = some kind) (h : Reads cs senses) :
    Reads (c :: cs) (.token kind [c] :: senses) :=
  h.cons (next_punctuation hkind)

theorem next_identifier (hstart : startsWord c = true) (hword : ∀ d ∈ word, isWordChar d = true)
    (hname : isCellShaped (c :: word) = false) (hrest : Breaks isWordChar rest) :
    next c (word ++ rest) = .ok (verbatim .identifier (c :: word), rest) := by
  rw [next_word hstart hword hrest, ofWord, if_neg (by simp [hname])]

theorem Reads.identifier (hstart : startsWord c = true) (hword : ∀ d ∈ word, isWordChar d = true)
    (hname : isCellShaped (c :: word) = false) (hrest : Breaks isWordChar rest) (h : Reads rest senses) :
    Reads (c :: (word ++ rest)) (.token .identifier (c :: word) :: senses) :=
  h.cons (next_identifier hstart hword hname hrest)

theorem rangeTail?_of_breaks (h : Breaks (· = '.') cs) : rangeTail? cs = none := by
  unfold rangeTail?
  split
  · exact absurd (h '.' rfl) (by decide)
  · rfl

theorem next_cellRef (hstart : startsWord c = true) (hword : ∀ d ∈ word, isWordChar d = true)
    (hcell : isCellShaped (c :: word) = true) (hrest : Breaks isWordChar rest)
    (hdot : Breaks (· = '.') rest) : next c (word ++ rest) = .ok (verbatim .cellRef (c :: word), rest) := by
  rw [next_word hstart hword hrest]
  simp only [ofWord, if_pos hcell, rangeTail?_of_breaks hdot]

theorem Reads.cellRef (hstart : startsWord c = true) (hword : ∀ d ∈ word, isWordChar d = true)
    (hcell : isCellShaped (c :: word) = true) (hrest : Breaks isWordChar rest)
    (hdot : Breaks (· = '.') rest) (h : Reads rest senses) :
    Reads (c :: (word ++ rest)) (.token .cellRef (c :: word) :: senses) :=
  h.cons (next_cellRef hstart hword hcell hrest hdot)

theorem next_cellRange {d : Char} {second : List Char} (hstart : startsWord c = true)
    (hword : ∀ e ∈ word, isWordChar e = true) (hcell : isCellShaped (c :: word) = true)
    (hstart' : startsWord d = true) (hsecond : ∀ e ∈ second, isWordChar e = true)
    (hcell' : isCellShaped (d :: second) = true) (hrest : Breaks isWordChar rest) :
    next c (word ++ '.' :: '.' :: d :: (second ++ rest)) =
      .ok (verbatim .cellRange (c :: word ++ '.' :: '.' :: d :: second), rest) := by
  obtain ⟨htake, hdrop⟩ := takeWhile_append_of_breaks hsecond hrest
  have htail : rangeTail? ('.' :: '.' :: d :: (second ++ rest)) =
      some ('.' :: '.' :: d :: second, rest) := by
    simp only [rangeTail?, word?, if_pos hstart', htake, hdrop, if_pos hcell']
  have hbreaks : Breaks isWordChar ('.' :: '.' :: d :: (second ++ rest)) := breaks_cons (by decide)
  rw [next_word hstart hword hbreaks]
  simp only [ofWord, if_pos hcell, htail]

/-- Two words in the shape of cells, with two dots between them. -/
theorem Reads.cellRange {d : Char} {second : List Char} (hstart : startsWord c = true)
    (hword : ∀ e ∈ word, isWordChar e = true) (hcell : isCellShaped (c :: word) = true)
    (hstart' : startsWord d = true) (hsecond : ∀ e ∈ second, isWordChar e = true)
    (hcell' : isCellShaped (d :: second) = true) (hrest : Breaks isWordChar rest)
    (h : Reads rest senses) :
    Reads (c :: (word ++ '.' :: '.' :: d :: (second ++ rest)))
      (.token .cellRange (c :: word ++ '.' :: '.' :: d :: second) :: senses) :=
  h.cons (next_cellRange hstart hword hcell hstart' hsecond hcell' hrest)

theorem next_plainNumber (hdigit : c.isDigit = true) (hword : ∀ d ∈ word, d.isDigit = true)
    (hrest : Breaks Char.isDigit rest) (hsep : ∀ d ∈ rest.head?, separator? d = none) :
    next c (word ++ rest) = .ok (verbatim .number (c :: word), rest) := by
  have htail : numericTail? rest = none := by
    cases rest with
    | nil => rfl
    | cons d ds => simp only [numericTail?, hsep d rfl]
  rw [next_number hdigit hword hrest]
  simp only [ofNumber, htail]

theorem Reads.number (hdigit : c.isDigit = true) (hword : ∀ d ∈ word, d.isDigit = true)
    (hrest : Breaks Char.isDigit rest) (hsep : ∀ d ∈ rest.head?, separator? d = none)
    (h : Reads rest senses) : Reads (c :: (word ++ rest)) (.token .number (c :: word) :: senses) :=
  h.cons (next_plainNumber hdigit hword hrest hsep)

theorem next_terms {d e : Char} {second : List Char} (hdigit : c.isDigit = true)
    (hword : ∀ d ∈ word, d.isDigit = true) (hsep : separator? d = some kind)
    (hdigit' : e.isDigit = true) (hsecond : ∀ e ∈ second, e.isDigit = true)
    (hrest : Breaks Char.isDigit rest) :
    next c (word ++ d :: e :: (second ++ rest)) =
      .ok (verbatim kind (c :: word ++ d :: e :: second), rest) := by
  have hdigits : ∀ d ∈ e :: second, d.isDigit = true := List.forall_mem_cons.mpr ⟨hdigit', hsecond⟩
  obtain ⟨htake, hdrop⟩ := takeWhile_append_of_breaks hdigits hrest
  rw [List.cons_append] at htake hdrop
  have htail : numericTail? (d :: e :: (second ++ rest)) = some (kind, d :: e :: second, rest) := by
    simp only [numericTail?, hsep, htake, hdrop, reduceCtorEq, if_false]
  have hseparator : d.isDigit = false := by
    rw [separator?] at hsep
    split at hsep
    · next hd => subst hd; rfl
    split at hsep
    · next hd => rcases hd with rfl | rfl <;> rfl
    split at hsep
    · next hd => subst hd; rfl
    · cases hsep
  have hbreaks : Breaks Char.isDigit (d :: e :: (second ++ rest)) := breaks_cons hseparator
  rw [next_number hdigit hword hbreaks]
  simp only [ofNumber, htail]

/-- Two rows of digits with a separator between them. -/
theorem Reads.terms {d e : Char} {second : List Char} (hdigit : c.isDigit = true)
    (hword : ∀ d ∈ word, d.isDigit = true) (hsep : separator? d = some kind)
    (hdigit' : e.isDigit = true) (hsecond : ∀ e ∈ second, e.isDigit = true)
    (hrest : Breaks Char.isDigit rest) (h : Reads rest senses) :
    Reads (c :: (word ++ d :: e :: (second ++ rest)))
      (.token kind (c :: word ++ d :: e :: second) :: senses) :=
  h.cons (next_terms hdigit hword hsep hdigit' hsecond hrest)

/-- A text as it stands between double quotes: a backslash before each backslash and each quote. -/
def escaped (cs : List Char) : List Char :=
  cs.flatMap fun c => if c = '\\' ∨ c = '"' then ['\\', c] else [c]

theorem quotedBody_quote (q : Char) (cs : List Char) : quotedBody q (q :: cs) = some ([], [q], cs) := by
  rw [quotedBody.eq_def]
  exact if_pos rfl

theorem quotedBody_escape {q : Char} (hq : q ≠ '\\') (e : Char) (cs : List Char) :
    quotedBody q ('\\' :: e :: cs) = (quotedBody q cs).map fun (value, slice, left) =>
      (unescape e :: value, '\\' :: e :: slice, left) := by
  rw [quotedBody.eq_def]
  exact (if_neg hq.symm).trans (if_pos rfl)

theorem quotedBody_plain {q : Char} (hquote : c ≠ q) (hslash : c ≠ '\\') (cs : List Char) :
    quotedBody q (c :: cs) = (quotedBody q cs).map fun (value, slice, left) =>
      (c :: value, c :: slice, left) := by
  rw [quotedBody.eq_def]
  exact (if_neg hquote).trans (if_neg hslash)

theorem quotedBody_escaped (cs rest : List Char) :
    quotedBody '"' (escaped cs ++ '"' :: rest) = some (cs, escaped cs ++ ['"'], rest) := by
  induction cs with
  | nil => exact quotedBody_quote '"' rest
  | cons c cs ih =>
      rw [escaped, List.flatMap_cons, ← escaped]
      by_cases hspecial : c = '\\' ∨ c = '"'
      · have hmeans : unescape c = c := by rcases hspecial with rfl | rfl <;> decide
        rw [if_pos hspecial, List.append_assoc, List.cons_append, List.singleton_append,
          quotedBody_escape (by decide), ih, Option.map_some, hmeans]
        rfl
      · rw [not_or] at hspecial
        rw [if_neg (not_or.mpr hspecial), List.append_assoc, List.singleton_append,
          quotedBody_plain hspecial.2 hspecial.1, ih, Option.map_some]
        rfl

theorem Reads.quoted (text : List Char) (h : Reads rest senses) :
    Reads ('"' :: (escaped text ++ '"' :: rest)) (.token .string text :: senses) := by
  refine Reads.cons (l := ⟨'"' :: (escaped text ++ ['"']), .token .string text⟩) ?_ h
  have hpunctuation : punctuation? '"' = none := by decide
  simp only [next, isSpace, Char.reduceEq, decide_false, Bool.or_self, Bool.false_eq_true, false_and,
    if_false, hpunctuation, true_or, if_true, quotedBody_escaped]

/-- The shapes of the tokens that lexemes stand for; `fresh` is as for `tokens`. -/
def shapes (fresh : Bool) : List Sense → List (Token.Kind × String)
  | [] => []
  | .space :: senses | .comment :: senses => shapes fresh senses
  | .newline :: senses =>
    if fresh then (.newline, "\n") :: shapes false senses else shapes fresh senses
  | .token kind value :: senses => (kind, String.ofList value) :: shapes true senses

theorem map_shape_tokens (fresh : Bool) (placed : List Placed) :
    (tokens fresh placed).map Token.shape = shapes fresh (placed.map (·.lexeme.sense)) := by
  fun_induction tokens fresh placed with
  | case1 => rfl
  | case2 fresh p ps hsense ih => rw [List.map_cons, hsense, shapes, ih]
  | case3 fresh p ps hsense ih => rw [List.map_cons, hsense, shapes, ih]
  | case4 p ps hsense ih =>
      rw [List.map_cons, List.map_cons, hsense, shapes, ih, if_pos rfl]
      rfl
  | case5 fresh p ps hsense hstale ih => rw [List.map_cons, hsense, shapes, ih, if_neg hstale]
  | case6 fresh p ps kind value hsense ih =>
      rw [List.map_cons, List.map_cons, hsense, shapes, ih]
      rfl

end Lexeme

/-- The tokens of a text have the shapes of what its lexemes stand for. -/
theorem Tokens.exists_read {source : String} {senses : List Sense}
    (h : Lexeme.Reads source.toList senses) :
    ∃ ts, Tokens.read source = .ok ts ∧ ts.list.map Token.shape = Lexeme.shapes true senses := by
  obtain ⟨placed, hscan, rfl⟩ := h .start
  refine ⟨⟨Lexeme.tokens true placed, Location.start.advance source.toList⟩, ?_, ?_⟩
  · rw [Tokens.read, hscan]
    rfl
  · exact Lexeme.map_shape_tokens true placed

end Wireframe
