import Wireframe.Text.Quoted
import Wireframe.Token.Kind

/-! Lexemes: the slices that a source text is made of. Each is read off the front of the text, from its
first character, in one of ten ways (`IsNext`); what is read together with what is left is the text that
was there (`next_append`), and something is always read (`next_text_ne_nil`). -/

namespace Wireframe

/-- What is wrong where a lexeme should start. -/
inductive LexicalFault
  | unexpected (c : Char)
  | unterminated
  /-- A `#` with letters and digits after it that are no color. -/
  | badColor (run : String)
  | emptyTheme
  deriving DecidableEq, Repr

def LexicalFault.message : LexicalFault → String
  | unexpected c => "Unexpected character " ++ Text.quoted (String.singleton c)
  | unterminated => "Unterminated string"
  | badColor run => s!"Invalid hex color '#{run}': expected 3 or 6 hex digits"
  | emptyTheme => "Empty theme reference: '$' must be followed by a name"

/-- What a lexeme stands for: nothing, an end of line, or a token with its value. -/
inductive Sense
  | space
  | comment
  | newline
  | token (kind : Token.Kind) (value : List Char)
  deriving DecidableEq, Repr

/-- A slice of the source and what it stands for. -/
structure Lexeme where
  text : List Char
  sense : Sense
  deriving DecidableEq, Repr

namespace Lexeme

/-- A token whose value is the slice itself. -/
def verbatim (kind : Token.Kind) (text : List Char) : Lexeme := ⟨text, .token kind text⟩

def isSpace (c : Char) : Bool := c = ' ' || c = '\t' || c = '\r'

def punctuation? (c : Char) : Option Token.Kind :=
  if c = ':' then some .colon
  else if c = ',' then some .comma
  else if c = '\x7b' then some .leftBrace
  else if c = '\x7d' then some .rightBrace
  else if c = '[' then some .leftBracket
  else if c = ']' then some .rightBracket
  else none

/-- What a character means after a backslash. -/
def unescape (c : Char) : Char :=
  if c = 'n' then '\n' else if c = 't' then '\t' else if c = 'r' then '\r' else c

/-- The value of a quoted text, its slice up to and with the closing quote, and what is left; nothing
when no quote closes it. A backslash takes the next character with it. -/
def quotedBody (quote : Char) : List Char → Option (List Char × List Char × List Char)
  | [] => none
  | c :: cs =>
    if c = quote then some ([], [c], cs)
    else if c = '\\' then match cs with
      | [] => none
      | e :: rest => (quotedBody quote rest).map fun (value, slice, left) =>
        (unescape e :: value, c :: e :: slice, left)
    else (quotedBody quote cs).map fun (value, slice, left) => (c :: value, c :: slice, left)

def backtick : Char := '\x60'

/-- The text between backticks, its slice from after the first one, and what is left. -/
def backtickBody (cs : List Char) : Option (List Char × List Char × List Char) :=
  match cs.dropWhile (· ≠ backtick) with
  | [] => none
  | c :: left =>
    let value := cs.takeWhile (· ≠ backtick)
    some (value, value ++ [c], left)

def isHexDigit (c : Char) : Bool :=
  c.isDigit || ('a' ≤ c && c ≤ 'f') || ('A' ≤ c && c ≤ 'F')

def isThemeChar (c : Char) : Bool := c.isAlphanum || c = '_' || c = '-'

def startsWord (c : Char) : Bool := c.isAlpha || c = '_'

def isWordChar (c : Char) : Bool := c.isAlphanum || c = '_' || c = '-'

/-- Letters followed by digits. -/
def isCellShaped (word : List Char) : Bool :=
  let digits := word.dropWhile Char.isAlpha
  word.takeWhile Char.isAlpha ≠ [] && digits ≠ [] && digits.all Char.isDigit

/-- The word at the front of a text, and what is left. -/
def word? : List Char → Option (List Char × List Char)
  | [] => none
  | c :: cs =>
    if startsWord c then some (c :: cs.takeWhile isWordChar, cs.dropWhile isWordChar) else none

/-- Two dots and a cell-shaped word at the front of a text, and what is left. -/
def rangeTail? : List Char → Option (List Char × List Char)
  | '.' :: '.' :: cs => match word? cs with
    | some (second, left) =>
      if isCellShaped second then some ('.' :: '.' :: second, left) else none
    | none => none
  | _ => none

/-- A word is a name unless it has the shape of a cell; a cell may go on to a range. -/
def ofWord (word left : List Char) : Lexeme × List Char :=
  if isCellShaped word then
    match rangeTail? left with
    | some (tail, left) => (verbatim .cellRange (word ++ tail), left)
    | none => (verbatim .cellRef word, left)
  else (verbatim .identifier word, left)

/-- The kind of number that a separator between two rows of digits makes. -/
def separator? (c : Char) : Option Token.Kind :=
  if c = ':' then some .ratio
  else if c = 'x' ∨ c = 'X' then some .grid
  else if c = '.' then some .number
  else none

/-- A separator with digits after it at the front of a text, and what is left. -/
def numericTail? : List Char → Option (Token.Kind × List Char × List Char)
  | [] => none
  | c :: cs => match separator? c with
    | some kind =>
      if cs.takeWhile Char.isDigit = [] then none
      else some (kind, c :: cs.takeWhile Char.isDigit, cs.dropWhile Char.isDigit)
    | none => none

def ofNumber (digits left : List Char) : Lexeme × List Char :=
  match numericTail? left with
  | some (kind, tail, left) => (verbatim kind (digits ++ tail), left)
  | none => (verbatim .number digits, left)

/-- The lexeme at the front of the text `c :: cs`, and what is left. -/
def next (c : Char) (cs : List Char) : Except LexicalFault (Lexeme × List Char) :=
  if isSpace c then .ok (⟨[c], .space⟩, cs)
  else if c = '/' ∧ cs.head? = some '/' then
    .ok (⟨c :: cs.takeWhile (· ≠ '\n'), .comment⟩, cs.dropWhile (· ≠ '\n'))
  else if c = '\n' then .ok (⟨[c], .newline⟩, cs)
  else match punctuation? c with
  | some kind => .ok (verbatim kind [c], cs)
  | none =>
    if c = '"' ∨ c = '\'' then match quotedBody c cs with
      | some (value, slice, left) => .ok (⟨c :: slice, .token .string value⟩, left)
      | none => .error .unterminated
    else if c = backtick then match backtickBody cs with
      | some (value, slice, left) => .ok (⟨c :: slice, .token .string value⟩, left)
      | none => .error .unterminated
    else if c = '#' then
      let run := cs.takeWhile Char.isAlphanum
      if (run.length = 3 ∨ run.length = 6) ∧ run.all isHexDigit then
        .ok (verbatim .hexColor (c :: run), cs.dropWhile Char.isAlphanum)
      else .error (.badColor (String.ofList run))
    else if c = '$' then
      if cs.takeWhile isThemeChar = [] then .error .emptyTheme
      else .ok (verbatim .themeRef (c :: cs.takeWhile isThemeChar), cs.dropWhile isThemeChar)
    else if startsWord c then
      .ok (ofWord (c :: cs.takeWhile isWordChar) (cs.dropWhile isWordChar))
    else if c.isDigit then
      .ok (ofNumber (c :: cs.takeWhile Char.isDigit) (cs.dropWhile Char.isDigit))
    else .error (.unexpected c)

/-! ### What is read and what is left make up the text -/

theorem quotedBody_append {q : Char} {cs value slice left : List Char}
    (h : quotedBody q cs = some (value, slice, left)) : slice ++ left = cs := by
  fun_induction quotedBody q cs generalizing value slice left with
  | case1 => simp at h
  | case2 =>
    simp only [Option.some.injEq, Prod.mk.injEq] at h
    obtain ⟨-, rfl, rfl⟩ := h
    rfl
  | case3 => simp at h
  | case4 e rest _ ih =>
    obtain ⟨⟨v, s, l⟩, hq, heq⟩ := Option.map_eq_some_iff.1 h
    simp only [Prod.mk.injEq] at heq
    obtain ⟨-, rfl, rfl⟩ := heq
    simp [ih hq]
  | case5 c cs _ _ ih =>
    obtain ⟨⟨v, s, l⟩, hq, heq⟩ := Option.map_eq_some_iff.1 h
    simp only [Prod.mk.injEq] at heq
    obtain ⟨-, rfl, rfl⟩ := heq
    simp [ih hq]

theorem backtickBody_append {cs value slice left : List Char}
    (h : backtickBody cs = some (value, slice, left)) : slice ++ left = cs := by
  unfold backtickBody at h
  split at h
  · simp at h
  · next c l hd =>
    simp only [Option.some.injEq, Prod.mk.injEq] at h
    obtain ⟨rfl, rfl, rfl⟩ := h
    have := List.takeWhile_append_dropWhile (p := (· ≠ backtick)) (l := cs)
    rw [hd] at this
    simpa using this

theorem word?_append {cs word left : List Char} (h : word? cs = some (word, left)) :
    word ++ left = cs := by
  unfold word? at h
  split at h
  · simp at h
  · split at h
    · simp only [Option.some.injEq, Prod.mk.injEq] at h
      obtain ⟨rfl, rfl⟩ := h
      simp
    · simp at h

theorem rangeTail?_append {cs tail left : List Char} (h : rangeTail? cs = some (tail, left)) :
    tail ++ left = cs := by
  unfold rangeTail? at h
  split at h
  · split at h
    · next hw =>
      split at h
      · simp only [Option.some.injEq, Prod.mk.injEq] at h
        obtain ⟨rfl, rfl⟩ := h
        simp [word?_append hw]
      · simp at h
    · simp at h
  · simp at h

theorem ofWord_append (word left : List Char) :
    (ofWord word left).1.text ++ (ofWord word left).2 = word ++ left := by
  unfold ofWord
  split
  · split
    · next h => simp [verbatim, rangeTail?_append h]
    · rfl
  · rfl

theorem numericTail?_append {cs tail left : List Char} {kind : Token.Kind}
    (h : numericTail? cs = some (kind, tail, left)) : tail ++ left = cs := by
  unfold numericTail? at h
  split at h
  · simp at h
  · split at h
    · split at h
      · simp at h
      · simp only [Option.some.injEq, Prod.mk.injEq] at h
        obtain ⟨-, rfl, rfl⟩ := h
        simp
    · simp at h

theorem ofNumber_append (digits left : List Char) :
    (ofNumber digits left).1.text ++ (ofNumber digits left).2 = digits ++ left := by
  unfold ofNumber
  split
  · next h => simp [verbatim, numericTail?_append h]
  · rfl

theorem head?_ofWord (c : Char) (word left : List Char) :
    (ofWord (c :: word) left).1.text.head? = some c := by
  unfold ofWord
  split
  · split <;> rfl
  · rfl

theorem head?_ofNumber (c : Char) (digits left : List Char) :
    (ofNumber (c :: digits) left).1.text.head? = some c := by
  unfold ofNumber
  split <;> rfl

/-- How a lexeme is read off the front of the text `c :: cs`, and what it leaves. -/
inductive IsNext (c : Char) (cs : List Char) : Lexeme → List Char → Prop
  | space (hc : isSpace c = true) : IsNext c cs ⟨[c], .space⟩ cs
  | comment (hc : c = '/' ∧ cs.head? = some '/') :
      IsNext c cs ⟨c :: cs.takeWhile (· ≠ '\n'), .comment⟩ (cs.dropWhile (· ≠ '\n'))
  | newline (hc : c = '\n') : IsNext c cs ⟨[c], .newline⟩ cs
  | punctuation {kind : Token.Kind} (hkind : punctuation? c = some kind) :
      IsNext c cs (verbatim kind [c]) cs
  | quoted {value slice left : List Char} (hc : c = '"' ∨ c = '\'')
      (hbody : quotedBody c cs = some (value, slice, left)) :
      IsNext c cs ⟨c :: slice, .token .string value⟩ left
  | backticked {value slice left : List Char} (hc : c = backtick)
      (hbody : backtickBody cs = some (value, slice, left)) :
      IsNext c cs ⟨c :: slice, .token .string value⟩ left
  | hexColor (hc : c = '#')
      (hrun : ((cs.takeWhile Char.isAlphanum).length = 3 ∨ (cs.takeWhile Char.isAlphanum).length = 6) ∧
        (cs.takeWhile Char.isAlphanum).all isHexDigit = true) :
      IsNext c cs (verbatim .hexColor (c :: cs.takeWhile Char.isAlphanum)) (cs.dropWhile Char.isAlphanum)
  | themeRef (hc : c = '$') (hname : cs.takeWhile isThemeChar ≠ []) :
      IsNext c cs (verbatim .themeRef (c :: cs.takeWhile isThemeChar)) (cs.dropWhile isThemeChar)
  | word (hc : startsWord c = true) :
      IsNext c cs (ofWord (c :: cs.takeWhile isWordChar) (cs.dropWhile isWordChar)).1
        (ofWord (c :: cs.takeWhile isWordChar) (cs.dropWhile isWordChar)).2
  | number (hc : c.isDigit = true) :
      IsNext c cs (ofNumber (c :: cs.takeWhile Char.isDigit) (cs.dropWhile Char.isDigit)).1
        (ofNumber (c :: cs.takeWhile Char.isDigit) (cs.dropWhile Char.isDigit)).2

/-- All that `next` can read. -/
theorem isNext_of_next {c : Char} {cs left : List Char} {l : Lexeme}
    (h : next c cs = .ok (l, left)) : IsNext c cs l left := by
  unfold next at h
  split at h
  · next hc =>
    cases h
    exact .space hc
  split at h
  · next hc =>
    cases h
    exact .comment hc
  split at h
  · next hc =>
    cases h
    exact .newline hc
  split at h
  · next hkind =>
    cases h
    exact .punctuation hkind
  split at h
  · next hc =>
    split at h
    · next hbody =>
      cases h
      exact .quoted hc hbody
    · cases h
  split at h
  · next hc =>
    split at h
    · next hbody =>
      cases h
      exact .backticked hc hbody
    · cases h
  split at h
  · next hc =>
    simp only at h
    split at h
    · next hrun =>
      cases h
      exact .hexColor hc hrun
    · cases h
  split at h
  · next hc =>
    split at h
    · cases h
    · next hname =>
      cases h
      exact .themeRef hc hname
  split at h
  · next hc =>
    obtain ⟨rfl, rfl⟩ := Prod.mk.inj (Except.ok.inj h)
    exact .word hc
  split at h
  · next hc =>
    obtain ⟨rfl, rfl⟩ := Prod.mk.inj (Except.ok.inj h)
    exact .number hc
  · cases h

theorem next_append {c : Char} {cs left : List Char} {l : Lexeme}
    (h : next c cs = .ok (l, left)) : l.text ++ left = c :: cs := by
  cases isNext_of_next h with
  | space | newline | punctuation => rfl
  | comment | hexColor | themeRef =>
      exact congrArg (c :: ·) List.takeWhile_append_dropWhile
  | quoted _ hbody => exact congrArg (c :: ·) (quotedBody_append hbody)
  | backticked _ hbody => exact congrArg (c :: ·) (backtickBody_append hbody)
  | word =>
      rw [ofWord_append, List.cons_append, List.takeWhile_append_dropWhile]
  | number =>
      rw [ofNumber_append, List.cons_append, List.takeWhile_append_dropWhile]

/-- A lexeme starts with the first character of the text. -/
theorem next_head? {c : Char} {cs left : List Char} {l : Lexeme}
    (h : next c cs = .ok (l, left)) : l.text.head? = some c := by
  cases isNext_of_next h with
  | word => exact head?_ofWord c _ _
  | number => exact head?_ofNumber c _ _
  | _ => rfl

theorem next_text_ne_nil {c : Char} {cs left : List Char} {l : Lexeme}
    (h : next c cs = .ok (l, left)) : l.text ≠ [] := by
  intro hnil
  simpa [hnil] using next_head? h

/-- What is left is shorter than the text. -/
theorem next_length_lt {c : Char} {cs left : List Char} {l : Lexeme}
    (h : next c cs = .ok (l, left)) : left.length < (c :: cs).length := by
  have happ := congrArg List.length (next_append h)
  have hpos := List.length_pos_iff.2 (next_text_ne_nil h)
  rw [List.length_append] at happ
  omega

end Lexeme
end Wireframe
