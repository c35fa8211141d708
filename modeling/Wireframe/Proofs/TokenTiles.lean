import Wireframe.Proofs.DocumentPhrases
import Wireframe.Proofs.TokenLocations

/-! The tokens of a text tile it. Between the slices that are tokens stand gaps of spaces, ends of line
and comments, and every character belongs to one slice or one gap. A gap with an end of line in it is one
token, at the first end of line, and any other gap is none (`Tokens.read_tiles`). What a slice looks like
is said apart from how it is scanned (`Lexeme.Spells`). -/

namespace Wireframe

namespace Lexeme

/-- The text is at its end or goes on with an end of line. -/
def EndsLine (cs : List Char) : Prop := ∀ c ∈ cs.head?, c = '\n'

/-- Spaces, ends of line and comments in front of `rest`. A comment takes the rest of its line. -/
inductive IsGap (rest : List Char) : List Char → Prop
  | nil : IsGap rest []
  | space {c : Char} {gap : List Char} (hc : isSpace c = true) (hgap : IsGap rest gap) : IsGap rest (c :: gap)
  | newline {gap : List Char} (hgap : IsGap rest gap) : IsGap rest ('\n' :: gap)
  | comment {text gap : List Char} (htext : '\n' ∉ text) (hend : EndsLine (gap ++ rest))
      (hgap : IsGap rest gap) : IsGap rest ('/' :: '/' :: (text ++ gap))

/-- A row of digits. -/
def IsDigits (cs : List Char) : Prop := cs ≠ [] ∧ ∀ c ∈ cs, c.isDigit = true

/-- A word: it starts with a letter or an underscore. -/
def IsWord (cs : List Char) : Prop :=
  ∃ c rest, cs = c :: rest ∧ startsWord c = true ∧ ∀ d ∈ rest, isWordChar d = true

/-- A text between two of the quotes, and the value that it writes. -/
inductive Quotes (quote : Char) : List Char → List Char → Prop
  | nil : Quotes quote [] []
  | plain {c : Char} {body value : List Char} (hquote : c ≠ quote) (hslash : c ≠ '\\')
      (hbody : Quotes quote body value) : Quotes quote (c :: body) (c :: value)
  | escape {c : Char} {body value : List Char} (hbody : Quotes quote body value) :
      Quotes quote ('\\' :: c :: body) (unescape c :: value)

/-- How a token of a kind and with a value is written. -/
inductive Spells : Token.Kind → List Char → List Char → Prop
  | mark {c : Char} {kind : Token.Kind} (h : punctuation? c = some kind) : Spells kind [c] [c]
  | quoted {quote : Char} {body value : List Char} (hquote : quote = '"' ∨ quote = '\'')
      (hbody : Quotes quote body value) : Spells .string value (quote :: (body ++ [quote]))
  | backticked {text : List Char} (h : backtick ∉ text) :
      Spells .string text (backtick :: (text ++ [backtick]))
  | hexColor {run : List Char} (hlength : run.length = 3 ∨ run.length = 6)
      (hrun : ∀ c ∈ run, isHexDigit c = true) : Spells .hexColor ('#' :: run) ('#' :: run)
  | themeRef {name : List Char} (hne : name ≠ []) (hname : ∀ c ∈ name, isThemeChar c = true) :
      Spells .themeRef ('$' :: name) ('$' :: name)
  | identifier {word : List Char} (hword : IsWord word) (hcell : isCellShaped word = false) :
      Spells .identifier word word
  | cellRef {word : List Char} (hword : IsWord word) (hcell : isCellShaped word = true) :
      Spells .cellRef word word
  | cellRange {first second : List Char} (hfirst : IsWord first) (hcell : isCellShaped first = true)
      (hsecond : IsWord second) (hcell' : isCellShaped second = true) :
      Spells .cellRange (first ++ '.' :: '.' :: second) (first ++ '.' :: '.' :: second)
  | number {digits : List Char} (h : IsDigits digits) : Spells .number digits digits
  | terms {first second : List Char} {c : Char} {kind : Token.Kind} (hfirst : IsDigits first)
      (hc : separator? c = some kind) (hsecond : IsDigits second) :
      Spells kind (first ++ c :: second) (first ++ c :: second)

/-- The tokens that a gap behind `before` stands for: one at its first end of line, if it has any. -/
def lineEnd (before gap : List Char) : List Token :=
  if '\n' ∈ gap then
    [⟨.newline, "\n", Location.start.advance (before ++ gap.takeWhile (· ≠ '\n'))⟩]
  else []

/-- A text that stands behind `before` is cut into gaps and the slices of the tokens, without a rest. Each
slice is what is scanned at its place, and it is written as tokens of its kind are. -/
inductive Tiles : List Char → List Char → List Token → Prop
  | last {before gap : List Char} (hgap : IsGap [] gap) : Tiles before gap (lineEnd before gap)
  | token {before gap text rest value : List Char} {c : Char} {kind : Token.Kind} {ts : List Token}
      (hgap : IsGap (c :: (text ++ rest)) gap)
      (hscanned : next c (text ++ rest) = .ok (⟨c :: text, .token kind value⟩, rest))
      (hspells : Spells kind value (c :: text)) (hkind : kind ≠ .newline)
      (hrest : Tiles (before ++ (gap ++ c :: text)) rest ts) :
      Tiles before (gap ++ c :: (text ++ rest)) (lineEnd before gap ++
        ⟨kind, String.ofList value, Location.start.advance (before ++ gap)⟩ :: ts)

/-- What a lexeme in front of `rest` looks like: a part of a gap, or the slice of a token. -/
def IsTile (l : Lexeme) (rest : List Char) : Prop :=
  match l.sense with
  | .space | .comment => IsGap rest l.text ∧ '\n' ∉ l.text
  | .newline => l.text = ['\n']
  | .token kind value => Spells kind value l.text

variable {c q : Char} {cs left value slice rest before gap more : List Char} {l : Lexeme}

theorem IsGap.append (h : IsGap (more ++ rest) gap) (hmore : IsGap rest more) : IsGap rest (gap ++ more) := by
  induction h with
  | nil => exact hmore
  | space hc _ ih => exact .space hc ih
  | newline _ ih => exact .newline ih
  | @comment text gap htext hend _ ih =>
      have hend : EndsLine (gap ++ more ++ rest) := by rwa [List.append_assoc]
      have hcomment := IsGap.comment htext hend ih
      rwa [← List.append_assoc] at hcomment

theorem endsLine_dropWhile (cs : List Char) : EndsLine (cs.dropWhile (· ≠ '\n')) := by
  intro c hc
  have hhead := List.head?_dropWhile_not (fun c => decide (c ≠ '\n')) cs
  rw [Option.mem_def.mp hc] at hhead
  simpa using hhead

theorem isTile_space (hc : isSpace c = true) : IsTile ⟨[c], .space⟩ rest := by
  refine ⟨.space hc .nil, fun hmem => ?_⟩
  rw [← List.mem_singleton.mp hmem] at hc
  exact absurd hc (by decide)

theorem isTile_comment (hc : c = '/' ∧ cs.head? = some '/') :
    IsTile ⟨c :: cs.takeWhile (· ≠ '\n'), .comment⟩ (cs.dropWhile (· ≠ '\n')) := by
  obtain ⟨rfl, hslash⟩ := hc
  obtain ⟨cs, rfl⟩ := List.head?_eq_some_iff.mp hslash
  rw [List.takeWhile_cons_of_pos (by decide), List.dropWhile_cons_of_pos (by decide)]
  have hplain : '\n' ∉ cs.takeWhile (· ≠ '\n') := by
    intro hmem
    simpa using List.mem_takeWhile_imp hmem
  have hnothing : IsGap (cs.dropWhile (· ≠ '\n')) [] := .nil
  have hcomment := IsGap.comment hplain (endsLine_dropWhile cs) hnothing
  rw [List.append_nil] at hcomment
  exact ⟨hcomment, by simpa using hplain⟩

theorem quotes_of_quotedBody (h : quotedBody q cs = some (value, slice, left)) :
    ∃ body, slice = body ++ [q] ∧ Quotes q body value := by
  fun_induction quotedBody q cs generalizing value slice left with
  | case1 => cases h
  | case2 =>
      cases h
      exact ⟨[], rfl, .nil⟩
  | case3 => cases h
  | case4 e rest _ ih =>
      obtain ⟨⟨v, s, l⟩, hrest, heq⟩ := Option.map_eq_some_iff.mp h
      obtain ⟨body, rfl, hbody⟩ := ih hrest
      cases heq
      exact ⟨_ :: e :: body, rfl, .escape hbody⟩
  | case5 c cs hquote hslash ih =>
      obtain ⟨⟨v, s, l⟩, hrest, heq⟩ := Option.map_eq_some_iff.mp h
      obtain ⟨body, rfl, hbody⟩ := ih hrest
      cases heq
      exact ⟨c :: body, rfl, .plain hquote hslash hbody⟩

theorem spells_of_backtickBody (h : backtickBody cs = some (value, slice, left)) :
    Spells .string value (backtick :: slice) := by
  rw [backtickBody] at h
  split at h
  · cases h
  · next c rest hdrop =>
    cases h
    have hhead := List.head?_dropWhile_not (fun c => decide (c ≠ backtick)) cs
    rw [hdrop] at hhead
    obtain rfl : c = backtick := by simpa using hhead
    refine .backticked fun hmem => ?_
    simpa using List.mem_takeWhile_imp hmem

theorem isWord_of_word? {word : List Char} (h : word? cs = some (word, left)) : IsWord word := by
  rw [word?.eq_def] at h
  split at h
  · cases h
  · split at h
    · next hstart =>
      cases h
      exact ⟨_, _, rfl, hstart, fun _ hd => List.mem_takeWhile_imp hd⟩
    · cases h

theorem exists_of_rangeTail? {tail : List Char} (h : rangeTail? cs = some (tail, left)) :
    ∃ second, tail = '.' :: '.' :: second ∧ IsWord second ∧ isCellShaped second = true := by
  rw [rangeTail?.eq_def] at h
  split at h
  · split at h
    · next second _ hsecond =>
      split at h
      · next hcell =>
        cases h
        exact ⟨second, rfl, isWord_of_word? hsecond, hcell⟩
      · cases h
    · cases h
  · cases h

theorem isTile_ofWord {word : List Char} (hword : IsWord word) : IsTile (ofWord word cs).1 rest := by
  rw [ofWord]
  split
  · next hcell =>
    split
    · next htail =>
      obtain ⟨second, rfl, hsecond, hcell'⟩ := exists_of_rangeTail? htail
      exact .cellRange hword hcell hsecond hcell'
    · exact .cellRef hword hcell
  · next hcell => exact .identifier hword (by simpa using hcell)

theorem exists_of_numericTail? {kind : Token.Kind} {tail : List Char}
    (h : numericTail? cs = some (kind, tail, left)) :
    ∃ c second, tail = c :: second ∧ separator? c = some kind ∧ IsDigits second := by
  rw [numericTail?.eq_def] at h
  split at h
  · cases h
  · next c cs =>
    split at h
    · next hc =>
      split at h
      · cases h
      · next hne =>
        cases h
        exact ⟨c, _, rfl, hc, hne, fun _ hd => List.mem_takeWhile_imp hd⟩
    · cases h

theorem isTile_ofNumber {digits : List Char} (hdigits : IsDigits digits) :
    IsTile (ofNumber digits cs).1 rest := by
  rw [ofNumber]
  split
  · next htail =>
    obtain ⟨d, second, rfl, hd, hsecond⟩ := exists_of_numericTail? htail
    exact .terms hdigits hd hsecond
  · exact .number hdigits

theorem isTile_of_next (h : next c cs = .ok (l, left)) : IsTile l left := by
  cases isNext_of_next h with
  | space hc => exact isTile_space hc
  | comment hc => exact isTile_comment hc
  | newline hc => exact congrArg (fun c => [c]) hc
  | punctuation hkind => exact .mark hkind
  | quoted hc hbody =>
      obtain ⟨body, rfl, hquotes⟩ := quotes_of_quotedBody hbody
      exact .quoted hc hquotes
  | backticked hc hbody =>
      rw [hc]
      exact spells_of_backtickBody hbody
  | hexColor hc hrun =>
      rw [hc]
      exact .hexColor hrun.1 (List.all_eq_true.mp hrun.2)
  | themeRef hc hname =>
      rw [hc]
      exact .themeRef hname fun _ hd => List.mem_takeWhile_imp hd
  | word hc => exact isTile_ofWord ⟨c, _, rfl, hc, fun _ hd => List.mem_takeWhile_imp hd⟩
  | number hc =>
      refine isTile_ofNumber ⟨List.cons_ne_nil _ _, List.forall_mem_cons.mpr ⟨hc, ?_⟩⟩
      exact fun _ hd => List.mem_takeWhile_imp hd

theorem lineEnd_of_not_mem (h : '\n' ∉ gap) : lineEnd before gap = [] := if_neg h

/-- Behind an end of line, and for what has none, a gap stands for no further token. -/
theorem lineEnd_append (h : '\n' ∈ gap ∨ '\n' ∉ more) : lineEnd before (gap ++ more) = lineEnd before gap := by
  by_cases hgap : '\n' ∈ gap
  · have htake : (gap ++ more).takeWhile (· ≠ '\n') = gap.takeWhile (· ≠ '\n') := by
      rw [List.takeWhile_append, if_neg]
      intro hlength
      have hall := List.takeWhile_eq_self_iff.mp (List.takeWhile_sublist _ |>.eq_of_length hlength) _ hgap
      simp at hall
    rw [lineEnd, lineEnd, if_pos (List.mem_append_left _ hgap), if_pos hgap, htake]
  · have hboth : '\n' ∉ gap ++ more := by simp [hgap, h.resolve_left hgap]
    rw [lineEnd_of_not_mem hgap, lineEnd_of_not_mem hboth]

theorem lineEnd_newline (h : '\n' ∉ gap) :
    lineEnd before (gap ++ ['\n']) = [⟨.newline, "\n", Location.start.advance (before ++ gap)⟩] := by
  have htake : (gap ++ ['\n']).takeWhile (· ≠ '\n') = gap := by
    rw [List.takeWhile_append_of_pos]
    · simp
    · intro d hd
      simpa using fun hc : d = '\n' => h (hc ▸ hd)
  rw [lineEnd, if_pos (by simp), htake]

/-- The lexemes of `cs` and a gap in front of them tile the text. -/
theorem tiles_scan {placed : List Placed} (hgap : IsGap cs gap)
    (h : scan (Location.start.advance (before ++ gap)) cs = .ok placed) :
    Tiles before (gap ++ cs) (lineEnd before gap ++ tokens (decide ('\n' ∉ gap)) placed) := by
  -- by induction along the scan, with the gap that has been read since the last token left general
  generalize hstart : Location.start.advance (before ++ gap) = start at h
  fun_induction scan start cs generalizing before gap placed with
  | case1 =>
      cases h
      rw [tokens, List.append_nil, List.append_nil]
      exact .last hgap
  | case2 => cases h
  | case3 start c cs lexeme left hnext _ ih =>
      obtain ⟨others, hothers, rfl⟩ := Results.map_eq_ok.mp h
      have happend := next_append hnext
      have htile := isTile_of_next hnext
      rw [← happend] at hgap ⊢
      -- a lexeme that is no token makes the gap longer
      have hlonger (hmore : IsGap left lexeme.text) :
          Tiles before (gap ++ (lexeme.text ++ left)) (lineEnd before (gap ++ lexeme.text) ++
            tokens (decide ('\n' ∉ gap ++ lexeme.text)) others) := by
        rw [← List.append_assoc]
        refine ih (hgap.append hmore) ?_ hothers
        rw [← List.append_assoc, Location.advance_append, hstart]
      rw [IsTile] at htile
      rw [tokens]
      cases hsense : lexeme.sense with
      | space | comment =>
          simp only [hsense] at htile ⊢
          have hall := hlonger htile.1
          rw [lineEnd_append (Or.inr htile.2)] at hall
          simpa [htile.2] using hall
      | newline =>
          simp only [hsense] at htile ⊢
          have hmore : IsGap left lexeme.text := by
            rw [htile]
            exact .newline .nil
          have hall := hlonger hmore
          rw [htile] at hall ⊢
          by_cases hline : '\n' ∈ gap
          · rw [lineEnd_append (Or.inl hline)] at hall
            simpa [hline] using hall
          · rw [lineEnd_newline hline, hstart] at hall
            simpa [hline, lineEnd_of_not_mem hline] using hall
      | token kind value =>
          simp only [hsense] at htile ⊢
          obtain ⟨text, htext⟩ := List.head?_eq_some_iff.mp (next_head? hnext)
          obtain rfl : lexeme = ⟨c :: text, .token kind value⟩ := by rw [← htext, ← hsense]
          obtain rfl := (List.cons.inj happend).2
          have hafter : Location.start.advance (before ++ (gap ++ c :: text) ++ []) =
              start.advance (c :: text) := by
            rw [List.append_nil, ← List.append_assoc, Location.advance_append, hstart]
          have hrest := @ih (before ++ (gap ++ c :: text)) [] _ .nil hafter hothers
          rw [lineEnd_of_not_mem List.not_mem_nil] at hrest
          rw [← hstart]
          exact .token hgap hnext htile (kind_next hnext rfl) hrest

end Lexeme

namespace Tokens

/-- The tokens of a text tile it: its characters are those of the slices of the tokens and of the gaps
between them, with a token at the first end of line of each gap that has one, and no end of line is told
twice. -/
theorem read_tiles {source : String} {ts : Tokens} (h : read source = .ok ts) :
    Lexeme.Tiles [] source.toList ts.list ∧ Reader.LineEndsOnce ts.list := by
  refine ⟨?_, lineEndsOnce_of_read h⟩
  obtain ⟨placed, hplaced, hts⟩ := Results.bind_eq_ok.mp h
  cases hts
  have htiles : Lexeme.Tiles [] source.toList (Lexeme.lineEnd [] [] ++ Lexeme.tokens true placed) :=
    Lexeme.tiles_scan .nil hplaced
  rwa [Lexeme.lineEnd_of_not_mem List.not_mem_nil] at htiles

theorem read_tiles_of_comments :
    ∃ source ts, source = "\t// one\n\nA1..b2:'x\\'//'  1x2 // end" ∧ read source = .ok ts ∧
      ts.list.map Token.shape = [(.newline, "\n"), (.cellRange, "A1..b2"), (.colon, ":"),
        (.string, "x'//"), (.grid, "1x2")] ∧
      Lexeme.Tiles [] source.toList ts.list ∧ Reader.LineEndsOnce ts.list := by
  have hshapes : (read "\t// one\n\nA1..b2:'x\\'//'  1x2 // end").toOption.map
      (fun ts => ts.list.map Token.shape) = some [(.newline, "\n"), (.cellRange, "A1..b2"), (.colon, ":"),
        (.string, "x'//"), (.grid, "1x2")] := by
    decide +kernel
  obtain ⟨ts, hts, hlist⟩ := Option.map_eq_some_iff.mp hshapes
  have hread := Results.toOption_eq_some.mp hts
  exact ⟨_, ts, rfl, hread, hlist, read_tiles hread⟩

end Tokens
end Wireframe
