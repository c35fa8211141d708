import Wireframe.Proofs.DraftRelocation
import Wireframe.Proofs.LexemeExtension
import Wireframe.Proofs.TokenTiles

/-! Spacing and comments. The slice of a token alone tells the token, in front of whatever white space or
comment stands behind it (`Lexeme.next_of_spells`), and of a gap between tokens it counts only whether an end
of line is in it (`Lexeme.IsGap.exists_reads`). So the gaps of a text may be filled anew without a change to
its tokens, and the text stays the same document (`Document.read_respaced`). -/

namespace Wireframe

namespace Lexeme

/-- White space and comments, each comment with the end of its line. -/
inductive Trivia : List Char → Prop
  | nil : Trivia []
  | space {c : Char} {gap : List Char} (hc : isSpace c = true) (hgap : Trivia gap) : Trivia (c :: gap)
  | newline {gap : List Char} (hgap : Trivia gap) : Trivia ('\n' :: gap)
  | comment {text gap : List Char} (htext : '\n' ∉ text) (hgap : Trivia gap) :
      Trivia ('/' :: '/' :: (text ++ '\n' :: gap))

/-- What may stand between tokens where a gap stands: spaces alone, or any trivia with an end of line where
the gap has one. -/
def Refills (gap gap' : List Char) : Prop :=
  if '\n' ∈ gap then Trivia gap' ∧ '\n' ∈ gap' else ∀ c ∈ gap', isSpace c = true

/-- What may stand at the end of a text where a gap stands: a last comment may come without an end of
line. -/
def RefillsEnd (gap gap' : List Char) : Prop :=
  ∃ front comment, gap' = front ++ comment ∧ Refills gap front ∧
    (comment = [] ∨ ∃ text, '\n' ∉ text ∧ comment = '/' :: '/' :: text)

/-- The slices of the tokens of a text, each behind a gap, and a gap at the end. -/
inductive Cut
  | last (gap : List Char)
  | token (gap slice : List Char) (rest : Cut)

namespace Cut

/-- The text that is cut. -/
def text : Cut → List Char
  | last gap => gap
  | token gap slice rest => gap ++ (slice ++ rest.text)

/-- The gaps are gaps and the slices are scanned as tokens, each at its place in the text. -/
def IsScanned : Cut → Prop
  | last gap => IsGap [] gap
  | token gap slice rest => IsGap (slice ++ rest.text) gap ∧
      (∃ c body kind value, slice = c :: body ∧
        next c (body ++ rest.text) = .ok (⟨slice, .token kind value⟩, rest.text)) ∧ rest.IsScanned

/-- The same slices with the gaps filled anew. Between two tokens something has to stand; `behind` says that
the first gap is behind a token. -/
inductive Respaced : Bool → Cut → Cut → Prop
  | last {behind : Bool} {gap gap' : List Char} (hgap : RefillsEnd gap gap') :
      Respaced behind (.last gap) (.last gap')
  | token {behind : Bool} {gap gap' slice : List Char} {rest rest' : Cut} (hgap : Refills gap gap')
      (hne : behind = true → gap' ≠ []) (hrest : Respaced true rest rest') :
      Respaced behind (.token gap slice rest) (.token gap' slice rest')

end Cut

variable {c q : Char} {cs rest gap gap' text value : List Char} {kind : Token.Kind} {senses : List Sense}
  {cut cut' : Cut}

/-! ### Slices -/

/-- The characters that white space and comments start with. -/
def gapStarts : List Char := [' ', '\t', '\r', '\n', '/']

/-- The text is at its end or goes on with white space or a comment. -/
def Parts (cs : List Char) : Prop := ∀ c ∈ cs.head?, c ∈ gapStarts

theorem Parts.breaks {p : Char → Bool} (h : Parts rest) (hp : gapStarts.all (!p ·) = true) :
    Breaks p rest := by
  intro c hc
  simpa using List.all_eq_true.mp hp c (h c hc)

theorem Parts.separator? (h : Parts rest) : ∀ c ∈ rest.head?, separator? c = none := by
  intro c hc
  have hmem := h c hc
  simp only [gapStarts, List.mem_cons, List.not_mem_nil, or_false] at hmem
  rcases hmem with rfl | rfl | rfl | rfl | rfl <;> rfl

theorem quotedBody_of_quotes {body : List Char} (hq : q ≠ '\\') (h : Quotes q body value) (rest : List Char) :
    quotedBody q (body ++ q :: rest) = some (value, body ++ [q], rest) := by
  induction h with
  | nil => exact quotedBody_quote q rest
  | plain hquote hslash _ ih =>
      rw [List.cons_append, quotedBody_plain hquote hslash, ih]
      rfl
  | escape _ ih =>
      rw [List.cons_append, List.cons_append, quotedBody_escape hq, ih]
      rfl

theorem backtickBody_of_not_mem (h : backtick ∉ text) (rest : List Char) :
    backtickBody (text ++ backtick :: rest) = some (text, text ++ [backtick], rest) := by
  have hplain : ∀ d ∈ text, decide (d ≠ backtick) = true := by
    intro d hd
    simpa using fun hsame : d = backtick => h (hsame ▸ hd)
  have hstop : Breaks (fun d => decide (d ≠ backtick)) (backtick :: rest) := breaks_cons (by simp)
  obtain ⟨htake, hdrop⟩ := takeWhile_append_of_breaks hplain hstop
  simp only [backtickBody, htake, hdrop]

theorem isAlphanum_of_isHexDigit (h : isHexDigit c = true) : c.isAlphanum = true := by
  simp only [isHexDigit, Bool.or_eq_true, Bool.and_eq_true, decide_eq_true_eq] at h
  simp only [Char.isAlphanum, Char.isAlpha, Char.isUpper, Char.isLower, Bool.or_eq_true, Bool.and_eq_true,
    decide_eq_true_eq]
  rcases h with (h | ⟨hmin, hmax⟩) | ⟨hmin, hmax⟩
  · exact Or.inr h
  · exact Or.inl (Or.inr ⟨hmin, le_trans hmax (by decide)⟩)
  · exact Or.inl (Or.inl ⟨hmin, le_trans hmax (by decide)⟩)

/-- The slice of a token tells the token wherever white space, a comment or nothing follows it. -/
theorem next_of_spells (h : Spells kind value (c :: text)) (hrest : Parts rest) :
    next c (text ++ rest) = .ok (⟨c :: text, .token kind value⟩, rest) := by
  have hword : Breaks isWordChar rest := hrest.breaks (by decide)
  have hdigit : Breaks Char.isDigit rest := hrest.breaks (by decide)
  generalize hslice : c :: text = slice at h
  cases h with
  | mark hmark =>
      cases hslice
      exact next_punctuation hmark
  | quoted hquote hbody =>
      cases hslice
      rw [List.append_assoc]
      refine next_of_isNext (.quoted hquote (quotedBody_of_quotes ?_ hbody rest))
      rintro rfl
      simp at hquote
  | backticked hplain =>
      cases hslice
      rw [List.append_assoc]
      exact next_of_isNext (.backticked rfl (backtickBody_of_not_mem hplain rest))
  | hexColor hlength hrun =>
      cases hslice
      have halnum : ∀ d ∈ text, d.isAlphanum = true := fun d hd => isAlphanum_of_isHexDigit (hrun d hd)
      obtain ⟨htake, hdrop⟩ := takeWhile_append_of_breaks halnum (hrest.breaks (by decide))
      have hnext := @IsNext.hexColor '#' (text ++ rest) rfl
      rw [htake, hdrop] at hnext
      exact next_of_isNext (hnext ⟨hlength, List.all_eq_true.mpr hrun⟩)
  | themeRef hne hname =>
      cases hslice
      obtain ⟨htake, hdrop⟩ := takeWhile_append_of_breaks hname (hrest.breaks (by decide))
      have hnext := @IsNext.themeRef '$' (text ++ rest) rfl
      rw [htake, hdrop] at hnext
      exact next_of_isNext (hnext hne)
  | identifier hsome hcell =>
      obtain ⟨d, others, hsplit, hstart, hothers⟩ := hsome
      subst hslice
      cases hsplit
      exact next_identifier hstart hothers hcell hword
  | cellRef hsome hcell =>
      obtain ⟨d, others, hsplit, hstart, hothers⟩ := hsome
      subst hslice
      cases hsplit
      exact next_cellRef hstart hothers hcell hword (hrest.breaks (by decide))
  | cellRange hfirst hcell hsecond hcell' =>
      obtain ⟨d, others, rfl, hstart, hothers⟩ := hfirst
      obtain ⟨d', others', rfl, hstart', hothers'⟩ := hsecond
      rw [List.cons_append] at hslice
      obtain ⟨rfl, rfl⟩ := List.cons.inj hslice
      rw [List.append_assoc]
      exact next_cellRange hstart hothers hcell hstart' hothers' hcell' hword
  | number hdigits =>
      subst hslice
      obtain ⟨hfirst, hothers⟩ := List.forall_mem_cons.mp hdigits.2
      exact next_plainNumber hfirst hothers hdigit hrest.separator?
  | @terms first second d _ hfirst hsep hsecond =>
      obtain ⟨e, others, rfl⟩ := List.exists_cons_of_ne_nil hfirst.1
      obtain ⟨e', others', rfl⟩ := List.exists_cons_of_ne_nil hsecond.1
      rw [List.cons_append] at hslice
      obtain ⟨rfl, rfl⟩ := List.cons.inj hslice
      obtain ⟨hdig, hothers⟩ := List.forall_mem_cons.mp hfirst.2
      obtain ⟨hdig', hothers'⟩ := List.forall_mem_cons.mp hsecond.2
      rw [List.append_assoc]
      exact next_terms hdig hothers hsep hdig' hothers' hdigit

/-! ### Gaps -/

theorem Reads.comment (htext : '\n' ∉ text) (hend : EndsLine cs) (h : Reads cs senses) :
    Reads ('/' :: '/' :: (text ++ cs)) (.comment :: senses) := by
  have hplain : ∀ d ∈ '/' :: text, decide (d ≠ '\n') = true := by
    intro d hd
    have hne : d ≠ '\n' := by
      rintro rfl
      exact htext ((List.mem_cons.mp hd).resolve_left (by decide))
    simpa using hne
  have hstop : Breaks (fun d => decide (d ≠ '\n')) cs := fun d hd => by simpa using hend d hd
  obtain ⟨htake, hdrop⟩ := takeWhile_append_of_breaks hplain hstop
  have hnext := @IsNext.comment '/' ('/' :: text ++ cs) ⟨rfl, rfl⟩
  rw [htake, hdrop] at hnext
  exact h.cons (next_of_isNext hnext)

/-- A gap stands for an end of line if it has any, and for nothing else. -/
theorem IsGap.exists_reads (hgap : IsGap rest gap) (h : Reads rest senses) :
    ∃ all, Reads (gap ++ rest) all ∧ ∀ fresh, shapes fresh all =
      (if fresh = true ∧ '\n' ∈ gap then [(.newline, "\n")] else []) ++
        shapes (fresh && decide ('\n' ∉ gap)) senses := by
  induction hgap with
  | nil => exact ⟨senses, h, fun fresh => by simp⟩
  | @space c gap hc _ ih =>
      obtain ⟨all, hall, hshapes⟩ := ih
      have hne : '\n' ≠ c := by
        rintro rfl
        exact absurd hc (by decide)
      refine ⟨.space :: all, hall.space hc, fun fresh => ?_⟩
      simp only [shapes, hshapes, List.mem_cons, hne, false_or]
  | newline _ ih =>
      obtain ⟨all, hall, hshapes⟩ := ih
      refine ⟨.newline :: all, hall.newline, fun fresh => ?_⟩
      cases fresh <;> simp [shapes, hshapes]
  | @comment text gap htext hend _ ih =>
      obtain ⟨all, hall, hshapes⟩ := ih
      refine ⟨.comment :: all, ?_, fun fresh => ?_⟩
      · rw [List.cons_append, List.cons_append, List.append_assoc]
        exact hall.comment htext hend
      · simp only [shapes, hshapes, List.mem_cons, List.mem_append, htext, false_or, Char.reduceEq]

theorem Trivia.isGap (h : Trivia gap) (rest : List Char) : IsGap rest gap := by
  induction h with
  | nil => exact .nil
  | space hc _ ih => exact .space hc ih
  | newline _ ih => exact .newline ih
  | comment htext _ ih =>
      refine .comment htext ?_ (.newline ih)
      intro c hc
      cases hc
      rfl

theorem not_mem_of_isSpace (h : ∀ c ∈ gap, isSpace c = true) : '\n' ∉ gap :=
  fun hline => absurd (h '\n' hline) (by decide)

theorem isGap_of_isSpace (h : ∀ c ∈ gap, isSpace c = true) (rest : List Char) : IsGap rest gap := by
  induction gap with
  | nil => exact .nil
  | cons c gap ih =>
      obtain ⟨hc, hgap⟩ := List.forall_mem_cons.mp h
      exact .space hc (ih hgap)

theorem Refills.isGap (h : Refills gap gap') (rest : List Char) :
    IsGap rest gap' ∧ ('\n' ∈ gap' ↔ '\n' ∈ gap) := by
  rw [Refills] at h
  split at h
  · next hline => exact ⟨h.1.isGap rest, iff_of_true h.2 hline⟩
  · next hline => exact ⟨isGap_of_isSpace h rest, iff_of_false (not_mem_of_isSpace h) hline⟩

theorem RefillsEnd.isGap (h : RefillsEnd gap gap') : IsGap [] gap' ∧ ('\n' ∈ gap' ↔ '\n' ∈ gap) := by
  obtain ⟨front, comment, rfl, hfront, rfl | ⟨text, htext, rfl⟩⟩ := h
  · rw [List.append_nil]
    exact hfront.isGap []
  · have hnothing : IsGap [] [] := .nil
    have hcomment : IsGap [] ('/' :: '/' :: (text ++ [])) :=
      .comment htext (fun c hc => absurd hc (Option.not_mem_none c)) hnothing
    rw [List.append_nil] at hcomment
    obtain ⟨hgap, hline⟩ := hfront.isGap ('/' :: '/' :: text ++ [])
    refine ⟨hgap.append hcomment, ?_⟩
    rw [← hline, List.mem_append]
    simp [htext]

/-- A gap parts what stands before it from what stands behind it. -/
theorem IsGap.parts (h : IsGap rest gap) (hne : gap ≠ []) (more : List Char) : Parts (gap ++ more) := by
  intro c hc
  cases h with
  | nil => exact absurd rfl hne
  | space hspace =>
      cases hc
      simp only [isSpace, Bool.or_eq_true, decide_eq_true_eq] at hspace
      rcases hspace with (rfl | rfl) | rfl <;> decide
  | newline | comment =>
      cases hc
      decide

/-! ### Cuts -/

theorem exists_cut {before cs : List Char} {ts : List Token} (h : Tiles before cs ts) :
    ∃ cut : Cut, cut.text = cs ∧ cut.IsScanned := by
  induction h with
  | @last before gap hgap => exact ⟨.last gap, rfl, hgap⟩
  | @token before gap body rest value c kind ts hgap hscanned _ _ _ ih =>
      obtain ⟨cut, rfl, hcut⟩ := ih
      exact ⟨.token gap (c :: body) cut, rfl, hgap, ⟨c, body, kind, value, rfl, hscanned⟩, hcut⟩

/-- With its gaps filled anew a text is scanned for the same tokens. -/
theorem exists_reads_respaced {behind : Bool} (h : Cut.Respaced behind cut cut') (hcut : cut.IsScanned) :
    (∃ senses senses', Reads cut.text senses ∧ Reads cut'.text senses' ∧
      ∀ fresh, shapes fresh senses' = shapes fresh senses) ∧ (behind = true → Parts cut'.text) := by
  -- what is behind a slice in the new text parts it from the next one, so the slice is scanned as before
  induction h with
  | @last behind gap gap' hgap =>
      obtain ⟨hgap', hline⟩ := hgap.isGap
      obtain ⟨senses, hsenses, hshapes⟩ := IsGap.exists_reads hcut reads_nil
      obtain ⟨senses', hsenses', hshapes'⟩ := hgap'.exists_reads reads_nil
      rw [List.append_nil] at hsenses hsenses'
      refine ⟨⟨senses, senses', hsenses, hsenses', fun fresh => ?_⟩, fun _ => ?_⟩
      · simp only [hshapes, hshapes', hline]
      · by_cases hnil : gap' = []
        · rw [hnil]
          exact fun c hc => absurd hc (Option.not_mem_none c)
        · have hparts := hgap'.parts hnil []
          rwa [List.append_nil] at hparts
  | @token behind gap gap' slice rest rest' hgap hne _ ih =>
      obtain ⟨hold, ⟨c, body, kind, value, rfl, hscanned⟩, hrest⟩ := hcut
      obtain ⟨⟨after, after', hafter, hafter', hsame⟩, hparts⟩ := ih hrest
      obtain ⟨hnew, hline⟩ := hgap.isGap (c :: body ++ rest'.text)
      have hspells : Spells kind value (c :: body) := isTile_of_next hscanned
      have hscanned' := next_of_spells hspells (hparts rfl)
      obtain ⟨senses, hsenses, hshapes⟩ := hold.exists_reads (hafter.cons hscanned)
      obtain ⟨senses', hsenses', hshapes'⟩ := hnew.exists_reads (hafter'.cons hscanned')
      refine ⟨⟨senses, senses', hsenses, hsenses', fun fresh => ?_⟩, fun hbehind => ?_⟩
      · simp only [hshapes, hshapes', hline, shapes, hsame]
      · exact hnew.parts (hne hbehind) _

end Lexeme

namespace Document

/-- Spacing and comments do not matter. A text that has tokens is cut into the slices of its tokens and the
gaps around them; fill the gaps anew, with something in each gap between two tokens, with an end of line
where there was one and with spaces alone where there was none, and the text has the same tokens and is the
same document, or fails with the same words at the same stage. -/
theorem read_respaced {source : String} {ts : Tokens} (h : Tokens.read source = .ok ts) :
    (∃ cut : Lexeme.Cut, cut.text = source.toList ∧ cut.IsScanned) ∧
    ∀ cut cut' : Lexeme.Cut, cut.text = source.toList → cut.IsScanned → cut.Respaced false cut' →
      ∃ ts', Tokens.read (String.ofList cut'.text) = .ok ts' ∧
        ts'.all.map Token.shape = ts.all.map Token.shape ∧
        Failure.EndsLike (read source).value (read (String.ofList cut'.text)).value := by
  refine ⟨Lexeme.exists_cut (Tokens.read_tiles h).1, fun cut cut' hsource hcut hrespaced => ?_⟩
  obtain ⟨⟨senses, senses', hsenses, hsenses', hsame⟩, -⟩ :=
    Lexeme.exists_reads_respaced hrespaced hcut
  rw [hsource] at hsenses
  obtain ⟨found, hfound, hshapes⟩ := Tokens.exists_read hsenses
  obtain rfl : ts = found := Except.ok.inj (h.symm.trans hfound)
  rw [← String.toList_ofList (l := cut'.text)] at hsenses'
  obtain ⟨ts', hts', hshapes'⟩ := Tokens.exists_read hsenses'
  have hlist : ts.list.map Token.shape = ts'.list.map Token.shape := by rw [hshapes, hshapes', hsame]
  refine ⟨ts', hts', ?_, ?_⟩
  · rw [Tokens.all, Tokens.all, List.map_append, List.map_append, hlist]
    rfl
  · rw [read, read, h, hts']
    exact endsLike_of_shapes hlist

theorem read_respaced_of_ratio :
    ∃ (source : String) (ts : Tokens) (cut cut' : Lexeme.Cut), source = "gap:5 // px\nratio:4:3" ∧
      Tokens.read source = .ok ts ∧ cut.text = source.toList ∧ cut.IsScanned ∧ cut.Respaced false cut' ∧
      cut'.text = "\tgap\r: 5//\n \nratio : 4:3 // end".toList ∧
      ∃ ts', Tokens.read (String.ofList cut'.text) = .ok ts' ∧
        ts'.all.map Token.shape = ts.all.map Token.shape ∧
        Failure.EndsLike (read source).value (read (String.ofList cut'.text)).value := by
  let cut : Lexeme.Cut := .token [] ['g', 'a', 'p'] <| .token [] [':'] <| .token [] ['5'] <|
    .token [' ', '/', '/', ' ', 'p', 'x', '\n'] ['r', 'a', 't', 'i', 'o'] <| .token [] [':'] <|
    .token [] ['4', ':', '3'] <| .last []
  let cut' : Lexeme.Cut := .token ['\t'] ['g', 'a', 'p'] <| .token ['\r'] [':'] <| .token [' '] ['5'] <|
    .token ['/', '/', '\n', ' ', '\n'] ['r', 'a', 't', 'i', 'o'] <| .token [' '] [':'] <|
    .token [' '] ['4', ':', '3'] <| .last [' ', '/', '/', ' ', 'e', 'n', 'd']
  have hread : (Tokens.read "gap:5 // px\nratio:4:3").toOption.isSome = true := by decide +kernel
  obtain ⟨ts, hts⟩ := Option.isSome_iff_exists.mp hread
  have hsource : cut.text = "gap:5 // px\nratio:4:3".toList := by decide
  have hscanned : cut.IsScanned := by
    refine ⟨.nil, ⟨_, _, .identifier, _, rfl, rfl⟩, .nil, ⟨_, _, .colon, _, rfl, rfl⟩, .nil,
      ⟨_, _, .number, _, rfl, rfl⟩, .space rfl ?_, ⟨_, _, .identifier, _, rfl, rfl⟩, .nil,
      ⟨_, _, .colon, _, rfl, rfl⟩, .nil, ⟨_, _, .ratio, _, rfl, rfl⟩, .nil⟩
    refine @Lexeme.IsGap.comment _ [' ', 'p', 'x'] ['\n'] (by decide) ?_ (.newline .nil)
    intro c hc
    cases hc
    rfl
  have hrespaced : cut.Respaced false cut' := by
    have hspaces {gap' : List Char} (h : gap'.all Lexeme.isSpace = true) : Lexeme.Refills [] gap' := by
      rwa [Lexeme.Refills, if_neg List.not_mem_nil, ← List.all_eq_true]
    have hline : Lexeme.Refills [' ', '/', '/', ' ', 'p', 'x', '\n'] ['/', '/', '\n', ' ', '\n'] := by
      rw [Lexeme.Refills, if_pos (by decide)]
      exact ⟨@Lexeme.Trivia.comment [] _ List.not_mem_nil (.space rfl (.newline .nil)), by decide⟩
    have hend : Lexeme.RefillsEnd [] [' ', '/', '/', ' ', 'e', 'n', 'd'] :=
      ⟨[' '], _, rfl, hspaces rfl, Or.inr ⟨[' ', 'e', 'n', 'd'], by decide, rfl⟩⟩
    have hsome {c : Char} {gap' : List Char} : true = true → c :: gap' ≠ [] := fun _ => List.cons_ne_nil _ _
    exact .token (hspaces rfl) nofun <| .token (hspaces rfl) hsome <| .token (hspaces rfl) hsome <|
      .token hline hsome <| .token (hspaces rfl) hsome <| .token (hspaces rfl) hsome <| .last hend
  have hts := Results.toOption_eq_some.mp hts
  exact ⟨_, ts, cut, cut', rfl, hts, hsource, hscanned, hrespaced, by decide,
    (read_respaced hts).2 cut cut' hsource hscanned hrespaced⟩

end Document
end Wireframe
