import Wireframe.Proofs.TokenShape

/-! The positions of the tokens of a text. A position that is kept up to date character by character
is the one that the text before it counts up to (`Location.isAfter_advance`). The lexemes of a text
are read one behind another, so the positions of its tokens are exact and strictly increasing, and so
is the position of what cannot be read (`Tokens.read_located`). -/

namespace Wireframe

namespace Location

/-- The position right after the given text: a line for each end of line in it, a column for each
character behind the last of them. -/
structure IsAfter (l : Location) (before : List Char) : Prop where
  line : l.line = 1 + before.count '\n'
  column : l.column = 1 + (before.rtakeWhile (· ≠ '\n')).length
  offset : l.offset = before.length

theorem IsAfter.step {l : Location} {before : List Char} (h : l.IsAfter before) (c : Char) :
    (l.step c).IsAfter (before ++ [c]) := by
  obtain ⟨hline, hcolumn, hoffset⟩ := h
  by_cases hc : c = '\n'
  · subst hc
    rw [Location.step, if_pos rfl]
    constructor
    · simp only [hline, List.count_append, List.count_singleton_self]
      omega
    · rw [List.rtakeWhile_concat_neg _ _ _ (by decide)]
      rfl
    · simp only [hoffset, List.length_append, List.length_singleton]
      omega
  · rw [Location.step, if_neg hc]
    constructor
    · rw [List.count_append, List.count_singleton, if_neg (by simpa using hc), Nat.add_zero]
      exact hline
    · rw [List.rtakeWhile_concat_pos _ _ _ (by simpa using hc)]
      simp only [hcolumn, List.length_append, List.length_singleton]
      omega
    · simp only [hoffset, List.length_append, List.length_singleton]
      omega

theorem isAfter_advance (before : List Char) : (start.advance before).IsAfter before := by
  induction before using List.reverseRecOn with
  | nil => exact ⟨rfl, rfl, rfl⟩
  | append_singleton before c ih =>
      rw [advance_append]
      exact ih.step c

end Location

namespace Lexeme

variable {text value cs left : List Char} {kind : Token.Kind} {c : Char} {l : Lexeme}

/-- The characters that quoted texts start with. -/
def quotes : List Char := ['"', '\'', backtick]

theorem punctuation?_ne_string (h : punctuation? c = some kind) : kind ≠ .string := by
  rintro rfl
  unfold punctuation? at h
  repeat' split at h
  all_goals cases h

/-- What a lexeme of a text stands for, and its slice: only a quoted text has a value other than its
slice, and it starts with its quote. -/
theorem next_cases (h : next c cs = .ok (l, left)) :
    l.sense = .space ∨ l.sense = .comment ∨ l = ⟨['\n'], .newline⟩ ∨
      (∃ value, l.sense = .token .string value ∧ c ∈ quotes) ∨
      ∃ kind text, l = verbatim kind text ∧ kind ≠ .string := by
  cases isNext_of_next h with
  | space => exact Or.inl rfl
  | comment => exact Or.inr (Or.inl rfl)
  | newline hc => exact Or.inr (Or.inr (Or.inl (by rw [hc])))
  | punctuation hkind =>
      exact Or.inr (Or.inr (Or.inr (Or.inr ⟨_, _, rfl, punctuation?_ne_string hkind⟩)))
  | quoted hc =>
      refine Or.inr (Or.inr (Or.inr (Or.inl ⟨_, rfl, ?_⟩)))
      rcases hc with rfl | rfl <;> decide
  | backticked hc => exact Or.inr (Or.inr (Or.inr (Or.inl ⟨_, rfl, by rw [hc]; decide⟩)))
  | hexColor | themeRef => exact Or.inr (Or.inr (Or.inr (Or.inr ⟨_, _, rfl, by decide⟩)))
  | word =>
      have hother : ∀ k ∈ .identifier :: Token.cellKinds, k ≠ .string := by decide
      obtain ⟨kind, hkind, text, hword⟩ :=
        exists_ofWord (c :: cs.takeWhile isWordChar) (cs.dropWhile isWordChar)
      exact Or.inr (Or.inr (Or.inr (Or.inr ⟨kind, text, hword, hother kind hkind⟩)))
  | number =>
      have hother : ∀ k ∈ Token.termKinds ++ [.number], k ≠ .string := by decide
      obtain ⟨kind, hkind, text, hnumber⟩ :=
        exists_ofNumber (c :: cs.takeWhile Char.isDigit) (cs.dropWhile Char.isDigit)
      exact Or.inr (Or.inr (Or.inr (Or.inr ⟨kind, text, hnumber, hother kind hkind⟩)))

/-- The lexemes of a text start one behind another, all before its end. -/
theorem sorted_scan {start : Location} {placed : List Placed} (h : scan start cs = .ok placed) :
    placed.Pairwise (fun p q => p.location.offset < q.location.offset) ∧
      ∀ p ∈ placed, start.offset ≤ p.location.offset ∧ p.location.offset < start.offset + cs.length := by
  fun_induction scan start cs generalizing placed with
  | case1 =>
      cases h
      exact ⟨List.Pairwise.nil, fun p hp => absurd hp List.not_mem_nil⟩
  | case2 => cases h
  | case3 start c cs lexeme left hnext _ ih =>
      obtain ⟨rest, hrest, rfl⟩ := Results.map_eq_ok.mp h
      obtain ⟨hsorted, hbounds⟩ := ih hrest
      have hlength := congrArg List.length (next_append hnext)
      have hpos := List.length_pos_iff.mpr (next_text_ne_nil hnext)
      rw [List.length_append] at hlength
      simp only [Location.offset_advance] at hbounds
      refine ⟨List.pairwise_cons.mpr ⟨fun q hq => ?_, hsorted⟩, List.forall_mem_cons.mpr ⟨?_, ?_⟩⟩
      · have := hbounds q hq
        show start.offset < q.location.offset
        omega
      · show start.offset ≤ start.offset ∧ start.offset < start.offset + (c :: cs).length
        omega
      · intro p hp
        have := hbounds p hp
        omega

theorem map_location_tokens_sublist (fresh : Bool) (placed : List Placed) :
    ((tokens fresh placed).map (·.location)).Sublist (placed.map (·.location)) := by
  fun_induction tokens fresh placed with
  | case1 => exact List.Sublist.slnil
  | case2 _ _ _ _ ih => exact ih.cons _
  | case3 _ _ _ _ ih => exact ih.cons _
  | case4 _ _ _ ih => exact ih.cons_cons _
  | case5 _ _ _ _ _ ih => exact ih.cons _
  | case6 _ _ _ _ _ _ ih => exact ih.cons_cons _

theorem sorted_tokens {start : Location} {placed : List Placed} (fresh : Bool)
    (h : scan start cs = .ok placed) :
    (tokens fresh placed).Pairwise fun t u => t.location.offset < u.location.offset := by
  -- the positions of the tokens are some of those of the lexemes, in their order
  have hplaces : (placed.map (·.location)).Pairwise fun l m => l.offset < m.offset :=
    List.pairwise_map.mpr (sorted_scan h).1
  have htokens := hplaces.sublist (map_location_tokens_sublist fresh placed)
  rw [List.pairwise_map] at htokens
  exact htokens

end Lexeme

/-- What a token says of the text that starts at its position: its value, unless it is a quoted text,
which starts with a quote. -/
def Token.Starts (t : Token) (rest : List Char) : Prop :=
  if t.kind = .string then ∃ q ∈ rest.head?, q ∈ Lexeme.quotes else t.value.toList <+: rest

/-- The position of a token counts up to the place in the text where the token starts. -/
theorem Lexeme.Placed.IsReadIn.starts {p : Lexeme.Placed} {cs : List Char} {t : Token}
    (hp : p.IsReadIn cs)
    (ht : p.lexeme.sense = .newline ∧ t.kind = .newline ∧ t.value = "\n" ∨
      p.lexeme.sense = .token t.kind t.value.toList) :
    ∃ before rest, cs = before ++ rest ∧ p.location.IsAfter before ∧ t.Starts rest := by
  obtain ⟨before, c, rest, left, rfl, hlocation, hnext⟩ := hp
  refine ⟨before, c :: rest, rfl, hlocation ▸ Location.isAfter_advance before, ?_⟩
  have happend := Lexeme.next_append hnext
  rcases Lexeme.next_cases hnext with hspace | hcomment | hnewline | ⟨value, hstring, hquote⟩ |
    ⟨kind, text, hverbatim, hkind⟩
  · rw [hspace] at ht
    simp at ht
  · rw [hcomment] at ht
    simp at ht
  · rw [hnewline] at ht happend
    obtain ⟨-, hkind, hvalue⟩ | hother := ht
    · rw [Token.Starts, if_neg (by rw [hkind]; decide), hvalue, ← happend]
      exact List.prefix_append _ _
    · cases hother
  · rw [hstring] at ht
    obtain ⟨hother, -⟩ | hsense := ht
    · cases hother
    · rw [Token.Starts, if_pos (Sense.token.inj hsense).1.symm]
      exact ⟨c, rfl, hquote⟩
  · rw [hverbatim] at ht happend
    obtain ⟨hother, -⟩ | hsense := ht
    · cases hother
    · obtain ⟨hsame, hvalue⟩ := Sense.token.inj hsense
      rw [Token.Starts, if_neg (hsame ▸ hkind), ← hvalue, ← happend]
      exact List.prefix_append _ _

namespace Tokens

/-- The positions of the tokens of a text are exact. They strictly increase up to the end of the text,
which the last token stands for; each is the position right after some beginning of the text, and what
the token says stands right there. The position of what cannot be read is exact as well, and it is
before the end of the text. -/
theorem read_located (source : String) :
    (∀ ts, read source = .ok ts →
      ts.all.Pairwise (fun t u => t.location.offset < u.location.offset) ∧
      (ts.all.getLast? = some ts.last ∧ ts.last.kind = .endOfInput ∧
        ts.last.location.offset = source.length) ∧
      ∀ t ∈ ts.all, ∃ before rest, source.toList = before ++ rest ∧ t.location.IsAfter before ∧
        t.Starts rest) ∧
    ∀ fault location, read source = .error (fault, location) →
      ∃ before rest, source.toList = before ++ rest ∧ location.IsAfter before ∧ rest ≠ [] := by
  have hscan := Lexeme.isReadIn_scan [] source.toList
  rw [Location.advance_nil, List.nil_append] at hscan
  constructor
  · intro ts h
    obtain ⟨placed, hplaced, hts⟩ := Results.bind_eq_ok.mp h
    cases hts
    rw [hplaced] at hscan
    have hend : (Location.start.advance source.toList).offset = source.length := by
      rw [Location.offset_advance, String.length_toList]
      exact Int.zero_add _
    have hlast : (⟨Lexeme.tokens true placed, Location.start.advance source.toList⟩ : Tokens).last.Starts
        [] := List.nil_prefix
    refine ⟨List.pairwise_append.mpr ⟨Lexeme.sorted_tokens true hplaced,
      List.pairwise_singleton _ _, ?_⟩, ⟨List.getLast?_concat, rfl, hend⟩, ?_⟩
    · intro t ht u hu
      obtain ⟨p, hp, hlocation, -⟩ := Lexeme.mem_tokens ht
      rw [List.mem_singleton.mp hu, hlocation]
      show p.location.offset < (Location.start.advance source.toList).offset
      rw [Location.offset_advance]
      exact ((Lexeme.sorted_scan hplaced).2 p hp).2
    · intro t ht
      rcases List.mem_append.mp ht with ht | ht
      · obtain ⟨p, hp, hlocation, hsense⟩ := Lexeme.mem_tokens ht
        rw [hlocation]
        exact (hscan p hp).starts hsense
      · rw [List.mem_singleton.mp ht]
        exact ⟨source.toList, [], (List.append_nil _).symm, Location.isAfter_advance _, hlast⟩
  · intro fault location h
    rcases Results.bind_eq_error.mp h with hfault | ⟨_, _, hok⟩
    · rw [hfault] at hscan
      obtain ⟨before, c, rest, hsource, rfl, -⟩ := hscan
      exact ⟨before, c :: rest, hsource, Location.isAfter_advance before, List.cons_ne_nil c rest⟩
    · cases hok

theorem read_located_of_lines :
    ∃ source ts failing location, source = "a: 'x\ny' // z\n\n\tb" ∧ read source = .ok ts ∧
      ts.all.map (·.location) =
        [⟨1, 1, 0⟩, ⟨1, 2, 1⟩, ⟨1, 4, 3⟩, ⟨2, 8, 13⟩, ⟨4, 2, 16⟩, ⟨4, 3, 17⟩] ∧
      ts.all.Pairwise (fun t u => t.location.offset < u.location.offset) ∧
      (∀ t ∈ ts.all, ∃ before rest, source.toList = before ++ rest ∧ t.location.IsAfter before ∧
        t.Starts rest) ∧
      failing = "a\n 'b\nc" ∧ read failing = .error (.unterminated, location) ∧
      location = ⟨2, 2, 3⟩ ∧
      ∃ before rest, failing.toList = before ++ rest ∧ location.IsAfter before ∧ rest ≠ [] := by
  have hplaces : (read "a: 'x\ny' // z\n\n\tb").toOption.map (fun ts => ts.all.map (·.location)) =
      some [⟨1, 1, 0⟩, ⟨1, 2, 1⟩, ⟨1, 4, 3⟩, ⟨2, 8, 13⟩, ⟨4, 2, 16⟩, ⟨4, 3, 17⟩] := by
    decide +kernel
  have hscan : Lexeme.scan .start "a\n 'b\nc".toList = .error (.unterminated, ⟨2, 2, 3⟩) := by
    decide +kernel
  have hfails : read "a\n 'b\nc" = .error (.unterminated, ⟨2, 2, 3⟩) := by
    rw [read, hscan]
    rfl
  obtain ⟨ts, hts, hlocations⟩ := Option.map_eq_some_iff.mp hplaces
  have hread := Results.toOption_eq_some.mp hts
  obtain ⟨hsorted, -, hstarts⟩ := (read_located _).1 ts hread
  exact ⟨_, ts, _, _, rfl, hread, hlocations, hsorted, hstarts, rfl, hfails, rfl,
    (read_located _).2 _ _ hfails⟩

end Tokens
end Wireframe
