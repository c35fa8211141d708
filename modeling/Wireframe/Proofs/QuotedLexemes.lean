import Wireframe.Proofs.TokenTrivia

/-! Texts between quotes. A quote closes a text unless an odd number of backslashes stands right before it
(`quotedBody_eq_none_iff`). A text that is written between quotes, each character in any of the ways in which
it may be written, is read as the text, and reading goes on right behind the closing quote; where no quote
closes the text, it is reported where it starts (`scan_quoted`). -/

namespace Wireframe.Lexeme

/-- How a character may be written between two of the quotes: as it is, behind a backslash, or as the letter
that stands for it behind a backslash. -/
inductive Writes (quote : Char) : Char → List Char → Prop
  | plain {c : Char} (hslash : c ≠ '\\') (hquote : c ≠ quote) : Writes quote c [c]
  | escaped {c : Char} (hc : c ∉ ['n', 't', 'r']) : Writes quote c ['\\', c]
  | newline : Writes quote '\n' ['\\', 'n']
  | tab : Writes quote '\t' ['\\', 't']
  | carriageReturn : Writes quote '\r' ['\\', 'r']

/-- The body writes the characters of the value one after another. -/
def WritesAll (quote : Char) (value body : List Char) : Prop :=
  ∃ pieces, List.Forall₂ (Writes quote) value pieces ∧ body = pieces.flatten

/-- The number of backslashes that a text ends with. -/
def slashes (cs : List Char) : Nat := (cs.reverse.takeWhile (· = '\\')).length

/-- One of the quotes is there with no backslash of its own: those before it come in pairs. -/
def Closes (quote : Char) (cs : List Char) : Prop :=
  ∃ front back, cs = front ++ quote :: back ∧ Even (slashes front)

/-- The text, which starts at `start`, has a text token with the value in front, and the tokens behind it are
those that are read from `rest` on. -/
def LeadsWith (start : Location) (cs value rest : List Char) : Prop :=
  ∃ slice, slice ++ rest = cs ∧ ∀ fresh, (scan start cs).map (tokens fresh) =
    (scan (start.advance slice) rest).map fun placed =>
      ⟨.string, String.ofList value, start⟩ :: tokens true placed

variable {quote c e : Char} {cs front value body rest slice : List Char} {start : Location}

/-! ### Values -/

theorem unescape_eq_self (h : c ∉ ['n', 't', 'r']) : unescape c = c := by
  simp only [List.mem_cons, List.not_mem_nil, or_false, not_or] at h
  rw [unescape, if_neg h.1, if_neg h.2.1, if_neg h.2.2]

theorem Writes.quotes {piece : List Char} (h : Writes quote c piece) (hbody : Quotes quote body value) :
    Quotes quote (piece ++ body) (c :: value) := by
  cases h with
  | plain hslash hquote => exact .plain hquote hslash hbody
  | escaped hc =>
      have hmeans := hbody.escape (c := c)
      rwa [unescape_eq_self hc] at hmeans
  | newline => exact hbody.escape (c := 'n')
  | tab => exact hbody.escape (c := 't')
  | carriageReturn => exact hbody.escape (c := 'r')

theorem WritesAll.quotes (h : WritesAll quote value body) : Quotes quote body value := by
  obtain ⟨pieces, hpieces, rfl⟩ := h
  induction hpieces with
  | nil => exact .nil
  | cons hpiece _ ih => exact hpiece.quotes ih

theorem writes_unescape (quote c : Char) : Writes quote (unescape c) ['\\', c] := by
  by_cases hc : c ∈ ['n', 't', 'r']
  · simp only [List.mem_cons, List.not_mem_nil, or_false] at hc
    rcases hc with rfl | rfl | rfl
    · exact .newline
    · exact .tab
    · exact .carriageReturn
  · rw [unescape_eq_self hc]
    exact .escaped hc

theorem Quotes.writesAll (h : Quotes quote body value) : WritesAll quote value body := by
  induction h with
  | nil => exact ⟨[], .nil, rfl⟩
  | plain hquote hslash _ ih =>
      obtain ⟨pieces, hpieces, rfl⟩ := ih
      exact ⟨_ :: pieces, .cons (.plain hslash hquote) hpieces, rfl⟩
  | escape _ ih =>
      obtain ⟨pieces, hpieces, rfl⟩ := ih
      exact ⟨_ :: pieces, .cons (writes_unescape quote _) hpieces, rfl⟩

/-! ### The closing quote -/

/-- Behind an even number of backslashes those that follow count for themselves. -/
theorem even_slashes_append (h : Even (slashes front)) :
    Even (slashes (front ++ cs)) ↔ Even (slashes cs) := by
  have hall : slashes (front ++ cs) =
      if slashes cs = cs.length then cs.length + slashes front else slashes cs := by
    rw [slashes, slashes, slashes, List.reverse_append, List.takeWhile_append, List.length_reverse]
    split_ifs
    · rw [List.length_append, List.length_reverse]
    · rfl
  rw [hall]
  split
  · next hcs => rw [Nat.even_add, hcs, iff_true_right h]
  · rfl

theorem slashes_singleton (h : c ≠ '\\') : slashes [c] = 0 := by
  simp [slashes, h]

theorem even_slashes_pair (c : Char) : Even (slashes ['\\', c]) := by
  by_cases hc : c = '\\'
  · subst hc
    exact ⟨1, rfl⟩
  · simp [slashes, hc]

theorem closes_cons (hquote : c ≠ quote) (hslash : c ≠ '\\') : Closes quote (c :: cs) ↔ Closes quote cs := by
  have heven : Even (slashes [c]) := by
    rw [slashes_singleton hslash]
    exact ⟨0, rfl⟩
  constructor
  · rintro ⟨front, back, hsplit, hfront⟩
    cases front with
    | nil => exact absurd (List.cons.inj hsplit).1 hquote
    | cons d front =>
        obtain ⟨rfl, rfl⟩ := List.cons.inj hsplit
        exact ⟨front, back, rfl, (even_slashes_append heven).mp hfront⟩
  · rintro ⟨front, back, rfl, hfront⟩
    exact ⟨c :: front, back, rfl, (even_slashes_append heven).mpr hfront⟩

/-- A character behind a backslash does not close anything, also where it is the quote. -/
theorem closes_escape (hquote : quote ≠ '\\') (c : Char) :
    Closes quote ('\\' :: c :: cs) ↔ Closes quote cs := by
  have heven := even_slashes_pair c
  constructor
  · rintro ⟨front, back, hsplit, hfront⟩
    match front with
    | [] => exact absurd (List.cons.inj hsplit).1.symm hquote
    | [d] =>
        obtain ⟨rfl, -⟩ := List.cons.inj hsplit
        exact absurd hfront (by decide)
    | d :: d' :: front =>
        obtain ⟨rfl, htail⟩ := List.cons.inj hsplit
        obtain ⟨rfl, rfl⟩ := List.cons.inj htail
        exact ⟨front, back, rfl, (even_slashes_append heven).mp hfront⟩
  · rintro ⟨front, back, rfl, hfront⟩
    exact ⟨'\\' :: c :: front, back, rfl, (even_slashes_append heven).mpr hfront⟩

theorem quotedBody_eq_none_iff (hquote : quote ≠ '\\') : quotedBody quote cs = none ↔ ¬Closes quote cs := by
  fun_induction quotedBody quote cs with
  | case1 =>
      refine iff_of_true rfl ?_
      rintro ⟨front, back, hsplit, -⟩
      simp at hsplit
  | case2 cs =>
      refine iff_of_false (fun h => ?_) (not_not.mpr ⟨[], cs, rfl, ⟨0, rfl⟩⟩)
      cases h
  | case3 =>
      refine iff_of_true rfl ?_
      rintro ⟨front, back, hsplit, -⟩
      cases front with
      | nil => exact hquote (List.cons.inj hsplit).1.symm
      | cons d front => simp at hsplit
  | case4 c rest _ ih => rw [Option.map_eq_none_iff, ih, closes_escape hquote]
  | case5 c cs hc hslash ih => rw [Option.map_eq_none_iff, ih, closes_cons hc hslash]

/-! ### Scanning -/

theorem next_quote (hquote : quote = '"' ∨ quote = '\'') (cs : List Char) :
    next quote cs = match quotedBody quote cs with
      | some (value, slice, left) => .ok (⟨quote :: slice, .token .string value⟩, left)
      | none => .error .unterminated := by
  rcases hquote with rfl | rfl
  · cases hbody : quotedBody '"' cs <;> simp [next, isSpace, punctuation?, hbody]
  · cases hbody : quotedBody '\'' cs <;> simp [next, isSpace, punctuation?, hbody]

theorem next_backtick (cs : List Char) :
    next backtick cs = match backtickBody cs with
      | some (value, slice, left) => .ok (⟨backtick :: slice, .token .string value⟩, left)
      | none => .error .unterminated := by
  cases hbody : backtickBody cs <;> simp [next, isSpace, punctuation?, backtick, hbody]

theorem backtickBody_eq_none_iff : backtickBody cs = none ↔ backtick ∉ cs := by
  constructor
  · intro hnone hmem
    obtain ⟨front, back, rfl, hfront⟩ := List.eq_append_cons_of_mem hmem
    rw [backtickBody_of_not_mem hfront] at hnone
    cases hnone
  · intro hplain
    have hdrop : cs.dropWhile (· ≠ backtick) = [] := by
      rw [List.dropWhile_eq_nil_iff]
      intro c hc
      simpa using fun hsame : c = backtick => hplain (hsame ▸ hc)
    simp only [backtickBody, hdrop]

/-- What is reported is not before the text that is read. -/
theorem offset_le_of_scan {found : LexicalFault × Location} (h : scan start cs = .error found) :
    start.offset ≤ found.2.offset := by
  fun_induction scan start cs with
  | case1 => cases h
  | case2 =>
      cases h
      exact le_refl _
  | case3 start c cs lexeme left _ _ ih =>
      have hlater := ih (Results.map_eq_error.mp h)
      rw [Location.offset_advance] at hlater
      omega

theorem scan_eq_error_iff {fault : LexicalFault} :
    scan start (c :: cs) = .error (fault, start) ↔ next c cs = .error fault := by
  rw [scan_cons]
  cases hnext : next c cs with
  | error found => simp
  | ok r =>
      obtain ⟨l, left⟩ := r
      refine iff_of_false (fun h => ?_) nofun
      have hlater := offset_le_of_scan (Results.map_eq_error.mp h)
      have hsome := List.length_pos_iff.mpr (next_text_ne_nil hnext)
      rw [Location.offset_advance] at hlater
      change start.offset + l.text.length ≤ start.offset at hlater
      omega

theorem leadsWith_of_next (h : next c cs = .ok (⟨c :: slice, .token .string value⟩, rest)) :
    LeadsWith start (c :: cs) value rest := by
  refine ⟨c :: slice, next_append h, fun fresh => ?_⟩
  rw [scan_cons, h]
  simp only
  cases scan (start.advance (c :: slice)) rest <;> rfl

/-- Quoted texts, wherever they start. Between two quotes of either kind a text that is written in any way is
read as the text, and reading goes on behind the second quote; the text is reported as unterminated at its
quote exactly when no quote closes it, and else is written in such a way up to some quote. Between backticks
a text is read as it stands up to the next one, and is reported exactly when there is none. -/
theorem scan_quoted (start : Location) :
    (∀ quote ∈ ['"', '\''],
      (∀ value body rest, WritesAll quote value body →
        LeadsWith start (quote :: (body ++ quote :: rest)) value rest) ∧
      ∀ cs, (scan start (quote :: cs) = .error (.unterminated, start) ↔ ¬Closes quote cs) ∧
        (Closes quote cs → ∃ value body rest, WritesAll quote value body ∧ cs = body ++ quote :: rest)) ∧
    (∀ text rest, backtick ∉ text → LeadsWith start (backtick :: (text ++ backtick :: rest)) text rest) ∧
    (∀ cs, scan start (backtick :: cs) = .error (.unterminated, start) ↔ backtick ∉ cs) ∧
    Tokens.report (.unterminated, start) = ⟨.lexical, "Unterminated string", start⟩ := by
  refine ⟨fun quote hquote => ?_, fun text rest htext => ?_, fun cs => ?_, rfl⟩
  · have hquote : quote = '"' ∨ quote = '\'' := by simpa using hquote
    have hslash : quote ≠ '\\' := by
      rintro rfl
      simp at hquote
    refine ⟨fun value body rest hbody => ?_, fun cs => ⟨?_, fun hcloses => ?_⟩⟩
    · have hnext : next quote (body ++ quote :: rest) =
          .ok (⟨quote :: (body ++ [quote]), .token .string value⟩, rest) := by
        rw [next_quote hquote, quotedBody_of_quotes hslash hbody.quotes]
      exact leadsWith_of_next hnext
    · rw [scan_eq_error_iff, next_quote hquote, ← quotedBody_eq_none_iff hslash]
      cases quotedBody quote cs <;> simp
    · cases hread : quotedBody quote cs with
      | none => exact absurd hcloses ((quotedBody_eq_none_iff hslash).mp hread)
      | some r =>
          obtain ⟨value, slice, left⟩ := r
          obtain ⟨body, rfl, hbody⟩ := quotes_of_quotedBody hread
          refine ⟨value, body, left, hbody.writesAll, ?_⟩
          rw [← quotedBody_append hread, List.append_assoc, List.singleton_append]
  · have hnext : next backtick (text ++ backtick :: rest) =
        .ok (⟨backtick :: (text ++ [backtick]), .token .string text⟩, rest) := by
      rw [next_backtick, backtickBody_of_not_mem htext]
    exact leadsWith_of_next hnext
  · rw [scan_eq_error_iff, next_backtick, ← backtickBody_eq_none_iff]
    cases backtickBody cs <;> simp

/-- A text with a quote, an end of line and a backslash in it, a quote behind one backslash, which closes
nothing, and one behind two, which does. -/
theorem scan_quoted_of_escapes :
    ∃ value body, value = "it's\n\\\"".toList ∧ body = "it\\'\\s\\n\\\\\"".toList ∧ WritesAll '\'' value body ∧
      LeadsWith .start ('\'' :: (body ++ '\'' :: ": '".toList)) value ": '".toList ∧
      ¬Closes '"' "ab\\\"".toList ∧
      scan .start ('"' :: "ab\\\"".toList) = .error (.unterminated, .start) ∧
      Closes '"' "ab\\\\\"".toList ∧ scan .start ('"' :: "ab\\\\\"".toList) ≠ .error (.unterminated, .start) ∧
      backtick ∉ "a\\n".toList ∧
      LeadsWith .start (backtick :: ("a\\n".toList ++ [backtick])) "a\\n".toList [] := by
  obtain ⟨hquotes, hbackticks, -, -⟩ := scan_quoted .start
  obtain ⟨hreads, -⟩ := hquotes '\'' (by decide)
  obtain ⟨-, hfails⟩ := hquotes '"' (by decide)
  have hbody : WritesAll '\'' "it's\n\\\"".toList "it\\'\\s\\n\\\\\"".toList := by
    refine ⟨[['i'], ['t'], ['\\', '\''], ['\\', 's'], ['\\', 'n'], ['\\', '\\'], ['"']], ?_, rfl⟩
    exact .cons (.plain (by decide) (by decide)) (.cons (.plain (by decide) (by decide))
      (.cons (.escaped (by decide)) (.cons (.escaped (by decide)) (.cons .newline
        (.cons (.escaped (by decide)) (.cons (.plain (by decide) (by decide)) .nil))))))
  have hopen : ¬Closes '"' "ab\\\"".toList := (quotedBody_eq_none_iff (by decide)).mp (by decide)
  have hclosed : Closes '"' "ab\\\\\"".toList := ⟨"ab\\\\".toList, [], by decide, by decide⟩
  have htext : backtick ∉ "a\\n".toList := by decide
  exact ⟨_, _, rfl, rfl, hbody, hreads _ _ _ hbody, hopen, (hfails _).1.mpr hopen, hclosed,
    fun h => (hfails _).1.mp h hclosed, htext, hbackticks _ [] htext⟩

end Wireframe.Lexeme
