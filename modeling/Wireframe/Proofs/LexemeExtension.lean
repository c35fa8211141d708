import Wireframe.Proofs.LexemeScan

/-! Texts that go on. What follows a text changes nothing of what has been read off its front, where a
closing brace is still to come in the text or the rest starts with an end of line: the scanners stop there
(`next_append_of_sealed`). So the lexemes before such a place are those of the longer text
(`scan_append`), and a fault other than an open quote stays where it is (`scan_append_of_error`). -/

namespace Wireframe.Lexeme

variable {c : Char} {cs left more word text : List Char} {kind : Token.Kind} {l : Lexeme} {p : Char → Bool}
  {start : Location}

/-- No lexeme goes on from `left` into `more`. -/
def Sealed (left more : List Char) : Prop := '\x7d' ∈ left ∨ more.head? = some '\n'

theorem Sealed.of_suffix (h : Sealed left more) (hsuffix : left <:+ cs) : Sealed cs more :=
  h.imp_left fun hmem => hsuffix.subset hmem

theorem Sealed.of_cons (h : Sealed (c :: cs) more) (hc : c ≠ '\x7d') : Sealed cs more :=
  h.imp_left fun hmem => (List.mem_cons.mp hmem).resolve_left hc.symm

theorem Sealed.dropWhile (h : Sealed cs more) (hbrace : p '\x7d' = false) : Sealed (cs.dropWhile p) more := by
  refine h.imp_left fun hmem => ?_
  rw [← List.takeWhile_append_dropWhile (p := p) (l := cs)] at hmem
  refine (List.mem_append.mp hmem).resolve_left fun htake => ?_
  rw [List.mem_takeWhile_imp htake] at hbrace
  cases hbrace

theorem Sealed.breaks (h : Sealed (cs.dropWhile p) more) (hline : p '\n' = false) :
    Breaks p (cs.dropWhile p ++ more) := by
  cases hdrop : cs.dropWhile p with
  | nil =>
      rw [hdrop] at h
      rcases h with hmem | hhead
      · exact absurd hmem List.not_mem_nil
      · intro d hd
        rw [List.nil_append, hhead] at hd
        cases hd
        exact hline
  | cons d ds =>
      have hhead := List.head?_dropWhile_not p cs
      rw [hdrop] at hhead
      exact breaks_cons hhead

/-- A row of characters of a class ends where it did. -/
theorem takeWhile_append_of_sealed (h : Sealed (cs.dropWhile p) more) (hline : p '\n' = false) :
    (cs ++ more).takeWhile p = cs.takeWhile p ∧ (cs ++ more).dropWhile p = cs.dropWhile p ++ more := by
  have hword : ∀ d ∈ cs.takeWhile p, p d = true := fun _ hd => List.mem_takeWhile_imp hd
  have hsplit := takeWhile_append_of_breaks hword (h.breaks hline)
  rwa [← List.append_assoc, List.takeWhile_append_dropWhile] at hsplit

theorem word?_append_of_sealed (h : Sealed cs more) :
    word? (cs ++ more) = (word? cs).map fun r => (r.1, r.2 ++ more) := by
  cases cs with
  | nil =>
      obtain hmem | hhead := h
      · exact absurd hmem List.not_mem_nil
      · obtain ⟨rest, rfl⟩ := List.head?_eq_some_iff.mp hhead
        rfl
  | cons d ds =>
      by_cases hstart : startsWord d = true
      · have hd : d ≠ '\x7d' := by
          rintro rfl
          exact absurd hstart (by decide)
        obtain ⟨htake, hdrop⟩ := takeWhile_append_of_sealed
          ((h.of_cons hd).dropWhile (p := isWordChar) (by decide)) (by decide)
        simp only [List.cons_append, word?, if_pos hstart, htake, hdrop, Option.map_some]
      · simp only [List.cons_append, word?, if_neg hstart, Option.map_none]

theorem rangeTail?_of_ne (h : ∀ rest, cs ≠ '.' :: '.' :: rest) : rangeTail? cs = none := by
  rw [rangeTail?.eq_def]
  split
  · next rest => exact absurd rfl (h rest)
  · rfl

theorem rangeTail?_append_of_sealed (h : Sealed cs more) :
    rangeTail? (cs ++ more) = (rangeTail? cs).map fun r => (r.1, r.2 ++ more) := by
  by_cases hdots : ∃ rest, cs = '.' :: '.' :: rest
  · obtain ⟨rest, rfl⟩ := hdots
    have hrest : Sealed rest more := (h.of_cons (by decide)).of_cons (by decide)
    simp only [List.cons_append, rangeTail?, word?_append_of_sealed hrest]
    cases word? rest with
    | none => rfl
    | some r =>
        simp only [Option.map_some]
        split <;> rfl
  · rw [not_exists] at hdots
    rw [rangeTail?_of_ne hdots, rangeTail?_of_ne, Option.map_none]
    -- fewer than two characters of the text would have to be dots, and nothing in it closes it
    intro rest heq
    rcases cs with _ | ⟨a, _ | ⟨b, ds⟩⟩
    · rcases h with hmem | hhead
      · exact absurd hmem List.not_mem_nil
      · rw [List.nil_append] at heq
        rw [heq] at hhead
        cases hhead
    · obtain ⟨rfl, rfl⟩ := List.cons.inj heq
      rcases h with hmem | hhead
      · exact absurd (List.mem_singleton.mp hmem) (by decide)
      · cases hhead
    · obtain ⟨rfl, htail⟩ := List.cons.inj heq
      obtain ⟨rfl, -⟩ := List.cons.inj htail
      exact hdots ds rfl

theorem ofWord_suffix (word left : List Char) : (ofWord word left).2 <:+ left := by
  rw [ofWord]
  split
  · split
    · next htail => exact ⟨_, rangeTail?_append htail⟩
    · exact List.suffix_rfl
  · exact List.suffix_rfl

theorem ofWord_append_of_sealed (h : Sealed left more) :
    ofWord word (left ++ more) = ((ofWord word left).1, (ofWord word left).2 ++ more) := by
  simp only [ofWord, rangeTail?_append_of_sealed h]
  split
  · cases rangeTail? left <;> rfl
  · rfl

theorem numericTail?_append_of_sealed (h : Sealed cs more) :
    numericTail? (cs ++ more) = (numericTail? cs).map fun r => (r.1, r.2.1, r.2.2 ++ more) := by
  cases cs with
  | nil =>
      obtain hmem | hhead := h
      · exact absurd hmem List.not_mem_nil
      · obtain ⟨rest, rfl⟩ := List.head?_eq_some_iff.mp hhead
        rfl
  | cons d ds =>
      simp only [List.cons_append, numericTail?]
      cases hkind : separator? d with
      | none => rfl
      | some kind =>
          have hd : d ≠ '\x7d' := by
            rintro rfl
            simp [separator?] at hkind
          obtain ⟨htake, hdrop⟩ := takeWhile_append_of_sealed
            ((h.of_cons hd).dropWhile (p := Char.isDigit) (by decide)) (by decide)
          simp only [htake, hdrop]
          split <;> rfl

theorem ofNumber_suffix (digits left : List Char) : (ofNumber digits left).2 <:+ left := by
  rw [ofNumber]
  split
  · next htail => exact ⟨_, numericTail?_append htail⟩
  · exact List.suffix_rfl

theorem ofNumber_append_of_sealed {digits : List Char} (h : Sealed left more) :
    ofNumber digits (left ++ more) = ((ofNumber digits left).1, (ofNumber digits left).2 ++ more) := by
  simp only [ofNumber, numericTail?_append_of_sealed h]
  cases numericTail? left <;> rfl

theorem quotedBody_append_of_some {q : Char} {value slice : List Char}
    (h : quotedBody q cs = some (value, slice, left)) (more : List Char) :
    quotedBody q (cs ++ more) = some (value, slice, left ++ more) := by
  fun_induction quotedBody q cs generalizing value slice left with
  | case1 => cases h
  | case2 =>
      cases h
      exact quotedBody_quote _ _
  | case3 => cases h
  | case4 e rest hquote ih =>
      obtain ⟨⟨v, s, l⟩, hrest, heq⟩ := Option.map_eq_some_iff.mp h
      cases heq
      rw [List.cons_append, List.cons_append, quotedBody_escape (Ne.symm hquote), ih hrest]
      rfl
  | case5 c cs hquote hslash ih =>
      obtain ⟨⟨v, s, l⟩, hrest, heq⟩ := Option.map_eq_some_iff.mp h
      cases heq
      rw [List.cons_append, quotedBody_plain hquote hslash, ih hrest]
      rfl

theorem backtickBody_append_of_some {value slice : List Char}
    (h : backtickBody cs = some (value, slice, left)) (more : List Char) :
    backtickBody (cs ++ more) = some (value, slice, left ++ more) := by
  rw [backtickBody] at h ⊢
  split at h
  · cases h
  · next d _ hdrop =>
    cases h
    have hbreaks : Breaks (fun c => decide (c ≠ backtick)) (d :: (left ++ more)) := by
      have hhead := List.head?_dropWhile_not (fun c => decide (c ≠ backtick)) cs
      rw [hdrop] at hhead
      exact breaks_cons hhead
    have hword : ∀ d ∈ cs.takeWhile (· ≠ backtick), decide (d ≠ backtick) = true := by
      intro d hd
      simpa using List.mem_takeWhile_imp hd
    have hsplit := takeWhile_append_of_breaks hword hbreaks
    rw [← List.cons_append, ← hdrop, ← List.append_assoc, List.takeWhile_append_dropWhile, hdrop] at hsplit
    simp only [hsplit.1, hsplit.2, List.cons_append]

/-- A lexeme is read at the front of a text as long as what it leaves is sealed. -/
theorem IsNext.append (h : IsNext c cs l left) (hsealed : Sealed left more) :
    IsNext c (cs ++ more) l (left ++ more) := by
  cases h with
  | space hc => exact .space hc
  | newline hc => exact .newline hc
  | punctuation hkind => exact .punctuation hkind
  | quoted hc hbody => exact .quoted hc (quotedBody_append_of_some hbody more)
  | backticked hc hbody => exact .backticked hc (backtickBody_append_of_some hbody more)
  | comment hc =>
      obtain ⟨htake, hdrop⟩ := takeWhile_append_of_sealed hsealed (by decide)
      have hc' : c = '/' ∧ (cs ++ more).head? = some '/' :=
        hc.imp_right fun hhead => by rw [List.head?_append, hhead, Option.some_or]
      have hcomment := IsNext.comment hc'
      rwa [htake, hdrop] at hcomment
  | hexColor hc hrun =>
      obtain ⟨htake, hdrop⟩ := takeWhile_append_of_sealed hsealed (by decide)
      rw [← htake] at hrun
      have hcolor := IsNext.hexColor hc hrun
      rwa [htake, hdrop] at hcolor
  | themeRef hc hname =>
      obtain ⟨htake, hdrop⟩ := takeWhile_append_of_sealed hsealed (by decide)
      rw [← htake] at hname
      have href := IsNext.themeRef hc hname
      rwa [htake, hdrop] at href
  | word hc =>
      have hmid := hsealed.of_suffix (ofWord_suffix _ _)
      obtain ⟨htake, hdrop⟩ := takeWhile_append_of_sealed hmid (by decide)
      have hword := @IsNext.word c (cs ++ more) hc
      rwa [htake, hdrop, ofWord_append_of_sealed hmid] at hword
  | number hc =>
      have hmid := hsealed.of_suffix (ofNumber_suffix _ _)
      obtain ⟨htake, hdrop⟩ := takeWhile_append_of_sealed hmid (by decide)
      have hnumber := @IsNext.number c (cs ++ more) hc
      rwa [htake, hdrop, ofNumber_append_of_sealed hmid] at hnumber

theorem next_of_isNext (h : IsNext c cs l left) : next c cs = .ok (l, left) := by
  cases h with
  | space hc => rw [next, if_pos hc]
  | comment hc =>
      have hspace : ¬isSpace c = true := by
        rw [hc.1]
        decide
      rw [next, if_neg hspace, if_pos hc]
  | newline hc =>
      subst hc
      rfl
  | punctuation hkind => exact next_punctuation hkind
  | quoted hc hbody =>
      rcases hc with rfl | rfl
      · simp [next, isSpace, punctuation?, hbody]
      · simp [next, isSpace, punctuation?, hbody]
  | backticked hc hbody =>
      subst hc
      simp [next, isSpace, punctuation?, backtick, hbody]
  | hexColor hc hrun =>
      subst hc
      simp [next, isSpace, punctuation?, backtick, hrun]
  | themeRef hc hname =>
      subst hc
      simp [next, isSpace, punctuation?, backtick, hname]
  | word hc => rw [next_of_not_mem_marks (not_mem_marks (by decide) hc), if_pos hc]
  | number hc =>
      have hstart := startsWord_eq_false_of_isDigit hc
      rw [next_of_not_mem_marks (not_mem_marks (by decide) hc), if_neg (by simp [hstart]), if_pos hc]

theorem next_append_of_sealed (h : next c cs = .ok (l, left)) (hsealed : Sealed left more) :
    next c (cs ++ more) = .ok (l, left ++ more) :=
  next_of_isNext ((isNext_of_next h).append hsealed)

/-- What is wrong where the text `c :: cs` starts, unless a quote stays open there. -/
inductive IsFault (c : Char) (cs : List Char) : LexicalFault → Prop
  | badColor (hc : c = '#')
      (hrun : ¬(((cs.takeWhile Char.isAlphanum).length = 3 ∨ (cs.takeWhile Char.isAlphanum).length = 6) ∧
        (cs.takeWhile Char.isAlphanum).all isHexDigit = true)) :
      IsFault c cs (.badColor (String.ofList (cs.takeWhile Char.isAlphanum)))
  | emptyTheme (hc : c = '$') (hname : cs.takeWhile isThemeChar = []) : IsFault c cs .emptyTheme
  | slash (hc : c = '/') (hhead : cs.head? ≠ some '/') : IsFault c cs (.unexpected c)
  | other (hc : c ∉ marks) (hstart : startsWord c = false) (hdigit : c.isDigit = false) :
      IsFault c cs (.unexpected c)

variable {fault : LexicalFault}

theorem next_slash (cs : List Char) :
    next '/' cs = if cs.head? = some '/' then
        .ok (⟨'/' :: cs.takeWhile (· ≠ '\n'), .comment⟩, cs.dropWhile (· ≠ '\n'))
      else .error (.unexpected '/') := by
  simp [next, isSpace, punctuation?, backtick, startsWord]

theorem next_hash (cs : List Char) :
    next '#' cs =
      if ((cs.takeWhile Char.isAlphanum).length = 3 ∨ (cs.takeWhile Char.isAlphanum).length = 6) ∧
          (cs.takeWhile Char.isAlphanum).all isHexDigit = true then
        .ok (verbatim .hexColor ('#' :: cs.takeWhile Char.isAlphanum), cs.dropWhile Char.isAlphanum)
      else .error (.badColor (String.ofList (cs.takeWhile Char.isAlphanum))) := by
  simp [next, isSpace, punctuation?, backtick]

theorem next_dollar (cs : List Char) :
    next '$' cs = if cs.takeWhile isThemeChar = [] then .error .emptyTheme
      else .ok (verbatim .themeRef ('$' :: cs.takeWhile isThemeChar), cs.dropWhile isThemeChar) := by
  simp [next, isSpace, punctuation?, backtick]

theorem next_of_isFault (h : IsFault c cs fault) : next c cs = .error fault := by
  cases h with
  | badColor hc hrun => rw [hc, next_hash, if_neg hrun]
  | emptyTheme hc hname => rw [hc, next_dollar, if_pos hname]
  | slash hc hhead => rw [hc, next_slash, if_neg hhead]
  | other hc hstart hdigit =>
      rw [next_of_not_mem_marks hc, if_neg (by simp [hstart]), if_neg (by simp [hdigit])]

/-- All that can be wrong. -/
theorem isFault_of_next (h : next c cs = .error fault) (hfault : fault ≠ .unterminated) :
    IsFault c cs fault := by
  by_cases hc : c ∈ marks
  · by_cases hslash : c = '/'
    · subst hslash
      rw [next_slash] at h
      split at h
      · cases h
      · next hhead =>
        cases h
        exact .slash rfl hhead
    by_cases hhash : c = '#'
    · subst hhash
      rw [next_hash] at h
      split at h
      · cases h
      · next hrun =>
        cases h
        exact .badColor rfl hrun
    by_cases hdollar : c = '$'
    · subst hdollar
      rw [next_dollar] at h
      split at h
      · next hname =>
        cases h
        exact .emptyTheme rfl hname
      · cases h
    -- any other mark is a lexeme by itself, or opens a quote
    simp only [marks, List.mem_cons, List.not_mem_nil, or_false, hslash, hhash, hdollar, false_or] at hc
    rcases hc with rfl | rfl | rfl | rfl | rfl | rfl | rfl | rfl | rfl | rfl | rfl | rfl | rfl
    all_goals simp [next, isSpace, punctuation?, backtick] at h
    all_goals
      split at h
      · cases h
      · cases h
        exact absurd rfl hfault
  · rw [next_of_not_mem_marks hc] at h
    split at h
    · cases h
    split at h
    · cases h
    · next hstart hdigit =>
      cases h
      exact .other hc (by simpa using hstart) (by simpa using hdigit)

theorem IsFault.append (h : IsFault c cs fault) (hmore : more.head? = some '\n') :
    IsFault c (cs ++ more) fault := by
  have hsealed (left : List Char) : Sealed left more := Or.inr hmore
  cases h with
  | badColor hc hrun =>
      have htake : (cs ++ more).takeWhile Char.isAlphanum = cs.takeWhile Char.isAlphanum :=
        (takeWhile_append_of_sealed (hsealed _) (by decide)).1
      rw [← htake] at hrun ⊢
      exact .badColor hc hrun
  | emptyTheme hc hname =>
      have htake : (cs ++ more).takeWhile isThemeChar = cs.takeWhile isThemeChar :=
        (takeWhile_append_of_sealed (hsealed _) (by decide)).1
      exact .emptyTheme hc (htake.trans hname)
  | slash hc hhead =>
      refine .slash hc fun hboth => hhead ?_
      rw [List.head?_append, hmore] at hboth
      cases hcs : cs.head? with
      | none =>
          rw [hcs] at hboth
          cases hboth
      | some d =>
          rw [hcs] at hboth
          exact hboth
  | other hc hstart hdigit => exact .other hc hstart hdigit

/-- What cannot be read does not become readable on the next line, unless it is an open quote. -/
theorem next_append_of_error (h : next c cs = .error fault) (hfault : fault ≠ .unterminated)
    (hmore : more.head? = some '\n') : next c (cs ++ more) = .error fault :=
  next_of_isFault ((isFault_of_next h hfault).append hmore)

theorem scan_cons (start : Location) (c : Char) (cs : List Char) :
    scan start (c :: cs) = match next c cs with
      | .error fault => .error (fault, start)
      | .ok (l, left) => (scan (start.advance l.text) left).map (⟨l, start⟩ :: ·) := by
  rw [scan]
  split
  · next h => simp only [h]
  · next h => simp only [h]

/-- The slices of some lexemes, one behind another. -/
def slices (placed : List Placed) : List Char := placed.flatMap (·.lexeme.text)

@[simp] theorem slices_cons (p : Placed) (placed : List Placed) :
    slices (p :: placed) = p.lexeme.text ++ slices placed := List.flatMap_cons

theorem slices_append (front back : List Placed) : slices (front ++ back) = slices front ++ slices back :=
  List.flatMap_append

theorem slices_scan {placed : List Placed} (h : scan start cs = .ok placed) : slices placed = cs := by
  fun_induction scan start cs generalizing placed with
  | case1 =>
      cases h
      rfl
  | case2 => cases h
  | case3 start c cs lexeme left hnext _ ih =>
      obtain ⟨rest, hrest, rfl⟩ := Results.map_eq_ok.mp h
      rw [slices_cons, ih hrest, next_append hnext]

theorem exists_of_scan_cons {p : Placed} {placed : List Placed} (h : scan start cs = .ok (p :: placed)) :
    ∃ c rest left, cs = c :: rest ∧ next c rest = .ok (p.lexeme, left) ∧ p.location = start ∧
      scan (start.advance p.lexeme.text) left = .ok placed := by
  cases cs with
  | nil =>
      rw [scan] at h
      cases h
  | cons c rest =>
      rw [scan_cons] at h
      split at h
      · cases h
      · next l left hnext =>
        obtain ⟨placed', hscan, heq⟩ := Results.map_eq_ok.mp h
        cases heq
        exact ⟨c, rest, left, rfl, hnext, rfl, hscan⟩

/-- The last lexemes of a text are those of the text that they leave. -/
theorem scan_back {front back : List Placed} (h : scan start cs = .ok (front ++ back)) :
    scan (start.advance (slices front)) (slices back) = .ok back := by
  induction front generalizing start cs with
  | nil =>
      rw [List.nil_append] at h
      rw [slices_scan h]
      exact h
  | cons p front ih =>
      obtain ⟨c, rest, left, -, -, rfl, hscan⟩ := exists_of_scan_cons h
      rw [slices_cons, Location.advance_append]
      exact ih hscan

/-- The lexemes in front of a sealed rest are those of the longer text. -/
theorem scan_append {front back : List Placed} (h : scan start cs = .ok (front ++ back))
    (hsealed : Sealed (slices back) more) :
    scan start (cs ++ more) =
      (scan (start.advance (slices front)) (slices back ++ more)).map (front ++ ·) := by
  induction front generalizing start cs with
  | nil =>
      rw [List.nil_append] at h
      rw [slices_scan h]
      cases hscan : scan start (cs ++ more) <;> simp [slices, hscan, Except.map]
  | cons p front ih =>
      obtain ⟨c, rest, left, rfl, hnext, rfl, hscan⟩ := exists_of_scan_cons h
      have hleft : slices (front ++ back) = left := slices_scan hscan
      have hsuffix : slices back <:+ left := by
        rw [← hleft, slices_append]
        exact List.suffix_append _ _
      have hlonger := next_append_of_sealed hnext (hsealed.of_suffix hsuffix)
      rw [List.cons_append, scan_cons, hlonger]
      simp only
      rw [ih hscan, slices_cons, Location.advance_append]
      cases scan _ (slices back ++ more) <;> rfl

/-- A fault stays where it is when the text goes on on the next line, unless it is an open quote. -/
theorem scan_append_of_error {found : LexicalFault × Location} (h : scan start cs = .error found)
    (hfault : found.1 ≠ .unterminated) (hmore : more.head? = some '\n') :
    scan start (cs ++ more) = .error found := by
  fun_induction scan start cs with
  | case1 => cases h
  | case2 start c cs fault hnext =>
      cases h
      rw [List.cons_append, scan_cons, next_append_of_error hnext hfault hmore]
  | case3 start c cs lexeme left hnext _ ih =>
      rw [List.cons_append, scan_cons, next_append_of_sealed hnext (Or.inr hmore)]
      simp only
      rw [ih (Results.map_eq_error.mp h)]
      rfl

end Wireframe.Lexeme
