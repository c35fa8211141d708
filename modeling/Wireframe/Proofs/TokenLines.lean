import Wireframe.Proofs.DocumentPhrases
import Wireframe.Proofs.LexemeExtension
import Wireframe.Proofs.TokenLocations

/-! Tokens of texts that are put together line by line. Nothing but an open quote reaches over an end of
line, so the tokens of two texts with an end of line between them are those of the first and those of the
second, one end of line between them, and the positions of the second moved down
(`Tokens.read_lines`). -/

namespace Wireframe

/-- Where a position of a text comes to be when lines are put in front of the text. -/
def Location.below (lines : List Char) (l : Location) : Location :=
  ⟨l.line + (1 + lines.count '\n'), l.column, l.offset + (lines.length + 1)⟩

def Token.below (lines : List Char) (t : Token) : Token := { t with location := t.location.below lines }

/-- Tokens without an end of line in front of them. -/
def dropNewline : List Token → List Token
  | [] => []
  | t :: ts => if t.kind = .newline then ts else t :: ts

namespace Location

variable {lines : List Char}

theorem advance_below (l : Location) (cs : List Char) :
    (l.below lines).advance cs = (l.advance cs).below lines := by
  induction cs generalizing l with
  | nil => rfl
  | cons c cs ih =>
      have hstep : (l.below lines).step c = (l.step c).below lines := by
        simp only [step, below]
        split <;> simp only [mk.injEq, true_and] <;> omega
      rw [advance_cons, advance_cons, hstep, ih]

/-- The next line starts below the lines before it. -/
theorem start_below : start.below lines = (start.advance lines).advance ['\n'] := by
  obtain ⟨hline, -, hoffset⟩ := isAfter_advance lines
  simp only [advance_cons, advance_nil, step, if_true, below, start] at hline hoffset ⊢
  simp only [hline, hoffset, mk.injEq, true_and]
  omega

end Location

namespace Lexeme

variable {lines cs : List Char} {fresh : Bool} {front placed : List Placed}

def Placed.below (lines : List Char) (p : Placed) : Placed := { p with location := p.location.below lines }

theorem scan_below (l : Location) (cs : List Char) :
    scan (l.below lines) cs =
      ((scan l cs).map (List.map (Placed.below lines))).mapError fun e => (e.1, e.2.below lines) := by
  fun_induction scan l cs with
  | case1 => rw [scan]; rfl
  | case2 l c cs fault hnext =>
      rw [scan_cons, hnext]
      rfl
  | case3 l c cs lexeme left hnext _ ih =>
      rw [scan_cons, hnext]
      simp only
      rw [Location.advance_below, ih]
      cases scan (l.advance lexeme.text) left <;> rfl

theorem tokens_below (fresh : Bool) (placed : List Placed) :
    tokens fresh (placed.map (Placed.below lines)) = (tokens fresh placed).map (Token.below lines) := by
  fun_induction tokens fresh placed with
  | case1 => rfl
  | case2 fresh p ps hsense ih | case3 fresh p ps hsense ih =>
      simp only [List.map_cons, tokens, Placed.below, hsense, ih]
  | case4 p ps hsense ih =>
      simp only [List.map_cons, tokens, Placed.below, hsense, ih, if_true]
      rfl
  | case5 fresh p ps hsense hstale ih =>
      simp only [List.map_cons, tokens, Placed.below, hsense, ih, if_neg hstale]
  | case6 fresh p ps kind value hsense ih =>
      simp only [List.map_cons, tokens, Placed.below, hsense, ih]
      rfl

/-- No end of line has been counted since the last of the tokens. -/
def freshAfter (fresh : Bool) (ts : List Token) : Bool :=
  (ts.getLast?.map fun t => decide (t.kind ≠ .newline)).getD fresh

theorem freshAfter_cons (t : Token) (ts : List Token) :
    freshAfter fresh (t :: ts) = freshAfter (decide (t.kind ≠ .newline)) ts := by
  rw [freshAfter, freshAfter, List.getLast?_cons]
  cases ts.getLast? <;> rfl

theorem tokens_append (back : List Placed) (hfront : NoneNewline front) :
    tokens fresh (front ++ back) =
      tokens fresh front ++ tokens (freshAfter fresh (tokens fresh front)) back := by
  fun_induction tokens fresh front with
  | case1 => rfl
  | case2 fresh p ps hsense ih | case3 fresh p ps hsense ih =>
      rw [List.cons_append, tokens, hsense]
      exact ih (List.forall_mem_cons.mp hfront).2
  | case4 p ps hsense ih =>
      rw [List.cons_append, tokens, hsense, freshAfter_cons]
      simp only [if_true]
      rw [ih (List.forall_mem_cons.mp hfront).2]
      rfl
  | case5 fresh p ps hsense hstale ih =>
      rw [List.cons_append, tokens, hsense]
      simp only [if_neg hstale]
      exact ih (List.forall_mem_cons.mp hfront).2
  | case6 fresh p ps kind value hsense ih =>
      obtain ⟨hp, hps⟩ := List.forall_mem_cons.mp hfront
      rw [List.cons_append, tokens, hsense, freshAfter_cons, decide_eq_true (hp kind value hsense)]
      simp only
      rw [ih hps]
      rfl

theorem tokens_stale (hplaced : NoneNewline placed) :
    tokens false placed = dropNewline (tokens true placed) := by
  induction placed with
  | nil => rfl
  | cons p ps ih =>
      obtain ⟨hp, hps⟩ := List.forall_mem_cons.mp hplaced
      rw [tokens, tokens]
      cases hsense : p.lexeme.sense with
      | space | comment => exact ih hps
      | newline => rfl
      | token kind value => exact (if_neg (hp kind value hsense)).symm

/-- The lexemes of a text with lines in front of it. -/
theorem scan_lines (h : scan .start lines = .ok placed) (cs : List Char) :
    scan .start (lines ++ '\n' :: cs) =
      ((scan .start cs).map fun found =>
        placed ++ ⟨⟨['\n'], .newline⟩, Location.start.advance lines⟩ :: found.map (Placed.below lines)).mapError
          fun e => (e.1, e.2.below lines) := by
  have hall : scan .start lines = .ok (placed ++ []) := by rwa [List.append_nil]
  have hsealed : Sealed (slices []) ('\n' :: cs) := Or.inr rfl
  have hnext : next '\n' cs = .ok (⟨['\n'], .newline⟩, cs) := next_of_isNext (.newline rfl)
  rw [scan_append hall hsealed, slices_scan h]
  show (scan (Location.start.advance lines) ('\n' :: cs)).map (placed ++ ·) = _
  rw [scan_cons, hnext]
  simp only
  rw [← Location.start_below, scan_below]
  cases scan .start cs <;> rfl

end Lexeme

namespace Tokens

variable {source : String} {ts : Tokens}

/-- The end of line behind the tokens, unless they end with one. -/
def lineBreak (ts : Tokens) : List Token :=
  if ts.list.getLast?.map (·.kind) = some .newline then [] else [⟨.newline, "\n", ts.stop⟩]

theorem tokens_newline (ts : Tokens) (placed : List Lexeme.Placed) :
    Lexeme.tokens (Lexeme.freshAfter true ts.list) (⟨⟨['\n'], .newline⟩, ts.stop⟩ :: placed) =
      ts.lineBreak ++ Lexeme.tokens false placed := by
  rw [Lexeme.tokens, Lexeme.freshAfter, lineBreak]
  cases hlast : ts.list.getLast? with
  | none => rfl
  | some t =>
      by_cases ht : t.kind = .newline
      · simp [ht]
      · simp [ht]

theorem tokens_lines (ts : Tokens) {placed found : List Lexeme.Placed}
    (hts : ts.list = Lexeme.tokens true placed) (hplaced : Lexeme.NoneNewline placed)
    (hfound : Lexeme.NoneNewline found) (lines : List Char) :
    Lexeme.tokens true (placed ++ ⟨⟨['\n'], .newline⟩, ts.stop⟩ :: found.map (Lexeme.Placed.below lines)) =
      ts.list ++ ts.lineBreak ++ (dropNewline (Lexeme.tokens true found)).map (Token.below lines) := by
  rw [Lexeme.tokens_append _ hplaced, ← hts, tokens_newline, Lexeme.tokens_below, Lexeme.tokens_stale hfound,
    List.append_assoc]

/-- The tokens of a text with lines in front of it. -/
theorem read_append_line (h : read source = .ok ts) (text : String) :
    read (source ++ "\n" ++ text) =
      ((read text).map fun us => (⟨ts.list ++ ts.lineBreak ++
        (dropNewline us.list).map (Token.below source.toList), us.stop.below source.toList⟩ : Tokens)).mapError
          fun e => (e.1, e.2.below source.toList) := by
  obtain ⟨placed, hplaced, hts⟩ := Results.bind_eq_ok.mp h
  cases hts
  have hjoined : (source ++ "\n" ++ text).toList = source.toList ++ '\n' :: text.toList := by simp
  rw [read, read, hjoined, Lexeme.scan_lines hplaced]
  cases hfound : Lexeme.scan .start text.toList with
  | error e => rfl
  | ok found =>
      have hstop : Location.start.advance (source.toList ++ '\n' :: text.toList) =
          (Location.start.advance text.toList).below source.toList := by
        rw [← Location.advance_below, Location.start_below, Location.advance_append]
        rfl
      rw [hstop]
      exact congrArg (fun list => Except.ok (Tokens.mk list _))
        (tokens_lines ⟨_, _⟩ rfl (Lexeme.noneNewline_scan hplaced) (Lexeme.noneNewline_scan hfound) source.toList)

/-- What cannot be read in the lines before a text, an open quote apart, cannot be read with the text. -/
theorem read_append_line_of_error {found : LexicalFault × Location} (h : read source = .error found)
    (hfault : found.1 ≠ .unterminated) (text : String) : read (source ++ "\n" ++ text) = .error found := by
  have hjoined : (source ++ "\n" ++ text).toList = source.toList ++ '\n' :: text.toList := by simp
  rcases Results.bind_eq_error.mp h with hscan | ⟨_, _, hok⟩
  · rw [read, hjoined, Lexeme.scan_append_of_error hscan hfault rfl]
    rfl
  · cases hok

theorem dropNewline_append {t : Token} (ht : t.kind ≠ .newline) (us : List Token) :
    dropNewline (us ++ [t]) = dropNewline us ++ [t] := by
  cases us with
  | nil => exact if_neg ht
  | cons u us =>
      simp only [List.cons_append, dropNewline]
      split <;> rfl

/-- Texts are read line by line. With an end of line between two texts the tokens are those of the first,
one end of line, and those of the second moved down, all up to the end of the text; what cannot be read in
the second is moved down as well. What cannot be read in the first, an open quote apart, stays where it
is. -/
theorem read_lines (source text : String) :
    (∀ ts, read source = .ok ts →
      (∀ us, read text = .ok us → ∃ joined, read (source ++ "\n" ++ text) = .ok joined ∧
        joined.all = ts.list ++ ts.lineBreak ++ (dropNewline us.all).map (Token.below source.toList)) ∧
      ∀ fault location, read text = .error (fault, location) →
        read (source ++ "\n" ++ text) = .error (fault, location.below source.toList)) ∧
    ∀ fault location, read source = .error (fault, location) → fault ≠ .unterminated →
      read (source ++ "\n" ++ text) = .error (fault, location) := by
  refine ⟨fun ts hts => ⟨fun us hus => ?_, fun fault location hus => ?_⟩, fun fault location h hfault => ?_⟩
  · rw [read_append_line hts, hus]
    refine ⟨_, rfl, ?_⟩
    have hlast : us.last.kind ≠ .newline := by
      show Token.Kind.endOfInput ≠ .newline
      decide
    rw [all, all, dropNewline_append hlast, List.map_append, ← List.append_assoc]
    rfl
  · rw [read_append_line hts, hus]
    rfl
  · exact read_append_line_of_error h hfault text

theorem read_lines_of_comment :
    ∃ source text ts us joined, source = "a: 1 // b\n" ∧ text = "\n\tc" ∧
      read source = .ok ts ∧ read text = .ok us ∧ read (source ++ "\n" ++ text) = .ok joined ∧
      joined.all.map (·.location) =
        [⟨1, 1, 0⟩, ⟨1, 2, 1⟩, ⟨1, 4, 3⟩, ⟨1, 10, 9⟩, ⟨4, 2, 13⟩, ⟨4, 3, 14⟩] ∧
      joined.all = ts.list ++ ts.lineBreak ++ (dropNewline us.all).map (Token.below source.toList) ∧
      read (source ++ "\n" ++ "d #e") = .error (.badColor "e", ⟨3, 3, 13⟩) ∧
      read ("d #e" ++ "\n" ++ text) = .error (.badColor "e", ⟨1, 3, 2⟩) := by
  have hsource : (read "a: 1 // b\n").toOption.isSome = true := by decide +kernel
  have htext : (read "\n\tc").toOption.isSome = true := by decide +kernel
  have hplaces : (read ("a: 1 // b\n" ++ "\n" ++ "\n\tc")).toOption.map (fun ts => ts.all.map (·.location)) =
      some [⟨1, 1, 0⟩, ⟨1, 2, 1⟩, ⟨1, 4, 3⟩, ⟨1, 10, 9⟩, ⟨4, 2, 13⟩, ⟨4, 3, 14⟩] := by
    decide +kernel
  have hscan : Lexeme.scan .start "d #e".toList = .error (.badColor "e", ⟨1, 3, 2⟩) := by
    decide +kernel
  have hfails : read "d #e" = .error (.badColor "e", ⟨1, 3, 2⟩) := by
    rw [read, hscan]
    rfl
  obtain ⟨ts, hts⟩ := Option.isSome_iff_exists.mp hsource
  obtain ⟨us, hus⟩ := Option.isSome_iff_exists.mp htext
  rw [Results.toOption_eq_some] at hts hus
  obtain ⟨hlines, -⟩ := read_lines "a: 1 // b\n" "\n\tc"
  obtain ⟨joined, hjoined, hall⟩ := (hlines ts hts).1 us hus
  rw [hjoined] at hplaces
  obtain ⟨hbroken, -⟩ := read_lines "a: 1 // b\n" "d #e"
  obtain ⟨-, hbefore⟩ := read_lines "d #e" "\n\tc"
  exact ⟨_, _, ts, us, joined, rfl, rfl, hts, hus, hjoined, Option.some.inj hplaces, hall,
    (hbroken ts hts).2 _ _ hfails, hbefore _ _ hfails (by decide)⟩

end Tokens
end Wireframe
