import Wireframe.Proofs.DocumentExtension
import Wireframe.Proofs.TokenTiles

/-! Documents that grow. A statement only adds to the components before it, and the statement of a
component ends with a closing brace. Where a text is cut behind this brace does not matter to the tokens
up to it, as no token goes on over a closing brace. So the components of a text that is read are the first
ones of every longer text that is read (`Document.read_grows`). -/

namespace Wireframe

namespace Lexeme

variable {c : Char} {cs left more value : List Char} {l : Lexeme} {start : Location} {p : Placed}
  {before after placed : List Placed}

theorem punctuation?_eq_rightBrace (h : punctuation? c = some .rightBrace) : c = '\x7d' := by
  rw [punctuation?] at h
  grind

theorem next_rightBrace (h : next c cs = .ok (l, left)) (hsense : l.sense = .token .rightBrace value) :
    c = '\x7d' ∧ l = verbatim .rightBrace ['\x7d'] := by
  obtain ⟨text, sense⟩ := l
  obtain rfl : sense = .token .rightBrace value := hsense
  have hhead : text.head? = some c := next_head? h
  have hspells : Spells .rightBrace value text := isTile_of_next h
  cases hspells with
  | mark hmark =>
      obtain rfl := Option.some.inj hhead
      obtain rfl := punctuation?_eq_rightBrace hmark
      exact ⟨rfl, rfl⟩
  | terms _ hc _ => exact absurd (separator?_eq_some hc).2 (by decide)

/-- A closing brace of a text is one of every text that starts with it, and so is all before the brace. -/
theorem exists_of_scan_append (h : scan start cs = .ok (before ++ p :: after))
    (hp : p.lexeme.sense = .token .rightBrace value) (hlonger : scan start (cs ++ more) = .ok placed) :
    ∃ others, placed = before ++ p :: others := by
  obtain ⟨c, rest, left, htext, hnext, hlocation, -⟩ := exists_of_scan_cons (scan_back h)
  obtain ⟨rfl, hlexeme⟩ := next_rightBrace hnext hp
  have hsealed : Sealed (slices (p :: after)) more := by
    rw [htext]
    exact Or.inl List.mem_cons_self
  rw [scan_append h hsealed, htext, List.cons_append, scan_cons, next_punctuation rfl] at hlonger
  obtain ⟨_, hplaced, rfl⟩ := Results.map_eq_ok.mp hlonger
  obtain ⟨others, -, rfl⟩ := Results.map_eq_ok.mp hplaced
  refine ⟨others, ?_⟩
  rw [← hlocation, ← hlexeme]

/-- A lexeme stands for nothing or for one token, whatever lexemes follow. -/
theorem tokens_cons_cases (fresh : Bool) (p : Placed) :
    (∃ fresh', ∀ ps, tokens fresh (p :: ps) = tokens fresh' ps) ∨
      ∃ t fresh', (t.kind = .newline ∨ p.lexeme.sense = .token t.kind t.value.toList) ∧
        ∀ ps, tokens fresh (p :: ps) = t :: tokens fresh' ps := by
  simp only [tokens]
  cases p.lexeme.sense with
  | space | comment => exact Or.inl ⟨fresh, fun ps => rfl⟩
  | newline =>
      cases fresh with
      | true => exact Or.inr ⟨_, false, Or.inl rfl, fun ps => rfl⟩
      | false => exact Or.inl ⟨false, fun ps => rfl⟩
  | token kind value =>
      exact Or.inr ⟨⟨kind, String.ofList value, p.location⟩, true,
        Or.inr (by rw [String.toList_ofList]), fun ps => rfl⟩

/-- The lexeme of a token, and the tokens up to it when other lexemes follow. -/
theorem exists_of_tokens {fresh : Bool} {front rest : List Token} {t : Token}
    (h : tokens fresh placed = front ++ t :: rest) (ht : t.kind ≠ .newline) :
    ∃ before p after, placed = before ++ p :: after ∧ p.lexeme.sense = .token t.kind t.value.toList ∧
      ∀ others, ∃ rest', tokens fresh (before ++ p :: others) = front ++ t :: rest' := by
  induction placed generalizing fresh front with
  | nil => exact absurd h.symm (List.append_ne_nil_of_right_ne_nil _ (List.cons_ne_nil _ _))
  | cons p ps ih =>
      rcases tokens_cons_cases fresh p with ⟨fresh', htokens⟩ | ⟨u, fresh', hu, htokens⟩
      · rw [htokens] at h
        obtain ⟨before, q, after, rfl, hq, hothers⟩ := ih h
        refine ⟨p :: before, q, after, rfl, hq, fun others => ?_⟩
        rw [List.cons_append, htokens]
        exact hothers others
      · rw [htokens] at h
        cases front with
        | nil =>
            obtain ⟨rfl, -⟩ := List.cons.inj h
            exact ⟨[], p, ps, rfl, hu.resolve_left ht, fun others => ⟨_, htokens others⟩⟩
        | cons v front =>
            obtain ⟨rfl, htail⟩ := List.cons.inj h
            obtain ⟨before, q, after, rfl, hq, hothers⟩ := ih htail
            refine ⟨p :: before, q, after, rfl, hq, fun others => ?_⟩
            obtain ⟨rest', hrest⟩ := hothers others
            rw [List.cons_append, htokens, hrest]
            exact ⟨rest', rfl⟩

end Lexeme

namespace Statement

open Reader

variable {stop : Token} {ts rest : List Token}

/-- A setting is no component. -/
theorem range?_settingValue {key : Token} {setting : Setting} {s : Statement}
    (h : (settingValue key setting).run stop ts = .ok (s, rest)) : s.range? = none := by
  cases setting with
  | grid =>
      obtain ⟨t, -, ht⟩ := check_eq_ok.mp h
      obtain ⟨terms, -, rfl⟩ := Results.map_eq_ok.mp ht
      rfl
  | ratio | gap | padding | colors | theme | weights =>
      obtain ⟨_, -, hs⟩ := check_eq_ok.mp h
      cases hs
      rfl

/-- What is read as the statement of a component is one. -/
theorem exists_component {s : Statement} {range : Range} (hs : s.range? = some range)
    (hts : LineEndsOnce ts) (h : reader.run stop ts = .ok (s, rest)) :
    ∃ word ∈ Phrase.component, word ++ rest = ts := by
  cases ts with
  | nil => exact absurd (reader.length_lt h) (Nat.not_lt_zero _)
  | cons t ts =>
      rw [run_reader_cons] at h
      split at h
      · next hkind =>
        cases hsubject : Subject.ofToken t with
        | error e => simp [hsubject] at h
        | ok subject =>
            simp only [hsubject] at h
            cases subject with
            | setting setting =>
                obtain ⟨_, _, -, hvalue⟩ := andThen_eq_ok.mp h
                rw [range?_settingValue hvalue] at hs
                cases hs
            | component range =>
                have hsound := (Subject.inOrder_ofToken t).of_eq_ok hsubject
                obtain ⟨-, word, hword, rfl⟩ := (follows_afterFirst t hsound).sound hts.tail h
                have hcell : t.kind ∈ [Token.Kind.cellRef, .cellRange] := by
                  refine (List.mem_cons.mp hkind).resolve_left fun hname => ?_
                  rw [Subject.ofToken, if_pos hname] at hsubject
                  split at hsubject
                  · cases hsubject
                  · cases hsubject
                refine ⟨t :: word, ?_, rfl⟩
                rw [Phrase.component, mul_assoc]
                exact Phrase.mem_mul (Phrase.singleton_mem_oneOf.mpr hcell) hword
      · cases h

/-- The statement of a component ends with a closing brace. -/
theorem exists_rightBrace {s : Statement} {range : Range} (hs : s.range? = some range)
    (hts : LineEndsOnce ts) (h : reader.run stop ts = .ok (s, rest)) :
    ∃ front close, close.kind = .rightBrace ∧ front ++ close :: rest = ts := by
  obtain ⟨_, ⟨first, -, _, ⟨second, -, _, ⟨body, -, _, ⟨close, hclose, rfl⟩, rfl⟩, rfl⟩, rfl⟩, rfl⟩ :=
    exists_component hs hts h
  refine ⟨first ++ (second ++ body), close, List.mem_singleton.mp hclose, ?_⟩
  simp only [List.append_assoc, List.cons_append, List.nil_append]

end Statement

namespace Tokens

/-- The tokens up to a closing brace are those of every longer text. -/
theorem exists_of_prefix {shorter longer : String} {ts us : Tokens} {front rest : List Token} {close : Token}
    (hbegins : shorter.toList <+: longer.toList) (h : read shorter = .ok ts)
    (hlonger : read longer = .ok us) (hts : ts.list = front ++ close :: rest)
    (hclose : close.kind = .rightBrace) : ∃ rest', us.list = front ++ close :: rest' := by
  obtain ⟨more, hmore⟩ := hbegins
  obtain ⟨placed, hplaced, hpure⟩ := Results.bind_eq_ok.mp h
  cases hpure
  obtain ⟨placed', hplaced', hpure⟩ := Results.bind_eq_ok.mp hlonger
  cases hpure
  have hkind : close.kind ≠ .newline := by
    rw [hclose]
    decide
  obtain ⟨before, p, after, rfl, hp, hothers⟩ := Lexeme.exists_of_tokens hts hkind
  rw [hclose] at hp
  rw [← hmore] at hplaced'
  obtain ⟨others, rfl⟩ := Lexeme.exists_of_scan_append hplaced hp hplaced'
  exact hothers others

end Tokens

namespace Draft

open Reader

variable {d d' : Draft} {stop : Token} {line rest ts : List Token} {s : Statement} {cs : List Component}

/-- A statement leaves the components that are there, and only the statement of a component adds one. -/
theorem accept_components (h : (d.accept s).value = .ok d') :
    d.components <+: d'.components ∧ (s.range? = none → d'.components = d.components) := by
  rcases accept_cases h with ⟨range, listed, location, c, rfl, -, rfl⟩ | ⟨cols, rows, location, rfl, -, rfl⟩ |
    ⟨-, -, hsame, -⟩
  · refine ⟨List.prefix_append _ _, fun hnone => ?_⟩
    cases hnone
  · exact ⟨List.prefix_rfl, fun _ => rfl⟩
  · rw [hsame]
    exact ⟨List.prefix_rfl, fun _ => rfl⟩

theorem extend_components (d : Draft) (ts : List Token) (h : (d.extend stop ts).value = .ok d') :
    d.components <+: d'.components := by
  rw [value_extend] at h
  split at h
  · cases h
    exact List.prefix_rfl
  · cases hrun : Statement.reader.run stop (skipNewlines ts) with
    | error e => simp [hrun] at h
    | ok r =>
        obtain ⟨s, rest⟩ := r
        simp only [hrun] at h
        cases haccept : (d.accept s).value with
        | error e => simp [haccept] at h
        | ok next =>
            simp only [haccept] at h
            split at h
            · have hshorter : rest.length < ts.length :=
                Nat.lt_of_lt_of_le (Statement.reader.length_lt hrun) (length_skipNewlines_le ts)
              exact (accept_components haccept).1.trans (extend_components next rest h)
            · cases h
  termination_by ts.length

/-- The components come first in whatever is made of the tokens up to one of their closing braces and of
any tokens behind it. -/
def AreSettled (d : Draft) (ts : List Token) (cs : List Component) : Prop :=
  ∃ front close rest, ts = front ++ close :: rest ∧ close.kind = .rightBrace ∧
    ∀ stop' rest' longer, (d.extend stop' (front ++ close :: rest')).value = .ok longer →
      cs <+: longer.components

theorem AreSettled.append (h : d'.AreSettled rest cs)
    (hline : ∀ stop' more longer, (d.extend stop' (line ++ more)).value = .ok longer →
      (d'.extend stop' more).value = .ok longer) : d.AreSettled (line ++ rest) cs := by
  obtain ⟨front, close, last, rfl, hclose, hgrows⟩ := h
  refine ⟨line ++ front, close, last, (List.append_assoc ..).symm, hclose, fun stop' rest' longer h => ?_⟩
  rw [List.append_assoc] at h
  exact hgrows stop' rest' longer (hline stop' _ longer h)

/-- The brace at the end of a component settles what comes first whatever stands behind it. -/
theorem areSettled_of_component {range : Range} (hrange : s.range? = some range)
    (hts : LineEndsOnce (line ++ rest))
    (hrun : Statement.reader.run stop (skipNewlines (line ++ rest)) = .ok (s, rest))
    (hgrows : ∀ stop' more longer, (d.extend stop' (line ++ more)).value = .ok longer →
      cs <+: longer.components) : d.AreSettled (line ++ rest) cs := by
  obtain ⟨newlines, -, hnewlines⟩ := exists_newlines (line ++ rest)
  have hskipped : LineEndsOnce (skipNewlines (line ++ rest)) := by
    rw [← hnewlines] at hts
    exact hts.right
  obtain ⟨front, close, hclose, hend⟩ := Statement.exists_rightBrace hrange hskipped hrun
  have hline : line = newlines ++ front ++ [close] := by
    refine (List.append_left_inj rest).mp ?_
    rw [← hnewlines, ← hend]
    simp only [List.append_assoc, List.singleton_append]
  refine ⟨newlines ++ front, close, rest, ?_, hclose, fun stop' rest' longer h => ?_⟩
  · simp only [hline, List.append_assoc, List.singleton_append]
  · refine hgrows stop' rest' longer ?_
    rw [hline, List.append_assoc, List.singleton_append]
    exact h

/-- What a run adds to the components is settled by a closing brace. -/
theorem areSettled_of_extend (d : Draft) (ts : List Token) (hstop : stop.kind = .endOfInput)
    (hts : LineEndsOnce ts) (h : (d.extend stop ts).value = .ok d') :
    d'.components = d.components ∨ d.AreSettled ts d'.components := by
  by_cases hnil : skipNewlines ts = []
  · rw [value_extend, if_pos hnil] at h
    cases h
    exact Or.inl rfl
  cases hrun : Statement.reader.run stop (skipNewlines ts) with
  | error e =>
      rw [value_extend, if_neg hnil, hrun] at h
      cases h
  | ok r =>
      obtain ⟨s, rest⟩ := r
      obtain ⟨line, rfl, hline⟩ := exists_of_statement hstop hrun
      rw [hline] at h
      obtain ⟨next, haccept, hrest⟩ := Results.bind_eq_ok.mp h
      have hlonger (stop' : Token) (more : List Token) (longer : Draft)
          (h : (d.extend stop' (line ++ more)).value = .ok longer) :
          (next.extend stop' more).value = .ok longer := by
        rw [hline, haccept] at h
        exact resume_eq_ok h
      have hshorter : rest.length < (line ++ rest).length :=
        Nat.lt_of_lt_of_le (Statement.reader.length_lt hrun) (length_skipNewlines_le _)
      rcases areSettled_of_extend next rest hstop hts.right (resume_eq_ok hrest) with hsame | hsettled
      · cases hrange : s.range? with
        | none => exact Or.inl (hsame.trans ((accept_components haccept).2 hrange))
        | some range =>
            -- this is the last statement of a component
            rw [hsame]
            refine Or.inr (areSettled_of_component hrange hts hrun fun stop' more longer h => ?_)
            exact extend_components next more (hlonger stop' more longer h)
      · exact Or.inr (hsettled.append hlonger)
  termination_by ts.length

end Draft

namespace Document

/-- Components stay as a text is written on. When two beginnings of a text are read as documents, the
components of the shorter one are the first components of the longer one, whatever has become of the
settings; the shorter one may end within a token. -/
theorem read_grows (source : String) {n m : Nat} (hnm : n ≤ m) {doc doc' : Document}
    (h : (read (String.ofList (source.toList.take n))).value = .ok doc)
    (h' : (read (String.ofList (source.toList.take m))).value = .ok doc') :
    doc.components <+: doc'.components := by
  obtain ⟨ts, d, htokens, hextend, hfinish⟩ := read_eq_ok.mp h
  obtain ⟨us, d', htokens', hextend', hfinish'⟩ := read_eq_ok.mp h'
  obtain ⟨-, -, -, rfl⟩ := Draft.finish_eq_ok.mp hfinish
  obtain ⟨-, -, -, rfl⟩ := Draft.finish_eq_ok.mp hfinish'
  rcases Draft.areSettled_of_extend {} ts.list rfl (Tokens.lineEndsOnce_of_read htokens) hextend with
    hsame | ⟨front, close, rest, hts, hclose, hgrows⟩
  · show d.components <+: d'.components
    rw [hsame]
    exact List.nil_prefix
  · have hbegins : (String.ofList (source.toList.take n)).toList <+:
        (String.ofList (source.toList.take m)).toList := by
      rw [String.toList_ofList, String.toList_ofList]
      exact List.take_prefix_take_left hnm
    obtain ⟨rest', hus⟩ := Tokens.exists_of_prefix hbegins htokens htokens' hts hclose
    rw [hus] at hextend'
    exact hgrows us.last rest' d' hextend'

/-- The first beginning ends within the number of rows. -/
theorem read_grows_of_grid :
    ∃ source doc doc', source = "A1: \x7btype: txt\x7d\ngrid: 12x12\nB2: \x7btype: box\x7d" ∧
      (read (String.ofList (source.toList.take 26))).value = .ok doc ∧
      (read (String.ofList (source.toList.take 43))).value = .ok doc' ∧
      (doc.settings.grid, doc.ranges) = ((12, 1), [.single ⟨0, 0⟩]) ∧
      (doc'.settings.grid, doc'.ranges) = ((12, 12), [.single ⟨0, 0⟩, .single ⟨1, 1⟩]) ∧
      doc.components <+: doc'.components := by
  obtain ⟨source, hsource⟩ : ∃ source, source =
      "A1: \x7btype: txt\x7d\ngrid: 12x12\nB2: \x7btype: box\x7d" := ⟨_, rfl⟩
  have hshorter : (read (String.ofList (source.toList.take 26))).value.toOption.map
      (fun doc => (doc.settings.grid, doc.ranges)) = some ((12, 1), [.single ⟨0, 0⟩]) := by
    rw [hsource]
    decide +kernel
  have hlonger : (read (String.ofList (source.toList.take 43))).value.toOption.map
      (fun doc => (doc.settings.grid, doc.ranges)) =
        some ((12, 12), [.single ⟨0, 0⟩, .single ⟨1, 1⟩]) := by
    rw [hsource]
    decide +kernel
  obtain ⟨doc, hdoc, hparts⟩ := Option.map_eq_some_iff.mp hshorter
  obtain ⟨doc', hdoc', hparts'⟩ := Option.map_eq_some_iff.mp hlonger
  rw [Results.toOption_eq_some] at hdoc hdoc'
  exact ⟨source, doc, doc', hsource, hdoc, hdoc', hparts, hparts',
    read_grows source (by decide) hdoc hdoc'⟩

end Document
end Wireframe
