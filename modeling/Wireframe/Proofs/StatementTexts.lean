import Wireframe.Proofs.DocumentExtension
import Wireframe.Proofs.DraftOrder

/-! Texts put together of statements. The tokens of texts that are joined by ends of line are those of the
single texts at other positions, each on lines of its own (`Tokens.exists_read_texts`), so a document is
read by accepting what the texts say one after another, wherever they stand (`Document.read_texts`). -/

namespace Wireframe

namespace Phrase

/-- The tokens of the text are the word, with or without an end of line before and behind it. -/
def HasWord (text : String) (word : List Token) : Prop :=
  ∃ ts, Tokens.read text = .ok ts ∧ ∃ lead ∈ newline?, ∃ trail ∈ newline?, ts.list = lead ++ (word ++ trail)

/-- The word starts and ends with tokens that are no ends of line. -/
structure IsInline (word : List Token) : Prop where
  starts : ∃ t us, word = t :: us ∧ t.kind ≠ .newline
  ends : ∃ us t, word = us ++ [t] ∧ t.kind ≠ .newline

variable {l m : Language Token} {ts word line : List Token} {words : List (List Token)}

/-- Each word ends with a token that is no end of line. -/
def EndsOff (l : Language Token) : Prop := ∀ ts ∈ l, ∃ us t, ts = us ++ [t] ∧ t.kind ≠ .newline

theorem endsOff_oneOf {kinds : List Token.Kind} (h : Token.Kind.newline ∉ kinds) : EndsOff (oneOf kinds) := by
  rintro ts ⟨t, ht, rfl⟩
  exact ⟨[], t, rfl, fun hkind => h (hkind ▸ ht)⟩

theorem EndsOff.mul (h : EndsOff m) (l : Language Token) : EndsOff (l * m) := by
  rintro ts ⟨us, -, vs, hvs, rfl⟩
  obtain ⟨ws, t, rfl, ht⟩ := h vs hvs
  exact ⟨us ++ ws, t, (List.append_assoc ..).symm, ht⟩

theorem endsOff_statement : EndsOff statement := by
  intro ts hts
  rcases mem_statement.mp hts with ⟨s, hs⟩ | hcomponent
  · refine EndsOff.mul ?_ _ ts hs
    cases s with
    | ratio | grid | gap | padding | theme => exact endsOff_oneOf (by decide)
    | colors | weights => exact (endsOff_oneOf (by decide)).mul _
  · exact (((endsOff_oneOf (by decide)).mul _).mul _).mul _ ts hcomponent

theorem isInline_of_mem (h : word ∈ statement) : IsInline word where
  starts := by
    obtain ⟨t, us, rfl, ht⟩ := Statement.startsOff_statement word h
    exact ⟨t, us, rfl, List.ne_of_not_mem_cons ht⟩
  ends := endsOff_statement word h

theorem IsInline.of_shapes {word' : List Token} (h : IsInline word) (hshapes : Reader.SameShapes word word') :
    IsInline word' where
  starts := by
    obtain ⟨t, us, rfl, ht⟩ := h.starts
    obtain ⟨u, left, rfl, hu, -⟩ := hshapes.exists_cons
    exact ⟨u, left, rfl, Reader.kind_eq_of_shape hu ▸ ht⟩
  ends := by
    obtain ⟨us, t, rfl, ht⟩ := h.ends
    rw [Reader.SameShapes, List.map_append] at hshapes
    obtain ⟨left, last, rfl, -, hlast⟩ := List.map_eq_append_iff.mp hshapes.symm
    obtain ⟨u, rfl, hu⟩ := List.map_eq_singleton_iff.mp hlast
    exact ⟨left, u, rfl, Reader.kind_eq_of_shape hu ▸ ht⟩

theorem isInline_of_shapes {moved : List (List Token)} (h : List.Forall₂ Reader.SameShapes words moved)
    (hwords : ∀ word ∈ words, IsInline word) : ∀ word ∈ moved, IsInline word := by
  induction h with
  | nil => exact fun _ hword => absurd hword List.not_mem_nil
  | cons hfirst _ ih =>
      obtain ⟨hword, hothers⟩ := List.forall_mem_cons.mp hwords
      exact List.forall_mem_cons.mpr ⟨hword.of_shapes hfirst, ih hothers⟩

theorem kind_of_mem_newline? (h : line ∈ newline?) : ∀ t ∈ line, t.kind = .newline := by
  rcases mem_newline?.mp h with rfl | ⟨t, ht, rfl⟩
  · exact fun t ht => absurd ht List.not_mem_nil
  · exact List.forall_mem_singleton.mpr ht

theorem IsLines.map {f : Token → Token} (hf : ∀ t, (f t).kind = t.kind) (h : IsLines words ts) :
    IsLines (words.map (List.map f)) (ts.map f) := by
  have hline {line : List Token} (hline : ∀ t ∈ line, t.kind = .newline) :
      ∀ t ∈ line.map f, t.kind = .newline := by
    rw [List.forall_mem_map]
    exact fun t ht => (hf t).trans (hline t ht)
  induction h with
  | none hnone => exact .none (hline hnone)
  | next hmore hend _ ih =>
      rw [List.map_append, List.map_append]
      refine .next (hline hmore) (fun t ht => ?_) ih
      rw [List.head?_map, Option.mem_map] at ht
      obtain ⟨u, hu, rfl⟩ := ht
      exact (hf u).trans (hend u hu)

theorem IsLines.dropNewline (hwords : ∀ word ∈ words, IsInline word) (h : IsLines words ts) :
    IsLines words (dropNewline ts) := by
  have hline {t : Token} {line more : List Token} (ht : t.kind = .newline) :
      Wireframe.dropNewline (t :: line ++ more) = line ++ more := if_pos ht
  cases h with
  | none hnone =>
      cases ts with
      | nil => exact .none hnone
      | cons t line =>
          obtain ⟨ht, hrest⟩ := List.forall_mem_cons.mp hnone
          rw [← List.append_nil (t :: line), hline ht, List.append_nil]
          exact .none hrest
  | @next line word rest words hmore hend hrest =>
      cases line with
      | nil =>
          obtain ⟨t, us, rfl, ht⟩ := (hwords word List.mem_cons_self).starts
          have hkept : Wireframe.dropNewline (t :: us ++ rest) = t :: us ++ rest := if_neg ht
          rw [List.nil_append, hkept]
          exact .next hmore hend hrest
      | cons t line =>
          obtain ⟨ht, hline'⟩ := List.forall_mem_cons.mp hmore
          rw [hline ht]
          exact .next hline' hend hrest

end Phrase

namespace Tokens

open Phrase Reader

theorem isLines_of_hasWord {ts : Tokens} {word lead trail : List Token}
    (hlist : ts.list = lead ++ (word ++ trail)) (hlead : lead ∈ newline?) (htrail : trail ∈ newline?)
    (hword : IsInline word) {words : List (List Token)} {rest : List Token} (hrest : IsLines words rest) :
    IsLines (word :: words) (ts.list ++ ts.lineBreak ++ rest) := by
  obtain ⟨us, last, hus, hlast⟩ := hword.ends
  have hbreak : ∃ line, trail ++ ts.lineBreak = line ∧ line ≠ [] ∧ ∀ t ∈ line, t.kind = .newline := by
    rcases mem_newline?.mp htrail with rfl | ⟨t, ht, rfl⟩
    · have hopen : ts.list.getLast? = some last := by
        rw [hlist, hus]
        simp
      have hkind : some last.kind ≠ some Token.Kind.newline := by simpa using hlast
      refine ⟨[⟨.newline, "\n", ts.stop⟩], ?_, List.cons_ne_nil _ _, List.forall_mem_singleton.mpr rfl⟩
      rw [List.nil_append, lineBreak, hopen]
      exact if_neg hkind
    · have hclosed : ts.list.getLast? = some t := by
        rw [hlist]
        simp
      refine ⟨[t], ?_, List.cons_ne_nil _ _, List.forall_mem_singleton.mpr ht⟩
      rw [lineBreak, hclosed, Option.map_some, ht, if_pos rfl, List.append_nil]
  obtain ⟨line, hline, hsome, hnewlines⟩ := hbreak
  have hall : ts.list ++ ts.lineBreak ++ rest = lead ++ (word ++ (line ++ rest)) := by
    rw [hlist, ← hline]
    simp only [List.append_assoc]
  rw [hall]
  refine .next (kind_of_mem_newline? hlead) (fun t ht => ?_) (hrest.after hnewlines)
  rw [List.head?_append_of_ne_nil _ hsome] at ht
  exact hnewlines t (List.mem_of_mem_head? ht)

/-- The tokens of texts that are joined by ends of line are the words of the texts at other positions, each
on lines of its own. -/
theorem exists_read_texts {texts : List String} {words : List (List Token)}
    (h : List.Forall₂ HasWord texts words) (hwords : ∀ word ∈ words, IsInline word) :
    ∃ ts moved, read ("\n".intercalate texts) = .ok ts ∧ IsLines moved ts.list ∧
      List.Forall₂ SameShapes words moved := by
  induction h with
  | nil =>
      have hempty : read "" = .ok ⟨[], .start⟩ := by
        rw [read, String.toList_empty, Lexeme.scan]
        rfl
      rw [String.intercalate_nil]
      exact ⟨_, [], hempty, .none fun _ ht => absurd ht List.not_mem_nil, .nil⟩
  | @cons text word texts words htext hrest ih =>
      obtain ⟨ts, hread, lead, hlead, trail, htrail, hlist⟩ := htext
      obtain ⟨hword, hothers⟩ := List.forall_mem_cons.mp hwords
      cases hrest with
      | nil =>
          rw [String.intercalate_singleton]
          refine ⟨ts, [word], hread, ?_, .cons rfl .nil⟩
          rw [hlist]
          have hends := kind_of_mem_newline? htrail
          exact .next (kind_of_mem_newline? hlead) (fun t ht => hends t (List.mem_of_mem_head? ht))
            (.none hends)
      | cons =>
          obtain ⟨us, moved, hus, hlines, hshapes⟩ := ih hothers
          rw [String.intercalate_cons_cons, read_append_line hread, hus]
          refine ⟨_, word :: moved.map (List.map (Token.below text.toList)), rfl, ?_, .cons rfl ?_⟩
          · have hbelow := (hlines.dropNewline (isInline_of_shapes hshapes hothers)).map
              (f := Token.below text.toList) fun _ => rfl
            exact isLines_of_hasWord hlist hlead htrail hword hbelow
          · rw [List.forall₂_map_right_iff]
            refine hshapes.imp fun word word' h => ?_
            rw [SameShapes, h, List.map_map]
            rfl

end Tokens

namespace Statement

open Reader

variable {word word' : List Token} {s : Statement}

/-- The tokens say the statement, whatever stands behind them. -/
def ReadsAs (word : List Token) (s : Statement) : Prop :=
  ∀ stop more, reader.run stop (word ++ more) = .ok (s, more)

theorem readsAs_of_run {stop : Token} {more : List Token} (hstop : stop.kind = .endOfInput)
    (h : reader.run stop (word ++ more) = .ok (s, more)) : ReadsAs word s := by
  obtain ⟨front, hfront, hreads⟩ := isFinal_reader.value hstop h
  rw [List.append_cancel_right hfront] at hreads
  exact hreads

/-- Of tokens that are a statement nothing less and nothing more is read, wherever they stand. -/
theorem readsAs_of_shapes {stop : Token} {more rest : List Token} (hword : word ∈ Phrase.statement)
    (hshapes : SameShapes word word') (hstop : stop.kind = .endOfInput)
    (h : reader.run stop (word' ++ more) = .ok (s, rest)) : ReadsAs word' s ∧ rest = more := by
  have hall : SameShapes (word' ++ more) (word ++ more) := by
    rw [SameShapes, List.map_append, List.map_append, hshapes]
  obtain ⟨s', left, hrun, -, hrest⟩ := exists_run_of_shapes hall h
  obtain ⟨-, rfl⟩ : s'.IsSound ∧ left = more :=
    (follows_reader.complete stop more word hword).of_eq_ok hrun
  obtain ⟨front, hfront, -⟩ := isFinal_reader.value hstop h
  have hlength : rest.length = left.length := by
    simpa using congrArg List.length hrest
  obtain ⟨-, rfl⟩ := List.append_inj' hfront hlength
  exact ⟨readsAs_of_run hstop h, rfl⟩

/-- Tokens say the same wherever they stand. -/
theorem ReadsAs.exists_of_shapes (h : ReadsAs word s) (hshapes : SameShapes word word') :
    ∃ s', ReadsAs word' s' ∧ Alike s s' := by
  obtain ⟨stop, hstop⟩ : ∃ stop : Token, stop.kind = .endOfInput := ⟨⟨.endOfInput, "", .start⟩, rfl⟩
  obtain ⟨s', left, hrun, halike, hrest⟩ := exists_run_of_shapes hshapes (by simpa using h stop [])
  obtain rfl : left = [] := List.map_eq_nil_iff.mp hrest.symm
  rw [← List.append_nil word'] at hrun
  exact ⟨s', readsAs_of_run hstop hrun, halike⟩

theorem exists_readsAs {words moved : List (List Token)} {ss : List Statement}
    (hshapes : List.Forall₂ SameShapes words moved) (h : List.Forall₂ ReadsAs words ss) :
    ∃ ss', List.Forall₂ ReadsAs moved ss' ∧ List.Forall₂ Alike ss ss' := by
  induction hshapes generalizing ss with
  | nil =>
      cases h
      exact ⟨[], .nil, .nil⟩
  | cons hword _ ih =>
      obtain ⟨s, ss, hs, hss, rfl⟩ := List.forall₂_cons_left_iff.mp h
      obtain ⟨s', hs', halike⟩ := hs.exists_of_shapes hword
      obtain ⟨ss', hss', halikes⟩ := ih hss
      exact ⟨s' :: ss', .cons hs' hss', .cons halike halikes⟩

end Statement

namespace Draft

open Reader

variable {d d' : Draft} {stop : Token} {ts : List Token} {words : List (List Token)} {ss : List Statement}

/-- What is made of tokens that are statements on lines of their own is what the statements make one after
another. -/
theorem extend_lines {moved : List (List Token)} (hstop : stop.kind = .endOfInput)
    (hwords : ∀ word ∈ words, word ∈ Phrase.statement) (hshapes : List.Forall₂ SameShapes words moved)
    (hlines : Phrase.IsLines moved ts) :
    (d.extend stop ts).value = .ok d' ↔
      ∃ ss, List.Forall₂ Statement.ReadsAs moved ss ∧ d.acceptAll ss = .ok d' := by
  induction hlines generalizing d words with
  | none hline =>
      rw [value_extend, if_pos (by simpa [skipNewlines] using hline)]
      constructor
      · exact fun h => ⟨[], .nil, h⟩
      · rintro ⟨ss, hss, h⟩
        cases hss
        exact h
  | @next line word' rest moved hline hend hmore ih =>
      obtain ⟨word, words, hword, hothers, rfl⟩ := List.forall₂_cons_right_iff.mp hshapes
      obtain ⟨hmem, hmems⟩ := List.forall_mem_cons.mp hwords
      obtain ⟨t, us, hfirst, ht⟩ := ((Phrase.isInline_of_mem hmem).of_shapes hword).starts
      have hskip : skipNewlines (line ++ (word' ++ rest)) = word' ++ rest := by
        rw [skipNewlines_line hline, hfirst]
        exact skipNewlines_cons_of_ne ht
      have hne : word' ++ rest ≠ [] := by
        rw [hfirst]
        exact List.cons_ne_nil _ _
      have hends : LineEnds stop rest := by
        cases rest with
        | nil => exact Or.inr rfl
        | cons u rest => exact Or.inl (hend u rfl)
      rw [value_extend, hskip, if_neg hne]
      constructor
      · intro h
        cases hrun : Statement.reader.run stop (word' ++ rest) with
        | error e => simp [hrun] at h
        | ok r =>
            obtain ⟨s, left⟩ := r
            obtain ⟨hreads, rfl⟩ := Statement.readsAs_of_shapes hmem hword hstop hrun
            simp only [hrun] at h
            cases haccept : (d.accept s).value with
            | error e => simp [haccept] at h
            | ok next =>
                simp only [haccept, if_pos hends] at h
                obtain ⟨ss, hss, hnext⟩ := (ih hmems hothers).mp h
                exact ⟨s :: ss, .cons hreads hss, acceptAll_cons_eq_ok.mpr ⟨next, haccept, hnext⟩⟩
      · rintro ⟨ss, hss, h⟩
        obtain ⟨s, ss, hreads, hrest, rfl⟩ := List.forall₂_cons_left_iff.mp hss
        obtain ⟨next, haccept, hnext⟩ := acceptAll_cons_eq_ok.mp h
        rw [hreads]
        simp only [haccept, if_pos hends]
        exact (ih hmems hothers).mpr ⟨ss, hrest, hnext⟩

theorem finish_of_growAlike {e : Draft} {doc : Document} (h : GrowAlike e e d d')
    (hfinish : d.finish = .ok doc) : d'.finish = .ok doc := by
  obtain ⟨more, hd, hd'⟩ := h.components
  have hcongr := finish_congr h.settings hfinish
  obtain ⟨-, -, -, rfl⟩ := finish_eq_ok.mp hfinish
  rw [hcongr, hd', ← hd]

end Draft

namespace Document

open Reader

/-- A document that is put together of texts is what the texts say one after another. -/
theorem read_texts {texts : List String} {words : List (List Token)} {doc : Document}
    (htexts : List.Forall₂ Phrase.HasWord texts words) (hwords : ∀ word ∈ words, word ∈ Phrase.statement) :
    (read ("\n".intercalate texts)).value = .ok doc ↔
      ∃ ss d, List.Forall₂ Statement.ReadsAs words ss ∧ Draft.acceptAll {} ss = .ok d ∧
        d.finish = .ok doc := by
  obtain ⟨ts, moved, hread, hlines, hshapes⟩ :=
    Tokens.exists_read_texts htexts fun word hword => Phrase.isInline_of_mem (hwords word hword)
  have hstart : Draft.Alike {} {} := ⟨rfl, .refl _⟩
  rw [read_eq_ok]
  constructor
  · rintro ⟨ts', d, hread', hextend, hfinish⟩
    obtain rfl := Except.ok.inj (hread.symm.trans hread')
    obtain ⟨ss, hss, haccept⟩ := (Draft.extend_lines rfl hwords hshapes hlines).mp hextend
    obtain ⟨ss', hss', halike⟩ :=
      Statement.exists_readsAs (hshapes.imp fun _ _ h => h.symm).flip hss
    obtain ⟨d', haccept', hgrow⟩ := Draft.acceptAll_alike hstart halike haccept
    exact ⟨ss', d', hss', haccept', Draft.finish_of_growAlike hgrow hfinish⟩
  · rintro ⟨ss, d, hss, haccept, hfinish⟩
    obtain ⟨ss', hss', halike⟩ := Statement.exists_readsAs hshapes hss
    obtain ⟨d', haccept', hgrow⟩ := Draft.acceptAll_alike hstart halike haccept
    exact ⟨ts, d', hread, (Draft.extend_lines rfl hwords hshapes hlines).mpr ⟨ss', hss', haccept'⟩,
      Draft.finish_of_growAlike hgrow hfinish⟩

end Document
end Wireframe
