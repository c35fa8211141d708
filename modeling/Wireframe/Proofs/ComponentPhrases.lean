import Wireframe.Proofs.ReaderStages
import Wireframe.Proofs.ShapeReaders
import Wireframe.Proofs.StatementMeaning
import Wireframe.Proofs.StatementTexts
import Wireframe.Proofs.TextSplit

/-! The tokens of a component. They say one list of entries on one range (`Says.eq_component`), any entries
can be said (`exists_says`), and tokens that have the form of a component and say it are read as it
(`Statement.readsAs_of_says`). -/

namespace Wireframe

namespace Phrase

variable {values : List Token.Kind} {ts us inner inner' word : List Token}
  {entries entries' : List (String × Token)} {opening closing : Token.Kind} {range : Range} {location : Location}
  {s : Statement}

/-- Tokens hold one list of entries only. -/
theorem Enumerates.entries_unique (h : Enumerates (SaysEntry values) ts entries)
    (h' : Enumerates (SaysEntry values) ts entries') : entries = entries' := by
  have hstop {name : Token} (hname : name.kind ∈ [Token.Kind.identifier, .cellRef]) :
      ¬name.kind ∈ [Token.Kind.comma, .newline] := by
    have hnone : ∀ kind ∈ [Token.Kind.identifier, .cellRef], kind ∉ [Token.Kind.comma, .newline] := by decide
    exact hnone name.kind hname
  induction h generalizing entries' with
  | none hgap =>
      cases h' with
      | none => rfl
      | next _ hword =>
          obtain ⟨hname, -, -⟩ := hword
          exact absurd (hgap _ (List.mem_append_right _ List.mem_cons_self)) (hstop hname)
  | @next gap word rest e es hgap hword hrest ih =>
      generalize hts : gap ++ (word ++ rest) = ts at h'
      cases h' with
      | none hgap' =>
          obtain ⟨hname, -, -⟩ := hword
          subst hts
          exact absurd (hgap' _ (List.mem_append_right _ List.mem_cons_self)) (hstop hname)
      | next hgap' hword' hrest' =>
          obtain ⟨hname, -, -⟩ := hword
          obtain ⟨hname', -, -⟩ := hword'
          obtain ⟨-, htail⟩ := Text.append_inj_of_stop hgap hgap' (hstop hname) (hstop hname') hts
          simp only [List.cons.injEq] at htail
          obtain ⟨rfl, -, rfl, rfl⟩ := htail
          rw [ih hrest']

theorem Enumerates.kind_mem (h : Enumerates (SaysEntry values) ts entries) :
    ∀ e ∈ entries, e.2.kind ∈ values := by
  induction h with
  | none => exact fun e he => absurd he List.not_mem_nil
  | next _ hword _ ih =>
      obtain ⟨-, -, hvalue⟩ := hword
      exact List.forall_mem_cons.mpr ⟨hvalue, ih⟩

theorem Encloses.exists_eq (h : Encloses opening closing inner word) :
    ∃ first last, first.kind = opening ∧ word = first :: (inner ++ [last]) := by
  obtain ⟨hfirst, -⟩ := h
  exact ⟨_, _, hfirst, rfl⟩

/-- The parts of tokens that say a component. -/
theorem Says.exists_parts (h : Says word (.component range entries location)) :
    ∃ key colon line first inner last, key.location = location ∧
      key.kind ∈ [Token.Kind.cellRef, .cellRange] ∧ Range.read key.value.toList = .ok range ∧
      (∀ t ∈ line, t.kind = .newline) ∧ first.kind = .leftBrace ∧
      Enumerates (SaysEntry Statement.valueKinds) inner entries ∧
      word = key :: colon :: (line ++ first :: (inner ++ [last])) := by
  generalize hs : Statement.component range entries location = component at h
  cases h with
  | setting _ _ _ hvalue => cases hvalue <;> cases hs
  | component hkey hrange _ hline hentries hblock =>
      cases hs
      obtain ⟨first, last, hfirst, rfl⟩ := hblock.exists_eq
      exact ⟨_, _, _, first, _, last, rfl, hkey, hrange, hline, hfirst, hentries, rfl⟩

/-- Tokens that say a component say no other one, and no setting. -/
theorem Says.eq_component (h : Says word (.component range entries location)) (h' : Says word s) :
    s = .component range entries location := by
  have hbrace {t : Token} (ht : t.kind = .leftBrace) : ¬t.kind = .newline := by
    rw [ht]
    decide
  obtain ⟨key, colon, line, first, inner, last, rfl, hkey, hrange, hline, hfirst, hentries, rfl⟩ :=
    h.exists_parts
  generalize hword : key :: colon :: (line ++ first :: (inner ++ [last])) = word at h'
  cases h' with
  | setting hkey' =>
      obtain ⟨rfl, -⟩ := List.cons.inj hword
      rw [hkey'] at hkey
      exact absurd hkey (by decide)
  | component _ hrange' _ hline' hentries' hblock' =>
      obtain ⟨first', last', hfirst', rfl⟩ := hblock'.exists_eq
      simp only [List.cons.injEq] at hword
      obtain ⟨rfl, -, hlines⟩ := hword
      obtain ⟨-, hinner⟩ := Text.append_inj_of_stop hline hline' (hbrace hfirst) (hbrace hfirst') hlines
      obtain ⟨rfl, -⟩ := List.append_inj' (List.cons.inj hinner).2 rfl
      rw [hrange] at hrange'
      cases hrange'
      rw [hentries.entries_unique hentries']

theorem exists_saysEntry {e : String × Token} (h : e.2.kind ∈ values) :
    ∃ word ∈ entry values, SaysEntry values word e := by
  have hname : Token.Kind.identifier ∈ [Token.Kind.identifier, .cellRef] := List.mem_cons_self
  have hword : [⟨.identifier, e.1, .start⟩] ++ [⟨.colon, ":", .start⟩] ++ [e.2] ∈ entry values :=
    mem_mul (mem_mul (singleton_mem_oneOf.mpr hname) (singleton_mem_token.mpr rfl)) (singleton_mem_oneOf.mpr h)
  have hsays : SaysEntry values [⟨.identifier, e.1, .start⟩, ⟨.colon, ":", .start⟩, e.2] (e.1, e.2) :=
    .mk hname rfl h
  exact ⟨_, hword, hsays⟩

/-- Entries with values of the kinds can be written one after another. -/
theorem exists_separated {e : String × Token} (h : ∀ e' ∈ e :: entries, e'.2.kind ∈ values) :
    ∃ inner ∈ separated separator (entry values), Enumerates (SaysEntry values) inner (e :: entries) := by
  have hnone : ∀ t ∈ ([] : List Token), t.kind ∈ [Token.Kind.comma, .newline] := fun t ht =>
    absurd ht List.not_mem_nil
  induction entries generalizing e with
  | nil =>
      obtain ⟨word, hword, hsays⟩ := exists_saysEntry (h e List.mem_cons_self)
      have hlast : Enumerates (SaysEntry values) ([] ++ (word ++ [])) [e] := .next hnone hsays (.none hnone)
      rw [List.append_nil] at hlast
      exact ⟨word, mem_separated_of_mem hword, hlast⟩
  | cons e' entries ih =>
      obtain ⟨hfirst, hothers⟩ := List.forall_mem_cons.mp h
      obtain ⟨word, hword, hsays⟩ := exists_saysEntry hfirst
      obtain ⟨inner, hinner, henumerates⟩ := ih hothers
      have hcomma : [] ++ [⟨.comma, ",", .start⟩] ++ [] ∈ newline? * token .comma * newline? :=
        mem_mul (mem_mul nil_mem_optional (singleton_mem_token.mpr rfl)) nil_mem_optional
      have hgap : ∀ t ∈ [⟨.comma, ",", .start⟩], Token.kind t ∈ [Token.Kind.comma, .newline] :=
        List.forall_mem_singleton.mpr List.mem_cons_self
      have hall : Enumerates (SaysEntry values) ([] ++ (word ++ ([⟨.comma, ",", .start⟩] ++ inner)))
          (e :: e' :: entries) :=
        .next hnone hsays (henumerates.after hgap)
      exact ⟨_, mem_separated_cons hword (.inl hcomma) hinner, hall⟩

/-- Entries with values of the kinds of values make a component on the range of its first token. -/
theorem exists_says (key : Token) (hkey : key.kind ∈ [Token.Kind.cellRef, .cellRange])
    (hrange : Range.read key.value.toList = .ok range) (h : ∀ e ∈ entries, e.2.kind ∈ Statement.valueKinds) :
    ∃ word ∈ component, Says word (.component range entries key.location) := by
  obtain ⟨inner, hinner, henumerates⟩ : ∃ inner ∈ list propertyEntry,
      Enumerates (SaysEntry Statement.valueKinds) inner entries := by
    cases entries with
    | nil =>
        refine ⟨[], mem_list nil_mem_optional nil_mem_optional nil_mem_optional, ?_⟩
        exact .none fun t ht => absurd ht List.not_mem_nil
    | cons e entries =>
        obtain ⟨inner, hinner, henumerates⟩ := exists_separated h
        have hitems : inner ++ [] ∈ items (entry Statement.valueKinds) := mem_mul hinner nil_mem_optional
        rw [List.append_nil] at hitems
        have hlist := mem_list nil_mem_optional (mem_optional_of_mem hitems) nil_mem_optional
        rw [List.append_nil, List.nil_append] at hlist
        exact ⟨inner, hlist, henumerates⟩
  have hblock : [⟨.leftBrace, "\x7b", .start⟩] ++ inner ++ [⟨.rightBrace, "\x7d", .start⟩] ∈
      token .leftBrace * list propertyEntry * token .rightBrace :=
    mem_mul (mem_mul (singleton_mem_token.mpr rfl) hinner) (singleton_mem_token.mpr rfl)
  have hword : [key] ++ [⟨.colon, ":", .start⟩] ++ ([] ++ ([⟨.leftBrace, "\x7b", .start⟩] ++ inner ++
      [⟨.rightBrace, "\x7d", .start⟩])) ∈ component :=
    mem_mul (mem_mul (singleton_mem_oneOf.mpr hkey) (singleton_mem_token.mpr rfl))
      (mem_mul nil_mem_optional hblock)
  refine ⟨_, hword, ?_⟩
  exact .component hkey hrange rfl (fun t ht => absurd ht List.not_mem_nil) henumerates (.mk rfl rfl)

end Phrase

namespace Statement

open Reader Phrase

variable {word : List Token} {range : Range} {entries : List (String × Token)} {location : Location}

/-- Tokens that are a component and say its entries are read as these entries. -/
theorem readsAs_of_says (hword : word ∈ Phrase.component) (h : Says word (.component range entries location)) :
    ReadsAs word (.component range entries location) := by
  intro stop more
  have hread := follows_reader.complete stop more word (mem_statement.mpr (.inr hword))
  cases hrun : reader.run stop (word ++ more) with
  | error e =>
      have hrefused := hread.of_eq_error hrun
      -- only the range could be refused, and it is read
      obtain ⟨key, _, _, _, _, _, -, hkey, hrange, -, -, -, rfl⟩ := h.exists_parts
      have hname : key.kind ≠ .identifier := by
        intro hname
        rw [hname] at hkey
        exact absurd hkey (by decide)
      have hsubject : Subject.ofToken key = .ok (.component range) := by
        rw [Subject.ofToken, if_neg hname, rangeOf, hrange]
        rfl
      have hgrammar : (afterFirst key (.component range)).Fails fun e => ¬e.IsRefusal :=
        (fails_token fun _ _ => id).andThen fun _ => fails_componentValue (fun _ _ => id) key range
      rw [List.cons_append, run_reader_cons, if_pos (List.mem_cons_of_mem _ hkey), hsubject] at hrun
      exact absurd hrefused (hgrammar _ _ _ hrun)
  | ok r =>
      obtain ⟨s, rest⟩ := r
      obtain ⟨-, rfl⟩ : _ ∧ rest = more := hread.of_eq_ok hrun
      obtain ⟨word', hsays, heq⟩ := tells_reader.exists_word hrun
      obtain rfl : word' = word := List.append_cancel_right heq
      rw [h.eq_component hsays]

end Statement

end Wireframe
