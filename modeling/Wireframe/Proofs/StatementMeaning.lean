import Wireframe.Proofs.ReaderReach

/-! What the tokens of a statement say. A key with a colon and a value says a setting, a cell or a range
with its properties says a component, and lists say their items, whatever separates these
(`Phrase.Says`). A reader tells a relation when the tokens that it takes are in the relation to the value
that it reads; each way of combining readers keeps this, and the reader of statements tells what the
statement says (`Statement.tells_reader`). -/

namespace Wireframe

namespace Phrase

/-- The tokens hold the items of a list one after another, with commas and ends of line around them. -/
inductive Enumerates {α : Type} (item : List Token → α → Prop) : List Token → List α → Prop
  | none {gap : List Token} (hgap : ∀ t ∈ gap, t.kind ∈ [Token.Kind.comma, .newline]) :
      Enumerates item gap []
  | next {gap word rest : List Token} {a : α} {as : List α}
      (hgap : ∀ t ∈ gap, t.kind ∈ [Token.Kind.comma, .newline]) (hword : item word a) :
      Enumerates item rest as → Enumerates item (gap ++ (word ++ rest)) (a :: as)

/-- A name, a colon and a token of one of the kinds. -/
inductive SaysEntry (values : List Token.Kind) : List Token → String × Token → Prop
  | mk {name colon value : Token} (hname : name.kind ∈ [Token.Kind.identifier, .cellRef])
      (hcolon : colon.kind = .colon) (hvalue : value.kind ∈ values) :
      SaysEntry values [name, colon, value] (name.value, value)

/-- The tokens between an opening and a closing token. -/
inductive Encloses (opening closing : Token.Kind) : List Token → List Token → Prop
  | mk {first last : Token} {inner : List Token} (hfirst : first.kind = opening) (hlast : last.kind = closing) :
      Encloses opening closing inner (first :: (inner ++ [last]))

/-- What the tokens behind the colon of a setting say; `key` is the token before the colon. -/
inductive SaysValue (key : Token) : Setting → List Token → Statement → Prop
  | ratio {t : Token} {width height : Nat} (ht : t.kind = .ratio)
      (h : Statement.ratioTerms t = .ok (width, height)) : SaysValue key .ratio [t] (.ratio width height)
  | grid {t : Token} {cols rows : Nat} (ht : t.kind = .grid)
      (h : Statement.gridTerms t = .ok (cols, rows)) :
      SaysValue key .grid [t] (.grid cols rows t.location)
  | gap {t : Token} (ht : t.kind = .number) : SaysValue key .gap [t] (.gap (Statement.decimal t))
  | padding {t : Token} (ht : t.kind = .number) :
      SaysValue key .padding [t] (.padding (Statement.decimal t))
  | colors {inner word : List Token} {entries : List (String × Token)}
      (hentries : Enumerates (SaysEntry [.hexColor, .string, .identifier]) inner entries)
      (hword : Encloses .leftBrace .rightBrace inner word) :
      SaysValue key .colors word (.colors (entries.map fun e => (e.1, e.2.value)))
  | theme {t : Token} (ht : t.kind ∈ [Token.Kind.identifier, .string]) :
      SaysValue key .theme [t] (.theme t.value)
  | weights {inner word : List Token} {axis : Axis} {numbers : List Token}
      (hnumbers : Enumerates (fun word t => t.kind = .number ∧ word = [t]) inner numbers)
      (hword : Encloses .leftBracket .rightBracket inner word) :
      SaysValue key (.weights axis) word (.weights axis (numbers.map Statement.decimal) key.location)

/-- What the tokens of a statement say. -/
inductive Says : List Token → Statement → Prop
  | setting {key colon : Token} {value : List Token} {k : Setting} {s : Statement}
      (hkey : key.kind = .identifier) (hname : lowercase key.value ∈ settingKeys k)
      (hcolon : colon.kind = .colon) (hvalue : SaysValue key k value s) :
      Says (key :: colon :: value) s
  | component {key colon : Token} {line inner word : List Token} {range : Range}
      {entries : List (String × Token)} (hkey : key.kind ∈ [Token.Kind.cellRef, .cellRange])
      (hrange : Range.read key.value.toList = .ok range) (hcolon : colon.kind = .colon)
      (hline : ∀ t ∈ line, t.kind = .newline)
      (hentries : Enumerates
        (SaysEntry [.string, .identifier, .cellRef, .number, .hexColor, .themeRef]) inner entries)
      (hword : Encloses .leftBrace .rightBrace inner word) :
      Says (key :: colon :: (line ++ word)) (.component range entries key.location)

/-- The tokens say the statements, each on lines of its own. -/
def SaysAll (ts : List Token) (ss : List Statement) : Prop :=
  ∃ words, IsLines words ts ∧ List.Forall₂ Says words ss

variable {α β : Type} {item : List Token → α → Prop} {other : List Token → β → Prop} {gap ts : List Token}
  {as : List α}

theorem Enumerates.after (hgap : ∀ t ∈ gap, t.kind ∈ [Token.Kind.comma, .newline])
    (h : Enumerates item ts as) : Enumerates item (gap ++ ts) as := by
  cases h with
  | none hline => exact .none (List.forall_mem_append.mpr ⟨hgap, hline⟩)
  | next hline hword hrest =>
      rw [← List.append_assoc]
      exact .next (List.forall_mem_append.mpr ⟨hgap, hline⟩) hword hrest

/-- Items with values are items of which each has its value. -/
theorem Enumerates.exists_map {f : β → α} (h : Enumerates item ts as)
    (hitem : ∀ word a, item word a → ∃ b, other word b ∧ f b = a) :
    ∃ bs, Enumerates other ts bs ∧ bs.map f = as := by
  induction h with
  | none hgap => exact ⟨[], .none hgap, rfl⟩
  | next hgap hword _ ih =>
      obtain ⟨b, hb, rfl⟩ := hitem _ _ hword
      obtain ⟨bs, hbs, rfl⟩ := ih
      exact ⟨b :: bs, .next hgap hb hbs, rfl⟩

/-- Statements say what they say with others behind them, from the next line on. -/
theorem SaysAll.append {us : List Token} {ss more : List Statement} (h : SaysAll ts ss)
    (hend : ss = [] ∨ ∀ t ∈ us.head?, t.kind = .newline) (hmore : SaysAll us more) :
    SaysAll (ts ++ us) (ss ++ more) := by
  obtain ⟨words, hlines, hsays⟩ := h
  obtain ⟨others, hothers, hsays'⟩ := hmore
  have hnone : ss = [] → words = [] := fun hnil => List.forall₂_nil_right_iff.mp (hnil ▸ hsays)
  exact ⟨words ++ others, hlines.append (hend.imp_left hnone) hothers, List.rel_append hsays hsays'⟩

end Phrase

namespace Reader

open Phrase

variable {α β : Type} {p : Reader α} {R : List Token → α → Prop} {stop : Token} {ts rest : List Token}

/-- The tokens that the reader takes are in the relation to the value that it reads. -/
structure Tells (p : Reader α) (R : List Token → α → Prop) : Prop where
  exists_word : ∀ {stop ts a rest}, p.run stop ts = .ok (a, rest) → ∃ word, R word a ∧ word ++ rest = ts

theorem Tells.imp {R' : List Token → α → Prop} (hp : p.Tells R) (h : ∀ word a, R word a → R' word a) :
    p.Tells R' where
  exists_word hrun := by
    obtain ⟨word, hword, heq⟩ := hp.exists_word hrun
    exact ⟨word, h word _ hword, heq⟩

theorem tells_oneOfOr {kinds : List Token.Kind} {failure : Token → List Token → Failure} :
    (oneOfOr kinds failure).Tells fun word t => t.kind ∈ kinds ∧ word = [t] where
  exists_word {stop ts a rest} h := by
    cases ts with
    | nil => cases h
    | cons t ts =>
        simp only [oneOfOr] at h
        split at h
        · next hkind =>
          cases h
          exact ⟨[a], ⟨hkind, rfl⟩, rfl⟩
        · cases h

theorem tells_token {kind : Token.Kind} {context : String} :
    (token kind context).Tells fun word t => t.kind = kind ∧ word = [t] :=
  tells_oneOfOr.imp fun _ _ h => ⟨List.mem_singleton.mp h.1, h.2⟩

theorem Tells.andThen {f : α → Reader β} {S : α → List Token → β → Prop} (hp : p.Tells R)
    (hf : ∀ a, (f a).Tells (S a)) :
    (p.andThen f).Tells fun word b => ∃ a front back, R front a ∧ S a back b ∧ word = front ++ back where
  exists_word h := by
    obtain ⟨a, mid, hrun, hmid⟩ := andThen_eq_ok.mp h
    obtain ⟨front, hfront, rfl⟩ := hp.exists_word hrun
    obtain ⟨back, hback, rfl⟩ := (hf a).exists_word hmid
    exact ⟨front ++ back, ⟨a, front, back, hfront, hback, rfl⟩, List.append_assoc ..⟩

theorem Tells.check {f : α → Except Failure β} (hp : p.Tells R) :
    (p.check f).Tells fun word b => ∃ a, R word a ∧ f a = .ok b where
  exists_word h := by
    obtain ⟨a, hrun, hb⟩ := check_eq_ok.mp h
    obtain ⟨word, hword, heq⟩ := hp.exists_word hrun
    exact ⟨word, ⟨a, hword, hb⟩, heq⟩

theorem Tells.map {f : α → β} (hp : p.Tells R) : (p.map f).Tells fun word b => ∃ a, R word a ∧ f a = b :=
  hp.check.imp fun _ _ ⟨a, ha, hb⟩ => ⟨a, ha, Except.ok.inj hb⟩

theorem Tells.afterNewlines (hp : p.Tells R) :
    p.afterNewlines.Tells fun word a =>
      ∃ line back, (∀ t ∈ line, t.kind = .newline) ∧ R back a ∧ word = line ++ back where
  exists_word {stop ts a rest} h := by
    obtain ⟨line, hline, hts⟩ := exists_newlines ts
    obtain ⟨back, hback, heq⟩ := hp.exists_word h
    exact ⟨line ++ back, ⟨line, back, hline, hback, rfl⟩, by rw [List.append_assoc, heq, hts]⟩

section Lists

variable {closing : Token.Kind}

theorem exists_gap {b : Bool} (h : separator closing stop ts = .ok (b, rest)) :
    ∃ gap, (∀ t ∈ gap, t.kind ∈ [Token.Kind.comma, .newline]) ∧ gap ++ rest = ts := by
  obtain ⟨line, hline, hts⟩ := exists_newlines ts
  have hgap : ∀ t ∈ line, t.kind ∈ [Token.Kind.comma, .newline] := by
    intro t ht
    rw [hline t ht]
    decide
  rw [separator] at h
  split at h
  · next t us hskip =>
    rw [hskip] at hts
    split at h
    · next hcomma =>
      cases h
      refine ⟨line ++ [t], List.forall_mem_append.mpr ⟨hgap, List.forall_mem_singleton.mpr ?_⟩, ?_⟩
      · rw [hcomma]
        decide
      · rw [List.append_assoc, List.singleton_append, hts]
    split at h
    · cases h
      exact ⟨line, hgap, hts⟩
    split at h
    · cases h
      exact ⟨line, hgap, hts⟩
    · cases h
  · next hskip =>
    rw [hskip] at hts
    split at h
    · cases h
      exact ⟨line, hgap, hts⟩
    · cases h

theorem Tells.items (hp : p.Tells R) {as : List α} (h : items closing p stop ts = .ok (as, rest)) :
    ∃ inner, Enumerates R inner as ∧ inner ++ rest = ts := by
  have hgap {line : List Token} (hline : ∀ t ∈ line, t.kind = .newline) :
      ∀ t ∈ line, t.kind ∈ [Token.Kind.comma, .newline] := by
    intro t ht
    rw [hline t ht]
    decide
  fun_induction Reader.items closing p stop ts generalizing as rest with
  | case1 ts _ =>
      cases h
      obtain ⟨line, hline, hts⟩ := exists_newlines ts
      exact ⟨line, .none (hgap hline), hts⟩
  | case2 => cases h
  | case3 => cases h
  | case4 ts _ a mid hread left hsep =>
      cases h
      obtain ⟨line, hline, hts⟩ := exists_newlines ts
      obtain ⟨word, hword, hmid⟩ := hp.exists_word hread
      obtain ⟨gap, hseparates, rfl⟩ := exists_gap hsep
      exact ⟨line ++ (word ++ gap), .next (hgap hline) hword (.none hseparates), by
        rw [List.append_assoc, List.append_assoc, hmid, hts]⟩
  | case5 ts _ a mid hread left hsep hlt ih =>
      obtain ⟨⟨others, last⟩, hrest, hpair⟩ := Results.map_eq_ok.mp h
      cases hpair
      obtain ⟨line, hline, hts⟩ := exists_newlines ts
      obtain ⟨word, hword, hmid⟩ := hp.exists_word hread
      obtain ⟨gap, hseparates, rfl⟩ := exists_gap hsep
      obtain ⟨inner, hinner, rfl⟩ := ih hrest
      refine ⟨line ++ (word ++ (gap ++ inner)), .next (hgap hline) hword (hinner.after hseparates), ?_⟩
      rw [List.append_assoc, List.append_assoc, List.append_assoc, hmid, hts]

theorem Tells.block (hp : p.Tells R) {opening : Token.Kind} {what : String} :
    (block opening closing what p).Tells fun word r =>
      ∃ inner, Enumerates R inner r.1 ∧ Encloses opening closing inner word where
  exists_word h := by
    obtain ⟨first, mid, hfirst, hmid⟩ := andThen_eq_ok.mp h
    obtain ⟨_, ⟨hopening, rfl⟩, rfl⟩ := tells_token.exists_word hfirst
    simp only [closed] at hmid
    split at hmid
    · cases hmid
    · next as left hitems =>
      obtain ⟨inner, hinner, rfl⟩ := hp.items hitems
      obtain ⟨_, ⟨last, ⟨hclosing, rfl⟩, rfl⟩, rfl⟩ := tells_token.map.exists_word hmid
      exact ⟨_, ⟨inner, hinner, .mk hopening hclosing⟩, by simp⟩

end Lists
end Reader

namespace Statement

open Reader Phrase

theorem tells_entry {what : String} {value : Reader Token} {values : List Token.Kind}
    (h : value.Tells fun word t => t.kind ∈ values ∧ word = [t]) :
    (entry what value).Tells (SaysEntry values) := by
  refine (tells_oneOfOr.andThen fun name => tells_token.andThen fun _ => h.map).imp ?_
  rintro word e ⟨name, _, _, ⟨hname, rfl⟩, ⟨colon, _, _, ⟨hcolon, rfl⟩, ⟨t, ⟨ht, rfl⟩, rfl⟩, rfl⟩, rfl⟩
  exact .mk hname hcolon ht

theorem ok_of_someWeights {listed : List Float × Token} {ws : List Float} (h : someWeights listed = .ok ws) :
    listed.1 = ws := by
  rw [someWeights] at h
  split at h
  · cases h
  · exact Except.ok.inj h

theorem ok_of_weight {t : Token} {w : Float} (h : weight t = .ok w) : decimal t = w := by
  rw [weight] at h
  split at h
  · exact Except.ok.inj h
  · cases h

theorem ok_of_themeName {t : Token} {name : String} (h : themeName t = .ok name) : t.value = name := by
  rw [themeName] at h
  split at h
  · exact Except.ok.inj h
  · cases h

theorem ok_of_rangeOf {t : Token} {range : Range} (h : rangeOf t = .ok range) :
    Range.read t.value.toList = .ok range := by
  rw [rangeOf] at h
  split at h
  · next hread =>
    cases h
    exact hread
  · cases h
  · cases h

theorem tells_settingValue (key : Token) (k : Setting) : (settingValue key k).Tells (SaysValue key k) := by
  cases k with
  | ratio =>
      refine tells_token.check.map.imp ?_
      rintro word s ⟨⟨width, height⟩, ⟨t, ⟨ht, rfl⟩, hterms⟩, rfl⟩
      exact .ratio ht hterms
  | grid =>
      refine tells_token.check.imp ?_
      rintro word s ⟨t, ⟨ht, rfl⟩, hs⟩
      obtain ⟨⟨cols, rows⟩, hterms, rfl⟩ := Results.map_eq_ok.mp hs
      exact .grid ht hterms
  | gap =>
      refine tells_token.map.imp ?_
      rintro word s ⟨t, ⟨ht, rfl⟩, rfl⟩
      exact .gap ht
  | padding =>
      refine tells_token.map.imp ?_
      rintro word s ⟨t, ⟨ht, rfl⟩, rfl⟩
      exact .padding ht
  | colors =>
      refine (tells_entry tells_oneOfOr).block.map.imp ?_
      rintro word s ⟨⟨entries, last⟩, ⟨inner, hentries, hword⟩, rfl⟩
      exact .colors hentries hword
  | theme =>
      refine tells_oneOfOr.check.map.imp ?_
      rintro word s ⟨name, ⟨t, ⟨ht, rfl⟩, hname⟩, rfl⟩
      rw [← ok_of_themeName hname]
      exact .theme ht
  | weights axis =>
      refine tells_token.check.block.check.map.imp ?_
      rintro word s ⟨ws, ⟨⟨listed, last⟩, ⟨inner, hlisted, hword⟩, hws⟩, rfl⟩
      obtain rfl := ok_of_someWeights hws
      have hnumber (word : List Token) (w : Float)
          (h : ∃ t : Token, (t.kind = .number ∧ word = [t]) ∧ weight t = .ok w) :
          ∃ t : Token, (t.kind = .number ∧ word = [t]) ∧ decimal t = w := by
        obtain ⟨t, ht, hweight⟩ := h
        exact ⟨t, ht, ok_of_weight hweight⟩
      obtain ⟨numbers, hnumbers, hdecimals⟩ := hlisted.exists_map hnumber
      rw [← hdecimals]
      exact .weights hnumbers hword

theorem tells_componentValue (key : Token) (range : Range) :
    (componentValue key range).Tells fun word s =>
      ∃ line inner block entries, word = line ++ block ∧ s = .component range entries key.location ∧
        (∀ t ∈ line, t.kind = .newline) ∧ Encloses .leftBrace .rightBrace inner block ∧
        Enumerates (SaysEntry [.string, .identifier, .cellRef, .number, .hexColor, .themeRef]) inner entries := by
  refine (tells_entry tells_oneOfOr).block.afterNewlines.map.imp ?_
  rintro word s ⟨⟨entries, last⟩, ⟨line, block, hline, ⟨inner, hentries, hblock⟩, rfl⟩, rfl⟩
  exact ⟨line, inner, block, entries, rfl, rfl, hline, hblock, hentries⟩

/-- The reader of a statement takes the tokens that say the statement. -/
theorem tells_reader : reader.Tells Says where
  exists_word {stop ts s rest} h := by
    cases ts with
    | nil => exact absurd (reader.length_lt h) (Nat.not_lt_zero _)
    | cons key ts =>
        rw [run_reader_cons] at h
        split at h
        · next hkind =>
          split at h
          · cases h
          · next subject hsubject =>
            obtain ⟨colon, mid, hrun, hvalue⟩ := andThen_eq_ok.mp h
            obtain ⟨_, ⟨hcolon, rfl⟩, rfl⟩ := tells_token.exists_word hrun
            rw [Subject.ofToken] at hsubject
            split at hsubject
            · next hidentifier =>
              split at hsubject
              · next k hk =>
                cases hsubject
                obtain ⟨word, hword, rfl⟩ := (tells_settingValue key k).exists_word hvalue
                exact ⟨_, .setting hidentifier (ofKey?_eq_some_iff.mp hk) hcolon hword, rfl⟩
              · cases hsubject
            · next hother =>
              obtain ⟨range, hrange, rfl⟩ := Results.map_eq_ok.mp hsubject
              have hcell := (List.mem_cons.mp hkind).resolve_left hother
              obtain ⟨_, ⟨line, inner, block, entries, rfl, rfl, hline, hblock, hentries⟩, rfl⟩ :=
                (tells_componentValue key range).exists_word hvalue
              exact ⟨_, .component hcell (ok_of_rangeOf hrange) hcolon hline hentries hblock, rfl⟩
        · cases h

end Statement
end Wireframe
