import Wireframe.Proofs.DraftRules
import Wireframe.Proofs.LexemeScan
import Wireframe.Proofs.PhraseReaders

/-! Documents are accepted by their phrases. A text that is read as a document has tokens that derive
from `Phrase.document`, and tokens that derive from it are never out of their order: what is then
refused breaks a rule, or has more digits than a number may have (`Document.read_derives`). -/

namespace Wireframe

namespace Lexeme

variable {c : Char} {cs left word value : List Char} {kind : Token.Kind} {l : Lexeme}

/-- An end of line is a token only as a line end of the source, whose repetitions are passed over. -/
theorem kind_next (h : next c cs = .ok (l, left)) (hsense : l.sense = .token kind value) :
    kind ≠ .newline := by
  obtain hmarked | ⟨-, rfl⟩ | ⟨-, rfl⟩ := next_token_cases h hsense
  · have hother : ∀ k ∈ Token.markedKinds, k ≠ .newline := by decide
    exact hother kind hmarked
  · have hother : ∀ k ∈ .identifier :: Token.cellKinds, k ≠ .newline := by decide
    obtain ⟨k, hk, text, hword⟩ :=
      exists_ofWord (c :: cs.takeWhile isWordChar) (cs.dropWhile isWordChar)
    rw [hword] at hsense
    cases hsense
    exact hother kind hk
  · have hother : ∀ k ∈ Token.termKinds ++ [.number], k ≠ .newline := by decide
    obtain ⟨k, hk, text, hnumber⟩ :=
      exists_ofNumber (c :: cs.takeWhile Char.isDigit) (cs.dropWhile Char.isDigit)
    rw [hnumber] at hsense
    cases hsense
    exact hother kind hk

/-- None of the tokens that lexemes stand for by themselves is an end of line. -/
def NoneNewline (placed : List Placed) : Prop :=
  ∀ p ∈ placed, ∀ kind value, p.lexeme.sense = .token kind value → kind ≠ .newline

theorem noneNewline_scan {placed : List Placed} (h : scan .start cs = .ok placed) : NoneNewline placed := by
  intro p hp kind value hsense
  obtain ⟨_, c, rest, left, -, -, hnext⟩ := isReadIn_of_scan h p hp
  exact kind_next hnext hsense

theorem lineEndsOnce_tokens {fresh : Bool} {placed : List Placed} (hplaced : NoneNewline placed) :
    Reader.LineEndsOnce (tokens fresh placed) ∧
      (fresh = false → ∀ t ∈ (tokens fresh placed).head?, t.kind ≠ .newline) := by
  fun_induction tokens fresh placed with
  | case1 => exact ⟨List.isChain_nil, fun _ t ht => absurd ht (Option.not_mem_none t)⟩
  | case2 _ _ _ _ ih => exact ih (List.forall_mem_cons.mp hplaced).2
  | case3 _ _ _ _ ih => exact ih (List.forall_mem_cons.mp hplaced).2
  | case4 p ps hsense ih =>
      obtain ⟨hchain, hhead⟩ := ih (List.forall_mem_cons.mp hplaced).2
      refine ⟨List.isChain_cons.mpr ⟨fun t ht hboth => hhead rfl t ht hboth.2, hchain⟩, ?_⟩
      exact fun hfresh => absurd hfresh (by decide)
  | case5 _ _ _ _ _ ih => exact ih (List.forall_mem_cons.mp hplaced).2
  | case6 fresh p ps kind value hsense ih =>
      obtain ⟨hfirst, hrest⟩ := List.forall_mem_cons.mp hplaced
      have hkind := hfirst kind value hsense
      refine ⟨List.isChain_cons.mpr ⟨fun t _ hboth => hkind hboth.1, (ih hrest).1⟩, fun _ t ht => ?_⟩
      cases ht
      exact hkind

end Lexeme

theorem Tokens.lineEndsOnce_of_read {source : String} {ts : Tokens} (h : Tokens.read source = .ok ts) :
    Reader.LineEndsOnce ts.list := by
  obtain ⟨placed, hplaced, hts⟩ := Results.bind_eq_ok.mp h
  cases hts
  exact (Lexeme.lineEndsOnce_tokens (Lexeme.noneNewline_scan hplaced)).1

namespace Draft

open Reader

variable {d d' : Draft} {stop : Token} {ts word last : List Token} {e : Failure}

/-- A statement in front of the lines after it, the first of which ends its own. -/
theorem mem_statements_of_lineEnds {newline others : List Token} (hword : word ∈ Phrase.statement)
    (hnewline : newline ∈ Phrase.newline?) (hend : LineEnds stop (newline ++ others))
    (hothers : others = [] ∨ others ∈ Phrase.statements * Phrase.newline?) :
    word ++ (newline ++ others) ∈ Phrase.statements * Phrase.newline? := by
  rcases hothers with rfl | ⟨more, hmore, last, hlast, rfl⟩
  · rw [List.append_nil]
    exact Phrase.mem_mul (Phrase.mem_separated_of_mem hword) hnewline
  · have hline : newline ∈ Phrase.token .newline := by
      rcases Phrase.mem_newline?.mp hnewline with rfl | hnewline
      · obtain ⟨next, hnext, row, -, rfl⟩ := hmore
        obtain ⟨t, us, rfl, ht⟩ := Statement.startsOff_statement next hnext
        rcases hend with hkind | hnil
        · exact absurd (List.mem_singleton.mpr hkind) ht
        · cases hnil
      · exact Phrase.mem_token.mpr hnewline
    have hall := Phrase.mem_mul (Phrase.mem_separated_cons hword hline hmore) hlast
    rw [Phrase.statements]
    simpa only [List.append_assoc] using hall

/-- What the tokens of further statements are, once their reading has come to an end. -/
theorem derives_extend (d : Draft) (ts : List Token) (hts : LineEndsOnce ts)
    (h : (d.extend stop ts).value = .ok d') :
    ∃ first ∈ Phrase.newline?, ∃ rest, first ++ rest = ts ∧
      (rest = [] ∨ rest ∈ Phrase.statements * Phrase.newline?) := by
  obtain ⟨first, hfirst, heq⟩ := exists_skipNewlines hts
  refine ⟨first, hfirst, skipNewlines ts, heq, ?_⟩
  rw [value_extend] at h
  split at h
  · next hnil => exact Or.inl hnil
  · right
    cases hrun : Statement.reader.run stop (skipNewlines ts) with
    | error e => simp [hrun] at h
    | ok r =>
        obtain ⟨s, rest⟩ := r
        simp only [hrun] at h
        have hskipped : LineEndsOnce (skipNewlines ts) := (heq ▸ hts).right
        obtain ⟨-, word, hword, hrest⟩ := Statement.follows_reader.sound hskipped hrun
        cases haccept : (d.accept s).value with
        | error e => simp [haccept] at h
        | ok next =>
            simp only [haccept] at h
            split at h
            · next hend =>
              have hshorter : rest.length < ts.length :=
                Nat.lt_of_lt_of_le (Statement.reader.length_lt hrun) (length_skipNewlines_le ts)
              obtain ⟨newline, hnewline, others, rfl, hothers⟩ :=
                derives_extend next rest (hrest ▸ hskipped).right h
              rw [← hrest]
              exact mem_statements_of_lineEnds hword hnewline hend hothers
            · cases h
  termination_by ts.length

theorem component_eq_error {range : Range} {listed : List (String × Token)} {location : Location}
    (h : (d.component range listed location).value = .error e) :
    (∃ fault location, e = .semantic fault location) ∨ ∃ errors, e = .invalid errors := by
  have hcollect (kind : Component.Kind) (entries : List (String × Token)) (p : Component.Properties)
      (h : (collect kind p entries).value = .error e) : ∃ fault location, e = .semantic fault location := by
    induction entries generalizing p with
    | nil => cases h
    | cons entry rest ih =>
        obtain ⟨key, t⟩ := entry
        rw [collect] at h
        split at h
        · exact ih p h
        split at h
        · split at h
          · exact ih _ h
          · cases h
            exact ⟨_, _, rfl⟩
        · exact ih _ h
  rw [component] at h
  split at h
  · cases h
    exact Or.inl ⟨_, _, rfl⟩
  · rw [Noted.value_bind] at h
    rcases Results.bind_eq_error.mp h with h | ⟨p, -, h⟩
    · exact Or.inl (hcollect _ _ _ h)
    · cases hp : Component.ofProperties _ range p with
      | error errors =>
          rw [hp] at h
          cases h
          exact Or.inr ⟨errors, rfl⟩
      | ok c =>
          rw [hp] at h
          cases h

theorem accept_eq_error {s : Statement} (h : (d.accept s).value = .error e) :
    (∃ fault location, e = .semantic fault location) ∨ ∃ errors, e = .invalid errors := by
  cases s with
  | component range listed location =>
      cases hc : (d.component range listed location).value with
      | error e' =>
          rw [accept, Noted.value_bind, hc] at h
          cases h
          exact component_eq_error hc
      | ok c =>
          rw [accept, Noted.value_bind, hc] at h
          cases h
  | grid cols rows location =>
      simp only [accept, Noted.value_pure] at h
      split at h
      · cases h
      · cases h
        exact Or.inl ⟨_, _, rfl⟩
  | ratio | gap | padding | colors | theme | weights => cases h

theorem checkCount_eq_error {axis : Axis} {location : Location} (h : d.checkCount axis location = .error e) :
    ∃ listed, e = .semantic (.weightCount axis listed (d.settings.count axis)) location := by
  rw [checkCount] at h
  split at h
  · cases h
  · cases h
    exact ⟨_, rfl⟩

theorem finish_eq_error (h : d.finish = .error e) :
    (∃ axis listed count location, e = .semantic (.weightCount axis listed count) location) ∨
      ∃ errors, e = .invalid errors := by
  simp only [finish, Results.bind_eq_error] at h
  rcases h with h | ⟨_, _, h⟩
  · obtain ⟨listed, he⟩ := checkCount_eq_error h
    exact Or.inl ⟨_, listed, _, _, he⟩
  rcases h with h | ⟨_, _, h⟩
  · obtain ⟨listed, he⟩ := checkCount_eq_error h
    exact Or.inl ⟨_, listed, _, _, he⟩
  split at h
  · cases h
  · cases h
    exact Or.inr ⟨_, rfl⟩

/-- What is refused with a report, by the rules alone, is a broken rule. -/
theorem isRefusal_of_isReported (he : e.IsReported)
    (h : (∃ fault location, e = .semantic fault location) ∨ ∃ errors, e = .invalid errors) :
    e.IsRefusal := by
  rcases h with ⟨fault, location, rfl⟩ | ⟨errors, rfl⟩
  · trivial
  · exact he.elim

theorem inOrder_accept {s : Statement} (hd : d.IsSound) (hs : s.IsSound) :
    InOrder IsSound (d.accept s).value := by
  have hreported := reported_accept hd hs
  cases h : (d.accept s).value with
  | ok d' => exact hreported.of_eq_ok h
  | error e => exact isRefusal_of_isReported (hreported.of_eq_error h) (accept_eq_error h)

theorem inOrder_finish (hd : d.IsSound) : InOrder (fun _ => True) d.finish := by
  have hreported := reported_finish hd
  cases h : d.finish with
  | ok doc => trivial
  | error e =>
      refine isRefusal_of_isReported (hreported.of_eq_error h) ((finish_eq_error h).imp_left ?_)
      rintro ⟨axis, listed, count, location, he⟩
      exact ⟨_, location, he⟩

/-- The next statement of a draft is accepted or refused, and so is what stands after its line. -/
theorem inOrder_extend_statement {first rest : List Token} (hd : d.IsSound)
    (hfirst : first ∈ Phrase.newline?) (hword : word ∈ Phrase.statement) (hend : LineEnds stop rest)
    (hrest : ∀ d : Draft, d.IsSound → InOrder IsSound (d.extend stop rest).value) :
    InOrder IsSound (d.extend stop (first ++ (word ++ rest))).value := by
  have hread := Statement.follows_reader.complete stop rest word hword
  have hskip : skipNewlines (first ++ (word ++ rest)) = word ++ rest := by
    obtain ⟨t, us, rfl, ht⟩ := Statement.startsOff_statement word hword
    rw [skipNewlines_newline?_append hfirst]
    exact skipNewlines_cons_of_ne (List.ne_of_not_mem_cons ht)
  have hne : word ++ rest ≠ [] := by
    obtain ⟨t, us, rfl, -⟩ := Statement.startsOff_statement word hword
    exact List.cons_ne_nil _ _
  rw [value_extend, hskip, if_neg hne]
  cases hrun : Statement.reader.run stop (word ++ rest) with
  | error e => exact hread.of_eq_error hrun
  | ok r =>
      obtain ⟨s, left⟩ := r
      obtain ⟨hs, rfl⟩ := hread.of_eq_ok hrun
      simp only
      have hstep := inOrder_accept hd hs
      cases haccept : (d.accept s).value with
      | error e => exact hstep.of_eq_error haccept
      | ok d' =>
          simp only [if_pos hend]
          exact hrest d' (hstep.of_eq_ok haccept)

theorem inOrder_extend_of_nil (hd : d.IsSound) (hts : skipNewlines ts = []) :
    InOrder IsSound (d.extend stop ts).value := by
  rw [value_extend, if_pos hts]
  exact hd

theorem inOrder_extend (hd : d.IsSound) (hts : ts ∈ Phrase.document) :
    InOrder IsSound (d.extend stop ts).value := by
  obtain ⟨_, ⟨first, hfirst, body, hbody, rfl⟩, last, hlast, rfl⟩ := hts
  have hskip : skipNewlines last = [] := by
    have h : skipNewlines (last ++ []) = skipNewlines [] := skipNewlines_newline?_append hlast
    rwa [List.append_nil] at h
  rcases Phrase.mem_optional.mp hbody with rfl | hrow
  · simp only [List.append_nil]
    exact inOrder_extend_of_nil hd ((skipNewlines_newline?_append hfirst).trans hskip)
  · simp only [List.append_assoc]
    clear hbody
    have hafter : LineEnds stop last := by
      rcases Phrase.mem_newline?.mp hlast with rfl | ⟨t, ht, rfl⟩
      · exact Or.inr rfl
      · exact Or.inl ht
    revert d first
    refine Phrase.separated_induction (C := fun row => ∀ {d : Draft}, d.IsSound →
      ∀ first ∈ Phrase.newline?, InOrder IsSound (d.extend stop (first ++ (row ++ last))).value) ?_ ?_ hrow
    · intro word hword d hd first hfirst
      exact inOrder_extend_statement hd hfirst hword hafter fun d hd => inOrder_extend_of_nil hd hskip
    · intro word hword newline hnewline more hmore ih d hd first hfirst
      rw [List.append_assoc]
      obtain ⟨t, ht, rfl⟩ := Phrase.mem_token.mp hnewline
      refine inOrder_extend_statement hd hfirst hword (Or.inl ht) fun d hd => ?_
      rw [List.append_assoc]
      exact ih hd [t] (Phrase.mem_newline?.mpr (Or.inr ⟨t, ht, rfl⟩))

end Draft

namespace Document

variable {source : String} {ts : Tokens}

theorem value_read (h : Tokens.read source = .ok ts) :
    (read source).value = (Draft.extend {} ts.last ts.list).value.bind Draft.finish := by
  rw [read, h]
  exact value_ofTokens ts

/-- A source whose tokens derive from the phrases is read, or refused for what it says. -/
theorem inOrder_read (h : Tokens.read source = .ok ts) (hts : ts.list ∈ Phrase.document) :
    InOrder (fun _ => True) (read source).value := by
  rw [value_read h]
  have hstart : Draft.IsSound {} := ⟨Settings.isSound_default, fun _ hc => absurd hc List.not_mem_nil⟩
  have hextend : InOrder Draft.IsSound (Draft.extend {} ts.last ts.list).value :=
    Draft.inOrder_extend hstart hts
  cases hd : (Draft.extend {} ts.last ts.list).value with
  | error e => exact hextend.of_eq_error hd
  | ok d => exact Draft.inOrder_finish (hextend.of_eq_ok hd)

theorem mem_document_of_read {doc : Document} (h : Tokens.read source = .ok ts)
    (hdoc : (read source).value = .ok doc) : ts.list ∈ Phrase.document := by
  rw [value_read h] at hdoc
  obtain ⟨d, hextend, -⟩ := Results.bind_eq_ok.mp hdoc
  obtain ⟨first, hfirst, rest, hrest, hderives⟩ :=
    Draft.derives_extend {} ts.list (Tokens.lineEndsOnce_of_read h) hextend
  rw [← hrest]
  rcases hderives with rfl | ⟨row, hrow, last, hlast, rfl⟩
  · have hempty := Phrase.mem_mul (Phrase.mem_mul hfirst (Phrase.nil_mem_optional (l := Phrase.statements)))
      (Phrase.nil_mem_optional (l := Phrase.token .newline))
    rwa [List.append_nil] at hempty
  · have hall := Phrase.mem_mul (Phrase.mem_mul hfirst (Phrase.mem_optional_of_mem hrow)) hlast
    rwa [List.append_assoc] at hall

/-- The reader accepts exactly the phrases of a document. What is read as a document derives from them;
and tokens that derive from them are read, or else refused for a rule of the document that they break,
or for a number with too many digits, which only a text with an overlong row of digits has. -/
theorem read_derives (source : String) (ts : Tokens) (htokens : Tokens.read source = .ok ts) :
    (∀ doc, (read source).value = .ok doc → ts.list ∈ Phrase.document) ∧
    (ts.list ∈ Phrase.document → ∀ e, (read source).value = .error e →
      (∃ fault location, e = .semantic fault location) ∨
        ¬ Numeral.RunsFit source.toList ∧ ∃ tooLong, e = .numeral tooLong) := by
  refine ⟨fun doc => mem_document_of_read htokens, fun hts e he => ?_⟩
  have hrefusal := (inOrder_read htokens hts).of_eq_error he
  cases e with
  | semantic fault location => exact Or.inl ⟨fault, location, rfl⟩
  | numeral tooLong => exact Or.inr ⟨fun hruns => (reported_read hruns).of_eq_error he, tooLong, rfl⟩
  | lexical | grammar | invalid => exact hrefusal.elim

/-- A text of one setting, whose value is one token. -/
theorem setting_mem_document {ts : List Token} {key value : String} {kind : Token.Kind} {s : Setting}
    (hts : ts.map Token.shape = [(.identifier, key), (.colon, ":"), (kind, value)])
    (hkey : Setting.ofKey? key = some s) (hvalue : ∀ t : Token, t.kind = kind → [t] ∈ Phrase.settingValue s) :
    ts ∈ Phrase.document := by
  obtain ⟨t, rest, rfl, ht, hrest⟩ := List.map_eq_cons_iff.mp hts
  obtain ⟨u, rest, rfl, hu, hrest⟩ := List.map_eq_cons_iff.mp hrest
  obtain ⟨v, rest, rfl, hv, hrest⟩ := List.map_eq_cons_iff.mp hrest
  obtain rfl := List.map_eq_nil_iff.mp hrest
  have hname : t.kind = .identifier := congrArg Prod.fst ht
  obtain rfl : t.value = key := congrArg Prod.snd ht
  have hstatement : t :: ([u] ++ [v]) ∈ Phrase.statement := by
    refine Phrase.mem_statement.mpr (Or.inl ⟨s, ?_⟩)
    have hfirst : [t] ∈ Phrase.settingKey s := ⟨t, hname, Phrase.ofKey?_eq_some_iff.mp hkey, rfl⟩
    rw [Phrase.setting, mul_assoc]
    exact Phrase.mem_mul hfirst
      (Phrase.mem_mul (Phrase.singleton_mem_token.mpr (congrArg Prod.fst hu))
        (hvalue v (congrArg Prod.fst hv)))
  have hrow : t :: ([u] ++ [v]) ∈ Phrase.statements := Phrase.mem_separated_of_mem hstatement
  have hall := Phrase.mem_mul (Phrase.mem_mul (Phrase.nil_mem_optional (l := Phrase.token .newline))
    (Phrase.mem_optional_of_mem hrow)) (Phrase.nil_mem_optional (l := Phrase.token .newline))
  rwa [List.append_nil, List.nil_append] at hall

/-- A panel with every kind of separator is read, and a theme that does not exist is refused. -/
theorem read_derives_of_texts :
    (∃ source ts doc, source = "\nCOLORS: \x7b\n a1: '#fff',\n ink: black,\x7d\n\ncolwidths: [1\n2\n3 , 4]\n" ++
        "A1..B2:\n\x7b type: txt\n value: C3, \x7d\n" ∧
      Tokens.read source = .ok ts ∧ (read source).value = .ok doc ∧ ts.list ∈ Phrase.document) ∧
    ∃ source ts e, source = "theme: night" ∧ Tokens.read source = .ok ts ∧ ts.list ∈ Phrase.document ∧
      (read source).value = .error e ∧ ((∃ fault location, e = .semantic fault location) ∨
        ¬ Numeral.RunsFit source.toList ∧ ∃ tooLong, e = .numeral tooLong) := by
  constructor
  · obtain ⟨source, hsource⟩ : ∃ source, source =
        "\nCOLORS: \x7b\n a1: '#fff',\n ink: black,\x7d\n\ncolwidths: [1\n2\n3 , 4]\n" ++
          "A1..B2:\n\x7b type: txt\n value: C3, \x7d\n" := ⟨_, rfl⟩
    have hread : (read source).value.toOption.isSome = true := by
      rw [hsource]
      decide +kernel
    obtain ⟨doc, hdoc⟩ := Option.isSome_iff_exists.mp hread
    have hok := Results.toOption_eq_some.mp hdoc
    obtain ⟨ts, -, htokens, -⟩ := read_eq_ok.mp hok
    exact ⟨source, ts, doc, hsource, htokens, hok, (read_derives source ts htokens).1 doc hok⟩
  · obtain ⟨source, hsource⟩ : ∃ source, source = "theme: night" := ⟨_, rfl⟩
    have hshapes : (Tokens.read source).toOption.map (·.list.map Token.shape) =
        some [(.identifier, "theme"), (.colon, ":"), (.identifier, "night")] := by
      rw [hsource]
      decide +kernel
    have hrefused : (read source).value.toOption.isNone = true := by
      rw [hsource]
      decide +kernel
    obtain ⟨ts, hts, hshape⟩ := Option.map_eq_some_iff.mp hshapes
    have htokens := Results.toOption_eq_some.mp hts
    have hderives : ts.list ∈ Phrase.document :=
      setting_mem_document (s := .theme) hshape (by decide) fun t ht =>
        Phrase.singleton_mem_oneOf.mpr (List.mem_cons.mpr (Or.inl ht))
    cases he : (read source).value with
    | ok doc =>
        rw [he] at hrefused
        cases hrefused
    | error e =>
        exact ⟨source, ts, e, hsource, htokens, hderives, he,
          (read_derives source ts htokens).2 hderives e he⟩

/-- The tokens of a ratio of one to a row of digits. -/
theorem exists_read_ratio {source : String} {d : Char} {ds : List Char} (hd : d.isDigit = true)
    (hds : ∀ e ∈ ds, e.isDigit = true) (hsource : source.toList = "ratio: 1:".toList ++ d :: ds) :
    ∃ ts, Tokens.read source = .ok ts ∧ ts.list.map Token.shape =
      [(.identifier, "ratio"), (.colon, ":"), (.ratio, String.ofList ('1' :: ':' :: d :: ds))] := by
  have hratio : Lexeme.Reads ('1' :: ([] ++ ':' :: d :: (ds ++ [])))
      [.token .ratio ('1' :: ':' :: d :: ds)] :=
    Lexeme.Reads.terms rfl (fun _ h => absurd h List.not_mem_nil) rfl hd hds (Lexeme.breaks_nil _)
      Lexeme.reads_nil
  rw [List.append_nil, List.nil_append] at hratio
  have hcolon : Lexeme.Reads (':' :: ' ' :: '1' :: ':' :: d :: ds)
      [.token .colon [':'], .space, .token .ratio ('1' :: ':' :: d :: ds)] :=
    .punctuation rfl (.space rfl hratio)
  have hatio : ∀ c ∈ ['a', 't', 'i', 'o'], Lexeme.isWordChar c = true := List.all_eq_true.mp rfl
  have hreads := Lexeme.Reads.identifier (c := 'r') (by decide) hatio (by decide)
    (Lexeme.breaks_cons (by decide)) hcolon
  have htext : "ratio: 1:".toList = ['r', 'a', 't', 'i', 'o', ':', ' ', '1', ':'] := by rfl
  have hlist : source.toList = 'r' :: (['a', 't', 'i', 'o'] ++ ':' :: ' ' :: '1' :: ':' :: d :: ds) := by
    rw [hsource, htext]
    rfl
  rw [← hlist] at hreads
  exact Tokens.exists_read hreads

/-- A ratio of one to a row of digits that is too long is refused for it. -/
theorem read_eq_error_of_ratio {ds : List Char} {e : Numeral.TooLong} (htokens : Tokens.read source = .ok ts)
    (hts : ts.list.map Token.shape =
      [(.identifier, "ratio"), (.colon, ":"), (.ratio, String.ofList ('1' :: ':' :: ds))])
    (he : Numeral.read ds = .error e) : (read source).value = .error (.numeral e) := by
  obtain ⟨t, rest, hlist, ht, hrest⟩ := List.map_eq_cons_iff.mp hts
  obtain ⟨u, rest, rfl, hu, hrest⟩ := List.map_eq_cons_iff.mp hrest
  obtain ⟨v, rest, rfl, hv, hrest⟩ := List.map_eq_cons_iff.mp hrest
  obtain rfl := List.map_eq_nil_iff.mp hrest
  have hname : t.kind = .identifier := congrArg Prod.fst ht
  have hkey : t.value = "ratio" := congrArg Prod.snd ht
  have hcolon : u.kind = .colon := congrArg Prod.fst hu
  have hkind : v.kind = .ratio := congrArg Prod.fst hv
  have hvalue : v.value = String.ofList ('1' :: ':' :: ds) := congrArg Prod.snd hv
  have hterms : Statement.ratioTerms v = .error (.numeral e) := by
    have htake : ('1' :: ':' :: ds).takeWhile Char.isDigit = ['1'] := rfl
    have hdrop : (('1' :: ':' :: ds).dropWhile Char.isDigit).drop 1 = ds := rfl
    rw [Statement.ratioTerms, Statement.termsIn, Statement.terms, hvalue, String.toList_ofList]
    simp only [htake, hdrop, he]
    rfl
  have hsetting : Setting.ofKey? "ratio" = some .ratio := by decide
  have hsubject : Statement.Subject.ofToken t = .ok (.setting .ratio) := by
    rw [Statement.Subject.ofToken, if_pos hname, hkey, hsetting]
  have hskip : Reader.skipNewlines [t, u, v] = [t, u, v] :=
    Reader.skipNewlines_cons_of_ne (by simp [hname])
  have hrun : Statement.reader.run ts.last [t, u, v] = .error (.numeral e) := by
    rw [Statement.run_reader_cons, if_pos (List.mem_cons.mpr (Or.inl hname)), hsubject]
    simp [Statement.afterFirst, Statement.colonAfter, Statement.Subject.value, Statement.settingValue,
      Reader.andThen, Reader.map, Reader.check, Reader.token, Reader.oneOf, Reader.oneOfOr, hcolon, hkind,
      hterms, Except.map]
  rw [value_read htokens, Draft.value_extend, hlist, hskip, if_neg (List.cons_ne_nil _ _), hrun]
  rfl

/-- The tokens of this ratio derive from the phrases, and the ratio is refused for the length of its
second term, small as that is. -/
theorem read_overlong_ratio :
    ∃ source ts, source = "ratio: 1:" ++ String.ofList (List.replicate 4300 '0') ++ "1" ∧
      Tokens.read source = .ok ts ∧ ts.list ∈ Phrase.document ∧
      (read source).value = .error (.numeral ⟨4301⟩) ∧
      ∀ fault location, (read source).value ≠ .error (.semantic fault location) := by
  obtain ⟨source, hsource⟩ : ∃ source, source =
      "ratio: 1:" ++ String.ofList (List.replicate 4300 '0') ++ "1" := ⟨_, rfl⟩
  obtain ⟨zeros, hzeros⟩ : ∃ zeros, zeros = List.replicate 4299 '0' := ⟨_, rfl⟩
  have hdigits : ∀ e ∈ zeros ++ ['1'], e.isDigit = true := by
    intro e he
    rcases List.mem_append.mp he with he | he
    · rw [hzeros] at he
      rw [List.eq_of_mem_replicate he]
      rfl
    · rw [List.mem_singleton.mp he]
      rfl
  have hlist : source.toList = "ratio: 1:".toList ++ '0' :: (zeros ++ ['1']) := by
    have hone : "1".toList = ['1'] := by rfl
    have hzero : List.replicate 4300 '0' = '0' :: zeros := by rw [hzeros, List.replicate_succ]
    simp only [hsource, String.toList_append, String.toList_ofList, hone, hzero, List.append_assoc,
      List.cons_append]
  obtain ⟨ts, htokens, hshape⟩ := exists_read_ratio (by decide) hdigits hlist
  have hsecond : Numeral.read ('0' :: (zeros ++ ['1'])) = .error ⟨4301⟩ := by
    have hlength : ('0' :: (zeros ++ ['1'])).length = 4301 := by
      rw [hzeros, List.length_cons, List.length_append, List.length_replicate, List.length_singleton]
    rw [Numeral.read, hlength]
    rfl
  have hread := read_eq_error_of_ratio htokens hshape hsecond
  refine ⟨source, ts, hsource, htokens, ?_, hread, fun fault location hsemantic => ?_⟩
  · refine setting_mem_document (s := .ratio) hshape (by decide) fun t ht => ?_
    exact Phrase.singleton_mem_token.mpr ht
  · rw [hread] at hsemantic
    cases hsemantic

end Document
end Wireframe
