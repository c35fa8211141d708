import Wireframe.Proofs.DocumentText
import Wireframe.Proofs.DraftRules
import Wireframe.Proofs.PhraseReaders

/-! Readers on tokens of known shapes. A reader takes a row of shapes when, wherever tokens of these shapes
stand in front, it reads them and nothing after them. Each way of combining readers keeps this, so the
lines of a written document are read as the statements that they say (`takes_gridLine`,
`takes_componentLine`). -/

namespace Wireframe

namespace Reader

variable {α β : Type} {p : Reader α} {σ τ : List (Token.Kind × String)} {P : α → Prop} {Q : β → Prop}
  {shape : Token.Kind × String} {kinds : List Token.Kind} {ts : List Token}

/-- Tokens of these shapes are read, for a value with the condition, whatever follows them. -/
def Takes (p : Reader α) (σ : List (Token.Kind × String)) (P : α → Prop) : Prop :=
  ∀ stop ts τ, ts.map Token.shape = σ ++ τ →
    ∃ a rest, p.run stop ts = .ok (a, rest) ∧ P a ∧ rest.map Token.shape = τ

theorem takes_oneOfOr {failure : Token → List Token → Failure} (hkind : shape.1 ∈ kinds) :
    Takes (oneOfOr kinds failure) [shape] fun t => t.shape = shape := by
  intro stop ts τ hts
  obtain ⟨t, rest, rfl, rfl, hrest⟩ := List.map_eq_cons_iff.mp hts
  refine ⟨t, rest, ?_, rfl, hrest⟩
  have ht : t.kind ∈ kinds := hkind
  simp only [oneOfOr, if_pos ht]

theorem takes_token {kind : Token.Kind} {context value : String} :
    Takes (token kind context) [(kind, value)] fun t => t.shape = (kind, value) :=
  takes_oneOfOr (List.mem_singleton.mpr rfl)

theorem Takes.andThen {f : α → Reader β} (hp : Takes p σ P) (hf : ∀ a, P a → Takes (f a) τ Q) :
    Takes (p.andThen f) (σ ++ τ) Q := by
  intro stop ts υ hts
  rw [List.append_assoc] at hts
  obtain ⟨a, mid, hrun, ha, hmid⟩ := hp stop ts _ hts
  obtain ⟨b, rest, hrun', hb, hrest⟩ := hf a ha stop mid υ hmid
  exact ⟨b, rest, andThen_eq_ok.mpr ⟨a, mid, hrun, hrun'⟩, hb, hrest⟩

theorem Takes.check {f : α → Except Failure β} (hp : Takes p σ P)
    (hf : ∀ a, P a → ∃ b, f a = .ok b ∧ Q b) : Takes (p.check f) σ Q := by
  intro stop ts τ hts
  obtain ⟨a, rest, hrun, ha, hrest⟩ := hp stop ts τ hts
  obtain ⟨b, hvalue, hb⟩ := hf a ha
  exact ⟨b, rest, check_eq_ok.mpr ⟨a, hrun, hvalue⟩, hb, hrest⟩

theorem Takes.map {f : α → β} (hp : Takes p σ P) (hf : ∀ a, P a → Q (f a)) : Takes (p.map f) σ Q :=
  hp.check fun a ha => ⟨f a, rfl, hf a ha⟩

theorem skipNewlines_of_shape (hts : ts.map Token.shape = shape :: τ) (hkind : shape.1 ≠ .newline) :
    skipNewlines ts = ts := by
  obtain ⟨t, rest, rfl, rfl, -⟩ := List.map_eq_cons_iff.mp hts
  exact skipNewlines_cons_of_ne hkind

theorem Takes.afterNewlines (hp : Takes p (shape :: σ) P) (hkind : shape.1 ≠ .newline) :
    Takes p.afterNewlines (shape :: σ) P := by
  intro stop ts τ hts
  simp only [Reader.afterNewlines, skipNewlines_of_shape hts hkind]
  exact hp stop ts τ hts

section Entries

variable {item : Reader (String × Token)} {closing : Token.Kind}

/-- The shapes of a name, a colon and a value. -/
def entryShapes (e : String × (Token.Kind × String)) : List (Token.Kind × String) :=
  [(.identifier, e.1), (.colon, ":"), e.2]

/-- An entry apart from the position of its value. -/
def entryShape (e : String × Token) : String × (Token.Kind × String) := (e.1, e.2.shape)

/-- Entries with commas between them are read in their order, up to the closing token. -/
theorem takes_items {value : String} (hclosing : closing ∉ [Token.Kind.newline, .comma, .identifier])
    (hitem : ∀ e, e.2.1 ∈ kinds → Takes item (entryShapes e) fun a => entryShape a = e) (stop : Token)
    (e : String × (Token.Kind × String)) (es : List (String × (Token.Kind × String)))
    (hes : ∀ e' ∈ e :: es, e'.2.1 ∈ kinds)
    (hts : ts.map Token.shape =
      entryShapes e ++ (es.flatMap (fun e => (.comma, ",") :: entryShapes e) ++ (closing, value) :: τ)) :
    ∃ as rest, items closing item stop ts = .ok (as, rest) ∧ as.map entryShape = e :: es ∧
      rest.map Token.shape = (closing, value) :: τ := by
  simp only [List.mem_cons, List.not_mem_nil, or_false, not_or] at hclosing
  obtain ⟨hnewline, hcomma, hidentifier⟩ := hclosing
  have hstart {e : String × (Token.Kind × String)} {υ : List (Token.Kind × String)} {ts : List Token}
      (hts : ts.map Token.shape = entryShapes e ++ υ) : skipNewlines ts = ts :=
    skipNewlines_of_shape hts (show Token.Kind.identifier ≠ .newline by decide)
  have hopen {e : String × (Token.Kind × String)} {υ : List (Token.Kind × String)} {ts : List Token}
      (hts : ts.map Token.shape = entryShapes e ++ υ) : ¬(front stop ts).kind = closing := by
    obtain ⟨t, rest, rfl, ht, -⟩ := List.map_eq_cons_iff.mp hts
    have hkind : t.kind = .identifier := congrArg Prod.fst ht
    exact fun h => hidentifier (h.symm.trans hkind)
  induction es generalizing e ts with
  | nil =>
      obtain ⟨a, mid, hrun, ha, hmid⟩ := hitem e (hes e List.mem_cons_self) stop ts _ hts
      obtain ⟨t, us, rfl, ht, hus⟩ := List.map_eq_cons_iff.mp hmid
      have hclose : t.kind = closing := congrArg Prod.fst ht
      have hskip : skipNewlines (t :: us) = t :: us := skipNewlines_cons_of_ne (hclose ▸ hnewline)
      have hsep : separator closing stop (t :: us) = .ok (false, t :: us) :=
        separator_of_closing hskip hclose hcomma
      refine ⟨[a], t :: us, ?_, by rw [List.map_singleton, ha], hmid⟩
      rw [items_eq, hstart hts, if_neg (hopen hts)]
      simp only [hrun, hsep]
  | cons e' es ih =>
      obtain ⟨hfirst, hrest⟩ := List.forall_mem_cons.mp hes
      obtain ⟨a, mid, hrun, ha, hmid⟩ := hitem e hfirst stop ts _ hts
      rw [List.flatMap_cons, List.cons_append, List.cons_append, List.append_assoc] at hmid
      obtain ⟨t, left, rfl, ht, hleft⟩ := List.map_eq_cons_iff.mp hmid
      have hsep : separator closing stop (t :: left) = .ok (true, left) :=
        separator_of_comma Phrase.nil_mem_optional (congrArg Prod.fst ht)
      obtain ⟨as, rest, hitems, has, hrest⟩ := ih e' hrest hleft
      refine ⟨a :: as, rest, ?_, by rw [List.map_cons, ha, has], hrest⟩
      rw [items_eq, hstart hts, if_neg (hopen hts)]
      simp only [hrun, hsep, hitems]
      rfl

/-- Entries with commas between them, in a pair of brackets. -/
theorem takes_block {opening : Token.Kind} {what first last : String}
    (hclosing : closing ∉ [Token.Kind.newline, .comma, .identifier])
    (hitem : ∀ e, e.2.1 ∈ kinds → Takes item (entryShapes e) fun a => entryShape a = e)
    {e : String × (Token.Kind × String)} {es : List (String × (Token.Kind × String))}
    (hes : ∀ e' ∈ e :: es, e'.2.1 ∈ kinds) :
    Takes (block opening closing what item)
      ((opening, first) :: (entryShapes e ++
        (es.flatMap (fun e => (.comma, ",") :: entryShapes e) ++ [(closing, last)])))
      fun listed => listed.1.map entryShape = e :: es := by
  have hclosed : Takes (closed closing ("to close " ++ what) item)
      (entryShapes e ++ (es.flatMap (fun e => (.comma, ",") :: entryShapes e) ++ [(closing, last)]))
      fun listed => listed.1.map entryShape = e :: es := by
    intro stop ts τ hts
    rw [List.append_assoc, List.append_assoc] at hts
    obtain ⟨as, mid, hitems, has, hmid⟩ := takes_items hclosing hitem stop e es hes hts
    have hlast : Takes ((token closing ("to close " ++ what)).map fun t => (as, t)) [(closing, last)]
        fun listed => listed.1.map entryShape = e :: es := takes_token.map fun _ _ => has
    obtain ⟨listed, rest, hrun, hlisted, hrest⟩ := hlast stop mid τ hmid
    refine ⟨listed, rest, ?_, hlisted, hrest⟩
    simp only [closed, hitems]
    exact hrun
  exact takes_token.andThen fun _ _ => hclosed

end Entries
end Reader

namespace Statement

open Reader

/-- The kinds of the values of properties. -/
def valueKinds : List Token.Kind := [.string, .identifier, .cellRef, .number, .hexColor, .themeRef]

theorem takes_colonAfter (key : Token) :
    Takes (colonAfter key) [(.colon, ":")] fun t => t.shape = (.colon, ":") := takes_token

theorem takes_propertyEntry {e : String × (Token.Kind × String)} (he : e.2.1 ∈ valueKinds) :
    Takes propertyEntry (entryShapes e) fun a => entryShape a = e := by
  have hname : Takes (oneOf [.identifier, .cellRef] "property name") [(Token.Kind.identifier, e.1)]
      fun t => t.shape = (.identifier, e.1) := takes_oneOfOr List.mem_cons_self
  have hvalue : Takes propertyValue [e.2] fun t => t.shape = e.2 := takes_oneOfOr he
  refine hname.andThen fun name hname => (takes_colonAfter name).andThen fun _ _ => ?_
  refine hvalue.map fun t ht => ?_
  rw [entryShape, ht, show name.value = e.1 from congrArg Prod.snd hname]

/-- A statement is read after the token that announces it. -/
theorem takes_reader {shape : Token.Kind × String} {σ : List (Token.Kind × String)} {P : Statement → Prop}
    (subject : Subject) (hkind : shape.1 ∈ [Token.Kind.identifier, .cellRef, .cellRange])
    (hsubject : ∀ t : Token, t.shape = shape → Subject.ofToken t = .ok subject)
    (hvalue : ∀ t, Takes (subject.value t) σ P) : Takes reader (shape :: (.colon, ":") :: σ) P := by
  have hfirst : Takes ((oneOf [.identifier, .cellRef, .cellRange] "metadata key or cell reference").check
      fun t => (Subject.ofToken t).map (t, ·)) [shape] fun r => r.2 = subject := by
    refine (takes_oneOfOr hkind).check fun t ht => ⟨(t, subject), ?_, rfl⟩
    rw [hsubject t ht]
    rfl
  refine hfirst.andThen fun r hr => (takes_colonAfter r.1).andThen fun _ _ => ?_
  rw [hr]
  exact hvalue r.1

/-- The line of a grid says the grid. -/
theorem takes_gridLine {cols rows : Nat} (hcols : Settings.inGridLimits cols = true)
    (hrows : Settings.inGridLimits rows = true) :
    Takes reader [(.identifier, "grid"), (.colon, ":"), (.grid, toString cols ++ "x" ++ toString rows)]
      fun s => ∃ location, s = .grid cols rows location := by
  have hterms (t : Token) (ht : t.shape = (.grid, toString cols ++ "x" ++ toString rows)) :
      gridTerms t = .ok (cols, rows) := by
    have hvalue : t.value.toList = Nat.toDigits 10 cols ++ 'x' :: Nat.toDigits 10 rows := by
      rw [show t.value = toString cols ++ "x" ++ toString rows from congrArg Prod.snd ht]
      simp
    have hbreaks : Lexeme.Breaks Char.isDigit ('x' :: Nat.toDigits 10 rows) :=
      Lexeme.breaks_cons (by decide)
    obtain ⟨hfirst, hrest⟩ := Lexeme.takeWhile_append_of_breaks (p := Char.isDigit)
      (fun d hd => Numeral.isDigit_of_mem_toDigits (n := cols) hd) hbreaks
    have hread {n : Nat} (h : Settings.inGridLimits n = true) : Numeral.read (Nat.toDigits 10 n) = .ok n :=
      Numeral.read_toDigits (Violation.isWritable_of_inGridLimits h)
    have hboth : terms t = .ok (cols, rows) := by
      simp only [terms, hvalue, hfirst, hrest, List.drop_one, List.tail_cons, hread hcols, hread hrows]
    rw [gridTerms, termsIn, hboth]
    simp only [hcols, hrows, Bool.and_self, if_true]
  refine takes_reader (.setting .grid) List.mem_cons_self (fun t ht => ?_) fun key => ?_
  · have hkind : t.kind = .identifier := congrArg Prod.fst ht
    have hvalue : t.value = "grid" := congrArg Prod.snd ht
    have hkey : Setting.ofKey? "grid" = some .grid := by decide
    simp only [Subject.ofToken, if_pos hkind, hvalue, hkey]
  · refine takes_token.check fun t ht => ⟨.grid cols rows t.location, ?_, t.location, rfl⟩
    rw [hterms t ht]
    rfl

/-- The line of a component says its range, its kind and its properties. -/
theorem takes_componentLine (w : Written) (h : w.component.range.isWritable = true) :
    Takes reader (Lexeme.lineShapes w) fun s => ∃ listed location,
      s = .component w.component.range listed location ∧
        listed.map entryShape = ("type", (.identifier, w.component.kind.name)) ::
          w.properties.map fun p => (p.1, p.2.shape) := by
  refine takes_reader (.component w.component.range) ?_ (fun t ht => ?_) fun key => ?_
  · show (if w.component.range.isSingle then Token.Kind.cellRef else .cellRange) ∈ _
    split <;> decide
  · have hkind : t.kind ≠ .identifier := by
      have hcell : t.kind = if w.component.range.isSingle then .cellRef else .cellRange := congrArg Prod.fst ht
      rw [hcell]
      split <;> decide
    have hvalue : t.value = w.component.range.text := congrArg Prod.snd ht
    simp only [Subject.ofToken, if_neg hkind, rangeOf, hvalue, Range.read_text h]
    rfl
  · have hkinds : ∀ e ∈ ("type", (Token.Kind.identifier, w.component.kind.name)) ::
        w.properties.map (fun p => (p.1, p.2.shape)), e.2.1 ∈ valueKinds := by
      refine List.forall_mem_cons.mpr ⟨List.mem_cons_of_mem _ List.mem_cons_self,
        List.forall_mem_map.mpr fun p _ => ?_⟩
      cases p.2 with
      | side => exact (by decide : Token.Kind.identifier ∈ valueKinds)
      | quoted => exact (by decide : Token.Kind.string ∈ valueKinds)
      | digits => exact (by decide : Token.Kind.number ∈ valueKinds)
    have hproperties : (w.properties.map fun p => (p.1, p.2.shape)).flatMap
        (fun e => (Token.Kind.comma, ",") :: entryShapes e) = w.properties.flatMap Lexeme.propertyShapes :=
      List.flatMap_map ..
    have hblock : Takes (block .leftBrace .rightBrace "properties" propertyEntry)
        ((.leftBrace, "\x7b") :: (.identifier, "type") :: (.colon, ":") ::
          (.identifier, w.component.kind.name) ::
            (w.properties.flatMap Lexeme.propertyShapes ++ [(.rightBrace, "\x7d")]))
        fun listed => listed.1.map entryShape = ("type", (.identifier, w.component.kind.name)) ::
          w.properties.map fun p => (p.1, p.2.shape) := by
      rw [← hproperties]
      exact takes_block (by decide) (fun e he => takes_propertyEntry he) hkinds
    refine (hblock.afterNewlines (show Token.Kind.leftBrace ≠ .newline by decide)).map fun listed hlisted => ?_
    exact ⟨listed.1, key.location, rfl, hlisted⟩

end Statement
end Wireframe
