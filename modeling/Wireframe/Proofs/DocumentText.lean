import Wireframe.Document.Color
import Wireframe.Document.Component
import Wireframe.Proofs.CellRoundTrip
import Wireframe.Proofs.KeyedEntries

/-! Documents as text. A component is written on a line of its own with the properties that it has, in any
order, texts between double quotes; a document is the line of its grid and the lines of its components.
Such a text is read as the tokens that one expects (`exists_read_source`). -/

namespace Wireframe

/-- The value of a property as it is written: the side that text leans to is a word, a text stands between
double quotes, and a natural number is its digits. -/
inductive Literal
  | side (align : Align)
  | quoted (text : String)
  | digits (n : Nat)
  deriving DecidableEq

namespace Literal

def text : Literal → String
  | side align => align.name
  | quoted text => "\"" ++ String.ofList (Lexeme.escaped text.toList) ++ "\""
  | digits n => toString n

/-- The token that is written. -/
def shape : Literal → Token.Kind × String
  | side align => (.identifier, align.name)
  | quoted text => (.string, text)
  | digits n => (.number, toString n)

end Literal

namespace Component

/-- What the properties of a kind are for its content; nothing for one that is left out. -/
def Content.literals : Content → List (String × Option Literal)
  | .txt value align => [("value", some (.quoted value)), ("align", some (.side align))]
  | .box => []
  | .btn value => [("value", some (.quoted value))]
  | .input label => [("label", some (.quoted label))]
  | .img src alt => [("src", src.map .quoted), ("alt", alt.map .quoted)]

/-- The properties of a component, its inset as the given number. -/
def literals (c : Component) (padding : Option Nat) : List (String × Option Literal) :=
  c.content.literals ++
    [("bg", c.bg.map .quoted), ("border", c.border.map .quoted), ("padding", padding.map .digits)]

/-- What is written of a component are the properties that mean something for its kind. -/
theorem map_fst_literals_perm (c : Component) (padding : Option Nat) :
    ((c.literals padding).map (·.1)).Perm c.kind.properties := by
  obtain ⟨range, inset, bg, border, content⟩ := c
  cases content with
  | txt => exact (by decide : ["value", "align", "bg", "border", "padding"].Perm (Kind.properties .txt))
  | box => exact List.Perm.refl _
  | btn => exact (by decide : ["value", "bg", "border", "padding"].Perm (Kind.properties .btn))
  | input => exact (by decide : ["label", "bg", "border", "padding"].Perm (Kind.properties .input))
  | img => exact (by decide : ["src", "alt", "bg", "border", "padding"].Perm (Kind.properties .img))

end Component

/-- A component with the number that its inset is written as and the order that its properties are written
in. Its colors name nothing of a palette. -/
structure Written where
  component : Component
  padding : Option Nat
  properties : List (String × Literal)
  padding_eq : component.padding = padding.map (Float.ofScientific · true 0)
  properties_perm : properties.Perm (Keyed.present (component.literals padding))
  bg_plain : ∀ text ∈ component.bg, text.toList.head? ≠ some '$'
  border_plain : ∀ text ∈ component.border, text.toList.head? ≠ some '$'

namespace Written

variable {w : Written} {p : String × Literal}

/-- Each key is written once. -/
theorem nodup_keys (w : Written) : (w.properties.map (·.1)).Nodup := by
  have hkind : w.component.kind.properties.Nodup := by cases w.component.kind <;> decide
  have hall := (Component.map_fst_literals_perm w.component w.padding).nodup_iff.mpr hkind
  exact (w.properties_perm.map (·.1)).nodup_iff.mpr
    ((Keyed.map_fst_present_sublist _).nodup hall)

theorem key_mem (w : Written) (hp : p ∈ w.properties) : p.1 ∈ w.component.kind.properties := by
  have hpresent := (w.properties_perm.map (·.1)).subset (List.mem_map_of_mem hp)
  have hliteral := (Keyed.map_fst_present_sublist _).subset hpresent
  exact (Component.map_fst_literals_perm w.component w.padding).subset hliteral

/-- The text of a property after the kind, or after another one. -/
def property (p : String × Literal) : String := ", " ++ p.1 ++ ": " ++ p.2.text

def line (w : Written) : String :=
  w.component.range.text ++ ": \x7b type: " ++ w.component.kind.name ++
    String.join (w.properties.map property) ++ " \x7d"

end Written

/-- The text of a document: its grid, and its components in their order. -/
def Document.source (cols rows : Nat) (ws : List Written) : String :=
  "grid: " ++ toString cols ++ "x" ++ toString rows ++ String.join (ws.map fun w => "\n" ++ w.line)

namespace Lexeme

variable {c : Char} {cs word rest : List Char} {b : Bool} {kind : Token.Kind}
  {σ τ : List (Token.Kind × String)}

/-- The text is read as tokens of these shapes; `b` is the flag of `tokens`. -/
def Yields (b : Bool) (cs : List Char) (σ : List (Token.Kind × String)) : Prop :=
  ∃ senses, Reads cs senses ∧ shapes b senses = σ

theorem yields_nil : Yields b [] [] := ⟨[], reads_nil, by cases b <;> rfl⟩

theorem Yields.token {value : List Char}
    (hreads : ∀ senses, Reads rest senses → Reads cs (.token kind value :: senses))
    (h : Yields true rest σ) : Yields b cs ((kind, String.ofList value) :: σ) := by
  obtain ⟨senses, hrest, rfl⟩ := h
  exact ⟨_, hreads senses hrest, by cases b <;> rfl⟩

theorem Yields.space (h : Yields b cs σ) : Yields b (' ' :: cs) σ := by
  obtain ⟨senses, hcs, rfl⟩ := h
  exact ⟨_, hcs.space (by decide), by cases b <;> rfl⟩

theorem Yields.newline (h : Yields false cs σ) : Yields true ('\n' :: cs) ((.newline, "\n") :: σ) := by
  obtain ⟨senses, hcs, rfl⟩ := h
  exact ⟨_, hcs.newline, rfl⟩

theorem Yields.mark (hkind : punctuation? c = some kind) (h : Yields true cs σ) :
    Yields b (c :: cs) ((kind, String.ofList [c]) :: σ) :=
  h.token fun _ hcs => hcs.punctuation hkind

/-- A word that is a name. -/
def isName : List Char → Bool
  | [] => false
  | c :: word => startsWord c && word.all isWordChar && !isCellShaped (c :: word)

theorem Yields.name (hname : isName word = true) (hrest : Breaks isWordChar rest)
    (h : Yields true rest σ) : Yields b (word ++ rest) ((.identifier, String.ofList word) :: σ) := by
  cases word with
  | nil => cases hname
  | cons c word =>
      simp only [isName, Bool.and_eq_true, Bool.not_eq_true'] at hname
      exact h.token fun _ hcs => hcs.identifier hname.1.1 (List.all_eq_true.mp hname.1.2) hname.2 hrest

theorem isName_properties (kind : Component.Kind) : ∀ key ∈ kind.properties, isName key.toList = true := by
  cases kind <;> decide

/-- What may stand after the value of a property. -/
def Ends (rest : List Char) : Prop := ∀ c ∈ rest.head?, c = ' ' ∨ c = ','

theorem Ends.breaks {p : Char → Bool} (hspace : p ' ' = false) (hcomma : p ',' = false)
    (h : Ends rest) : Breaks p rest := by
  intro c hc
  rcases h c hc with rfl | rfl
  · exact hspace
  · exact hcomma

/-- Digits are a number unless a separator follows. -/
theorem Yields.digits (n : Nat) (hrest : Breaks Char.isDigit rest)
    (hsep : ∀ d ∈ rest.head?, separator? d = none) (h : Yields true rest σ) :
    Yields b ((toString n).toList ++ rest) ((.number, toString n) :: σ) := by
  have hdigits := Numeral.toList_toString n
  obtain ⟨c, word, hword⟩ := List.exists_cons_of_ne_nil (Nat.toDigits_ne_nil (n := n) (b := 10))
  have hall : ∀ d ∈ c :: word, d.isDigit = true := fun d hd => Numeral.isDigit_of_mem_toDigits (hword ▸ hd)
  have hnumber := h.token (b := b) fun _ hcs =>
    hcs.number (hall c List.mem_cons_self) (fun d hd => hall d (List.mem_cons_of_mem c hd)) hrest hsep
  rwa [← List.cons_append, ← hword, ← hdigits, String.ofList_toList] at hnumber

theorem yields_literal (l : Literal) (hrest : Ends rest) (h : Yields true rest σ) :
    Yields b (l.text.toList ++ rest) (l.shape :: σ) := by
  cases l with
  | side align =>
      have hname : isName align.name.toList = true := by cases align <;> decide
      have hword := h.name (b := b) hname (hrest.breaks (by decide) (by decide))
      rwa [String.ofList_toList] at hword
  | quoted text =>
      have hquoted := h.token (b := b) fun _ hcs => hcs.quoted text.toList
      rw [String.ofList_toList] at hquoted
      have htext : (Literal.quoted text).text.toList ++ rest =
          '"' :: (escaped text.toList ++ '"' :: rest) := by
        simp [Literal.text]
      rwa [htext]
  | digits n =>
      refine h.digits n (hrest.breaks (by decide) (by decide)) fun d hd => ?_
      rcases hrest d hd with rfl | rfl <;> decide

/-- The tokens of a property after the kind, or after another one. -/
def propertyShapes (p : String × Literal) : List (Token.Kind × String) :=
  [(.comma, ","), (.identifier, p.1), (.colon, ":"), p.2.shape]

theorem yields_property {p : String × Literal} (hname : isName p.1.toList = true) (hrest : Ends rest)
    (h : Yields true rest σ) :
    Yields true ((Written.property p).toList ++ rest) (propertyShapes p ++ σ) := by
  have htext : (Written.property p).toList ++ rest =
      ',' :: ' ' :: (p.1.toList ++ ':' :: ' ' :: (p.2.text.toList ++ rest)) := by
    simp [Written.property]
  have hvalue := (yields_literal p.2 hrest h (b := true)).space.mark (c := ':') (b := true) rfl
  have hkey := hvalue.name (b := true) hname (breaks_cons (by decide))
  rw [String.ofList_toList] at hkey
  rw [htext]
  exact hkey.space.mark rfl

theorem ends_properties (ps : List (String × Literal)) (hrest : Ends rest) :
    Ends ((ps.flatMap fun p => (Written.property p).toList) ++ rest) := by
  cases ps with
  | nil => exact hrest
  | cons p ps =>
      intro c hc
      simp [Written.property] at hc
      exact Or.inr hc.symm

theorem yields_properties {ps : List (String × Literal)} (hnames : ∀ p ∈ ps, isName p.1.toList = true)
    (hrest : Ends rest) (h : Yields true rest σ) :
    Yields true ((ps.flatMap fun p => (Written.property p).toList) ++ rest)
      (ps.flatMap propertyShapes ++ σ) := by
  induction ps with
  | nil => exact h
  | cons p ps ih =>
      obtain ⟨hname, hnames⟩ := List.forall_mem_cons.mp hnames
      rw [List.flatMap_cons, List.flatMap_cons, List.append_assoc, List.append_assoc]
      exact yields_property hname (ends_properties ps hrest) (ih hnames)

/-- The text of a cell is a word in the shape of a cell. -/
theorem exists_cell_eq_cons (c : Coord) : ∃ d word, c.text.toList = d :: word ∧ startsWord d = true ∧
    (∀ e ∈ word, isWordChar e = true) ∧ isCellShaped (d :: word) = true := by
  obtain ⟨d, letters, hletters⟩ := List.exists_cons_of_ne_nil (Column.word_succ_ne_nil c.col)
  have htext : c.text.toList = d :: (letters ++ Nat.toDigits 10 (c.row + 1)) := by
    rw [Coord.toList_text, hletters, List.cons_append]
  have halpha : ∀ e ∈ Column.word (c.col + 1), e.isAlpha = true := fun e he => by
    simp [Char.isAlpha, Column.isUpper_of_mem_word he]
  have hbreaks : Breaks Char.isAlpha (Nat.toDigits 10 (c.row + 1)) :=
    Coord.breaks_toDigits (fun e he => by
      have hstart := startsWord_eq_false_of_isDigit he
      rw [startsWord, Bool.or_eq_false_iff] at hstart
      exact hstart.1) _
  obtain ⟨htake, hdrop⟩ := takeWhile_append_of_breaks halpha hbreaks
  refine ⟨d, _, htext, ?_, ?_, ?_⟩
  · rw [startsWord, halpha d (by rw [hletters]; exact List.mem_cons_self), Bool.true_or]
  · intro e he
    exact (Coord.isCellChar_of_mem_text c e (htext ▸ List.mem_cons_of_mem d he)).isWordChar
  · rw [← htext, Coord.toList_text, isCellShaped, htake, hdrop]
    simp only [Bool.and_eq_true, decide_eq_true_eq, ne_eq]
    exact ⟨⟨Column.word_succ_ne_nil c.col, Nat.toDigits_ne_nil⟩,
      List.all_eq_true.mpr fun e he => Numeral.isDigit_of_mem_toDigits he⟩

/-- The token of a range. -/
def rangeShape (r : Range) : Token.Kind × String :=
  (if r.isSingle then .cellRef else .cellRange, r.text)

theorem yields_range (r : Range) (hrest : Breaks isWordChar rest) (hdot : Breaks (· = '.') rest)
    (h : Yields true rest σ) : Yields b (r.text.toList ++ rest) (rangeShape r :: σ) := by
  obtain ⟨c, word, hfirst, hstart, hword, hcell⟩ := exists_cell_eq_cons r.first
  rw [rangeShape]
  by_cases hsingle : r.isSingle = true
  · have hone := h.token (b := b) fun _ hcs => hcs.cellRef hstart hword hcell hrest hdot
    have htext : r.text = r.first.text := by rw [Range.text, if_pos hsingle]
    rw [← List.cons_append, ← hfirst, String.ofList_toList] at hone
    rw [if_pos hsingle, htext]
    exact hone
  · obtain ⟨d, second, hlast, hstart', hsecond, hcell'⟩ := exists_cell_eq_cons r.last
    have htwo := h.token (b := b) fun _ hcs =>
      hcs.cellRange hstart hword hcell hstart' hsecond hcell' hrest
    have htext : r.text.toList = c :: word ++ '.' :: '.' :: d :: second := by
      rw [Range.text, if_neg hsingle, String.toList_append, String.toList_append, hfirst, hlast]
      simp
    rw [← htext, String.ofList_toList] at htwo
    rw [if_neg hsingle, htext]
    simpa using htwo

/-- The tokens of the line of a component. -/
def lineShapes (w : Written) : List (Token.Kind × String) :=
  rangeShape w.component.range :: (.colon, ":") :: (.leftBrace, "\x7b") :: (.identifier, "type") ::
    (.colon, ":") :: (.identifier, w.component.kind.name) ::
      (w.properties.flatMap propertyShapes ++ [(.rightBrace, "\x7d")])

theorem yields_line (w : Written) (h : Yields true rest σ) :
    Yields b (w.line.toList ++ rest) (lineShapes w ++ σ) := by
  have htext : w.line.toList ++ rest = w.component.range.text.toList ++ ':' :: ' ' :: '\x7b' :: ' ' ::
      ("type".toList ++ ':' :: ' ' :: (w.component.kind.name.toList ++
        ((w.properties.flatMap fun p => (Written.property p).toList) ++ ' ' :: '\x7d' :: rest))) := by
    simp [Written.line, List.flatMap_map]
  have hclose : Yields true (' ' :: '\x7d' :: rest) ((.rightBrace, "\x7d") :: σ) := (h.mark rfl).space
  have hends : Ends (' ' :: '\x7d' :: rest) := fun c hc => Or.inl (by cases hc; rfl)
  have hnames : ∀ p ∈ w.properties, isName p.1.toList = true :=
    fun p hp => isName_properties _ _ (w.key_mem hp)
  have hproperties := yields_properties hnames hends hclose
  have hkind : isName w.component.kind.name.toList = true := by cases w.component.kind <;> decide
  have hname := hproperties.name (b := true) hkind
    ((ends_properties w.properties hends).breaks (by decide) (by decide))
  rw [String.ofList_toList] at hname
  have htype := (hname.space.mark (c := ':') (b := true) rfl).name (b := true)
    (show isName "type".toList = true by decide) (breaks_cons (by decide))
  rw [String.ofList_toList] at htype
  have hopen := ((htype.space.mark (c := '\x7b') (b := true) rfl).space).mark (c := ':') (b := true) rfl
  rw [htext, lineShapes]
  simpa using yields_range w.component.range (breaks_cons (by decide)) (breaks_cons (by decide)) hopen

theorem yields_lines (ws : List Written) :
    Yields true (ws.flatMap fun w => '\n' :: w.line.toList)
      (ws.flatMap fun w => (.newline, "\n") :: lineShapes w) := by
  induction ws with
  | nil => exact yields_nil
  | cons w ws ih => exact (yields_line w ih).newline

/-- The tokens of a document. -/
def documentShapes (cols rows : Nat) (ws : List Written) : List (Token.Kind × String) :=
  (.identifier, "grid") :: (.colon, ":") :: (.grid, toString cols ++ "x" ++ toString rows) ::
    ws.flatMap fun w => (.newline, "\n") :: lineShapes w

theorem yields_source (cols rows : Nat) (ws : List Written) :
    Yields true (Document.source cols rows ws).toList (documentShapes cols rows ws) := by
  obtain ⟨c, first, hfirst⟩ := List.exists_cons_of_ne_nil (Nat.toDigits_ne_nil (n := cols) (b := 10))
  obtain ⟨d, second, hsecond⟩ := List.exists_cons_of_ne_nil (Nat.toDigits_ne_nil (n := rows) (b := 10))
  have hdigits {n : Nat} {c : Char} {word : List Char} (h : Nat.toDigits 10 n = c :: word) :
      ∀ e ∈ c :: word, e.isDigit = true := fun e he => Numeral.isDigit_of_mem_toDigits (h ▸ he)
  obtain ⟨hc, hfirst'⟩ := List.forall_mem_cons.mp (hdigits hfirst)
  obtain ⟨hd, hsecond'⟩ := List.forall_mem_cons.mp (hdigits hsecond)
  have htext : (Document.source cols rows ws).toList = "grid".toList ++ ':' :: ' ' ::
      (c :: (first ++ 'x' :: d :: (second ++ ws.flatMap fun w => '\n' :: w.line.toList))) := by
    simp [Document.source, hfirst, hsecond, List.flatMap_map]
  have hbreaks : Breaks Char.isDigit (ws.flatMap fun w => '\n' :: w.line.toList) := by
    cases ws with
    | nil => exact breaks_nil _
    | cons w ws => exact breaks_cons (by decide)
  have hterms := (yields_lines ws).token (b := true) fun _ hcs =>
    hcs.terms hc hfirst' (d := 'x') rfl hd hsecond' hbreaks
  have hvalue : String.ofList (c :: first ++ 'x' :: d :: second) = toString cols ++ "x" ++ toString rows := by
    rw [← hfirst, ← hsecond, ← String.toList_inj]
    simp
  rw [hvalue] at hterms
  have hgrid := (hterms.space.mark (c := ':') (b := true) rfl).name (b := true)
    (show isName "grid".toList = true by decide) (breaks_cons (by decide))
  rw [htext]
  exact hgrid

end Lexeme

/-- The text of a document is read as its tokens. -/
theorem Tokens.exists_read_source (cols rows : Nat) (ws : List Written) :
    ∃ ts, Tokens.read (Document.source cols rows ws) = .ok ts ∧
      ts.list.map Token.shape = Lexeme.documentShapes cols rows ws := by
  obtain ⟨senses, hreads, hshapes⟩ := Lexeme.yields_source cols rows ws
  obtain ⟨ts, hread, hlist⟩ := Tokens.exists_read hreads
  exact ⟨ts, hread, hlist.trans hshapes⟩

end Wireframe
