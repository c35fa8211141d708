import Wireframe.Proofs.DraftLayout
import Wireframe.Proofs.ShapeReaders

/-! Documents are read back as they were written. The entries of a written component come to its
properties, whatever their order, and each component passes the checks of the draft that the components
before it have made, since they are laid out on the grid (`Document.read_source`). -/

namespace Wireframe

namespace Component

/-- The content shows these texts, given under their keys, on the side; a text that is not given is empty. -/
def Content.Shows (texts : String → Option String) (align : Align) : Content → Prop
  | .txt value side => value = (texts "value").getD "" ∧ side = align
  | .box => True
  | .btn value => value = (texts "value").getD ""
  | .input label => label = (texts "label").getD ""
  | .img src alt => src = texts "src" ∧ alt = texts "alt"

end Component

namespace Draft

variable {kind : Component.Kind} {p : Component.Properties} {entries : List (String × Token)} {d : Draft}
  {range : Range} {c : Component}

/-- The properties with what the entries say. -/
def filled (p : Component.Properties) (entries : List (String × Token)) : Component.Properties :=
  { p with
    padding := ((entries.lookup "padding").map Statement.decimal).or p.padding
    value := ((entries.lookup "value").map (·.value)).or p.value
    label := ((entries.lookup "label").map (·.value)).or p.label
    src := ((entries.lookup "src").map (·.value)).or p.src
    alt := ((entries.lookup "alt").map (·.value)).or p.alt }

theorem filled_padding {t : Token} (h : entries.lookup "padding" = none) :
    filled { p with padding := some (Statement.decimal t) } entries = filled p (("padding", t) :: entries) := by
  simp [filled, Keyed.lookup_cons_eq_ite, h]

theorem filled_withText {key : String} {t : Token} (hkey : key ≠ "padding") (h : entries.lookup key = none) :
    filled (withText p key t.value) entries = filled p ((key, t) :: entries) := by
  rw [withText]
  split
  · next hvalue =>
    subst hvalue
    simp [filled, Keyed.lookup_cons_eq_ite, h]
  split
  · next hlabel =>
    subst hlabel
    simp [filled, Keyed.lookup_cons_eq_ite, h]
  split
  · next hsrc =>
    subst hsrc
    simp [filled, Keyed.lookup_cons_eq_ite, h]
  split
  · next halt =>
    subst halt
    simp [filled, Keyed.lookup_cons_eq_ite, h]
  · next hvalue hlabel hsrc halt =>
    simp only [filled, Keyed.lookup_cons_eq_ite, if_neg (Ne.symm hkey), if_neg (Ne.symm hvalue),
      if_neg (Ne.symm hlabel), if_neg (Ne.symm hsrc), if_neg (Ne.symm halt)]

/-- Entries of different names that mean something for the kind are all taken, and the inset when it is a
number. -/
theorem value_collect (hnodup : (entries.map (·.1)).Nodup) (hkeys : ∀ e ∈ entries, e.1 ∈ kind.properties)
    (hpadding : ∀ t, ("padding", t) ∈ entries → t.kind = .number) :
    (collect kind p entries).value = .ok (filled p entries) := by
  induction entries generalizing p with
  | nil => rfl
  | cons e rest ih =>
      obtain ⟨key, t⟩ := e
      obtain ⟨hnew, hrest⟩ := List.nodup_cons.mp hnodup
      obtain ⟨hkey, hothers⟩ := List.forall_mem_cons.mp hkeys
      have hnone := Keyed.lookup_eq_none hnew
      have hlater : ∀ t, ("padding", t) ∈ rest → t.kind = .number :=
        fun t ht => hpadding t (List.mem_cons_of_mem _ ht)
      rw [collect, if_neg (not_not.mpr hkey)]
      split
      · next hpad =>
        subst hpad
        rw [if_pos (hpadding t List.mem_cons_self), ih hrest hothers hlater, filled_padding hnone]
      · next hother => rw [ih hrest hothers hlater, filled_withText hother hnone]

/-- The properties with the entries make a component, whose content is the one of the kind that shows the
entries. -/
theorem exists_ofProperties_filled (kind : Component.Kind) (align : Align) (bg border : Option String)
    (range : Range) (entries : List (String × Token)) :
    ∃ content, Component.ofProperties kind range (filled (start ⟨kind, align, bg, border⟩) entries) =
        .ok ⟨range, (entries.lookup "padding").map Statement.decimal, bg, border, content⟩ ∧
      ∀ other : Component.Content, content = other ↔
        other.kind = kind ∧ other.Shows (fun key => (entries.lookup key).map (·.value)) align := by
  have hpadding : Component.paddingErrors ((entries.lookup "padding").map Statement.decimal) = [] := by
    refine Component.paddingErrors_eq_nil_iff.mpr fun x hx => ?_
    obtain ⟨t, -, rfl⟩ := Option.map_eq_some_iff.mp hx
    exact Decimal.notNegative_read t.value.toList
  have halign : Align.ofName? align.name = some align := Align.ofName?_eq_some_iff.mpr rfl
  cases kind with
  | txt =>
      refine ⟨.txt (((entries.lookup "value").map (·.value)).getD "") align, ?_, fun other => ?_⟩
      · simp [Component.ofProperties, hpadding, filled, start, Component.textErrors, FieldError.unless, halign]
      · cases other <;> simp [Component.Content.kind, Component.Content.Shows, eq_comm]
  | box =>
      refine ⟨.box, ?_, fun other => ?_⟩
      · simp [Component.ofProperties, hpadding, filled, start]
      · cases other <;> simp [Component.Content.kind, Component.Content.Shows]
  | btn =>
      refine ⟨.btn (((entries.lookup "value").map (·.value)).getD ""), ?_, fun other => ?_⟩
      · simp [Component.ofProperties, hpadding, filled, start, Component.textErrors, FieldError.unless]
      · cases other <;> simp [Component.Content.kind, Component.Content.Shows, eq_comm]
  | input =>
      refine ⟨.input (((entries.lookup "label").map (·.value)).getD ""), ?_, fun other => ?_⟩
      · simp [Component.ofProperties, hpadding, filled, start, Component.textErrors, FieldError.unless]
      · cases other <;> simp [Component.Content.kind, Component.Content.Shows, eq_comm]
  | img =>
      refine ⟨.img ((entries.lookup "src").map (·.value)) ((entries.lookup "alt").map (·.value)), ?_,
        fun other => ?_⟩
      · simp [Component.ofProperties, hpadding, filled, start]
      · cases other <;> simp [Component.Content.kind, Component.Content.Shows, eq_comm]

theorem ofProperties_filled_eq_ok {choice : Choice} :
    Component.ofProperties choice.kind range (filled (start choice) entries) = .ok c ↔
      c.range = range ∧ c.kind = choice.kind ∧ c.padding = (entries.lookup "padding").map Statement.decimal ∧
        c.bg = choice.bg ∧ c.border = choice.border ∧
        c.content.Shows (fun key => (entries.lookup key).map (·.value)) choice.align := by
  obtain ⟨kind, align, bg, border⟩ := choice
  obtain ⟨content, hmade, hunique⟩ := exists_ofProperties_filled kind align bg border range entries
  obtain ⟨range', padding', bg', border', content'⟩ := c
  rw [hmade, Except.ok.injEq, Component.mk.injEq, hunique, Component.kind]
  constructor
  · rintro ⟨rfl, rfl, rfl, rfl, hkind, hshows⟩
    exact ⟨rfl, hkind, rfl, rfl, rfl, hshows⟩
  · rintro ⟨rfl, hkind, rfl, rfl, rfl, hshows⟩
    exact ⟨rfl, rfl, rfl, rfl, hkind, hshows⟩

end Draft

/-- The side that the text of a content leans to; the left one where it shows none. -/
def Component.Content.align : Content → Align
  | .txt _ align => align
  | .box | .btn _ | .input _ | .img .. => .left

namespace Written

variable {w : Written} {entries : List (String × Token)} {t : Token} {d : Draft}

/-- The value that is written under a key. -/
def literal? (w : Written) (key : String) : Option Literal :=
  ((w.component.literals w.padding).lookup key).join

theorem lookup_properties (w : Written) (key : String) : w.properties.lookup key = w.literal? key := by
  have hkind : w.component.kind.properties.Nodup := by cases w.component.kind <;> decide
  have hkeys := (Component.map_fst_literals_perm w.component w.padding).nodup_iff.mpr hkind
  rw [Keyed.lookup_perm w.properties_perm w.nodup_keys, Keyed.lookup_present hkeys, literal?]

/-- The entries have the names of the written properties, and values of their shapes. -/
def Lists (w : Written) (entries : List (String × Token)) : Prop :=
  entries.map Reader.entryShape = w.properties.map fun p => (p.1, p.2.shape)

theorem Lists.keys_eq (h : w.Lists entries) : entries.map (·.1) = w.properties.map (·.1) := by
  have hkeys := congrArg (List.map Prod.fst) h
  rw [List.map_map, List.map_map] at hkeys
  exact hkeys

theorem Lists.lookup_shape (h : w.Lists entries) (key : String) :
    (entries.lookup key).map Token.shape = (w.literal? key).map Literal.shape := by
  rw [← lookup_properties, ← Keyed.lookup_map, ← Keyed.lookup_map]
  exact congrArg (List.lookup key) h

theorem Lists.lookup_value (h : w.Lists entries) (key : String) :
    (entries.lookup key).map (·.value) = (w.literal? key).map (·.shape.2) := by
  have hshape := congrArg (Option.map Prod.snd) (h.lookup_shape key)
  rw [Option.map_map, Option.map_map] at hshape
  exact hshape

theorem literal?_bg (w : Written) : w.literal? "bg" = w.component.bg.map .quoted := by
  rw [literal?, Component.literals]
  cases w.component.content <;> rfl

theorem literal?_border (w : Written) : w.literal? "border" = w.component.border.map .quoted := by
  rw [literal?, Component.literals]
  cases w.component.content <;> rfl

theorem literal?_padding (w : Written) : w.literal? "padding" = w.padding.map .digits := by
  rw [literal?, Component.literals]
  cases w.component.content <;> rfl

theorem Lists.type_not_mem (h : w.Lists entries) : "type" ∉ entries.map (·.1) := by
  have hkind : "type" ∉ w.component.kind.properties := by cases w.component.kind <;> decide
  rw [h.keys_eq]
  intro hmem
  obtain ⟨p, hp, hkey⟩ := List.mem_map.mp hmem
  exact hkind (hkey ▸ w.key_mem hp)

theorem chooseKind_eq (ht : t.shape = (.identifier, w.component.kind.name)) :
    Draft.chooseKind (("type", t) :: entries) = .ok w.component.kind := by
  have hvalue : t.value = w.component.kind.name := congrArg Prod.snd ht
  have hname : Component.Kind.ofName? w.component.kind.name = some w.component.kind :=
    Component.Kind.ofName?_eq_some_iff.mpr rfl
  simp only [Draft.chooseKind, Keyed.lookup_cons_eq_ite, if_true, hvalue, hname]

theorem literal?_align (w : Written) :
    w.literal? "align" = none ∧ w.component.content.align = .left ∨
      w.literal? "align" = some (.side w.component.content.align) := by
  rw [literal?, Component.literals]
  cases w.component.content with
  | txt => exact Or.inr rfl
  | box | btn | input | img => exact Or.inl ⟨rfl, rfl⟩

theorem Lists.chooseAlign_eq (h : w.Lists entries) :
    Draft.chooseAlign (("type", t) :: entries) = .ok w.component.content.align := by
  have hvalue := h.lookup_value "align"
  have hkey : "align" ≠ "type" := by decide
  rw [Draft.chooseAlign, Keyed.lookup_cons_eq_ite, if_neg hkey]
  rcases w.literal?_align with ⟨hnone, hleft⟩ | hside
  · rw [hnone, Option.map_none, Option.map_eq_none_iff] at hvalue
    rw [hvalue, hleft]
  · rw [hside] at hvalue
    obtain ⟨t', ht', hname⟩ := Option.map_eq_some_iff.mp hvalue
    have hvalue' : t'.value = w.component.content.align.name := hname
    have hof : Align.ofName? w.component.content.align.name = some w.component.content.align :=
      Align.ofName?_eq_some_iff.mpr rfl
    simp only [ht', hvalue', hof]

theorem Lists.chooseColor_eq (h : w.Lists entries) {key : String} {color : Option String} (hkey : key ≠ "type")
    (hliteral : w.literal? key = color.map .quoted)
    (hplain : ∀ text ∈ color, text.toList.head? ≠ some '$') :
    d.chooseColor key (("type", t) :: entries) = .ok color := by
  have hvalue := h.lookup_value key
  rw [hliteral] at hvalue
  rw [Draft.chooseColor, Keyed.lookup_cons_eq_ite, if_neg hkey]
  cases color with
  | none =>
      rw [Option.map_none, Option.map_none, Option.map_eq_none_iff] at hvalue
      rw [hvalue]
  | some text =>
      obtain ⟨t', ht', htext⟩ := Option.map_eq_some_iff.mp hvalue
      have hplain := hplain text rfl
      have hreference : Color.reference? text = none := by
        rw [Color.reference?]
        split
        · next hdollar =>
          rw [hdollar] at hplain
          exact absurd rfl hplain
        · rfl
      have hvalue' : t'.value = text := htext
      simp only [ht', hvalue', Color.resolve, hreference]

theorem decimal_eq {n : Nat} (ht : t.shape = (.number, toString n)) :
    Statement.decimal t = Float.ofScientific n true 0 := by
  have hvalue : t.value.toList = Nat.toDigits 10 n := by
    rw [show t.value = toString n from congrArg Prod.snd ht, Numeral.toList_toString]
  have hdigits : ∀ c ∈ Nat.toDigits 10 n, c.isDigit = true := fun c hc => Numeral.isDigit_of_mem_toDigits hc
  obtain ⟨htake, hdrop⟩ := Lexeme.takeWhile_append_of_breaks hdigits (Lexeme.breaks_nil Char.isDigit)
  rw [List.append_nil] at htake hdrop
  rw [Statement.decimal, hvalue, Decimal.read, htake, hdrop, List.drop_nil, List.append_nil,
    Numeral.value_toDigits]
  rfl

theorem Lists.nodup_keys (h : w.Lists entries) : (entries.map (·.1)).Nodup := h.keys_eq ▸ w.nodup_keys

theorem Lists.shape_padding (h : w.Lists entries) (ht : entries.lookup "padding" = some t) :
    ∃ n, w.padding = some n ∧ t.shape = (.number, toString n) := by
  have hshape := h.lookup_shape "padding"
  rw [ht, w.literal?_padding, Option.map_map, Option.map_some] at hshape
  obtain ⟨n, hn, hdigits⟩ := Option.map_eq_some_iff.mp hshape.symm
  exact ⟨n, hn, hdigits.symm⟩

/-- All entries of the component are taken. -/
theorem Lists.collect_eq (h : w.Lists entries) (p : Component.Properties) :
    (Draft.collect w.component.kind p entries).value = .ok (Draft.filled p entries) := by
  refine Draft.value_collect h.nodup_keys (fun e he => ?_) fun t ht => ?_
  · have hmem : e.1 ∈ w.properties.map (·.1) := h.keys_eq ▸ List.mem_map_of_mem he
    obtain ⟨p, hp, hkey⟩ := List.mem_map.mp hmem
    exact hkey ▸ w.key_mem hp
  · obtain ⟨n, -, hshape⟩ := h.shape_padding ((Keyed.lookup_eq_some_iff h.nodup_keys).mpr ht)
    exact congrArg Prod.fst hshape

theorem Lists.padding_eq (h : w.Lists entries) :
    (entries.lookup "padding").map Statement.decimal = w.component.padding := by
  rw [w.padding_eq]
  cases ht : entries.lookup "padding" with
  | none =>
      have hshape := h.lookup_shape "padding"
      rw [ht, w.literal?_padding, Option.map_none, eq_comm, Option.map_eq_none_iff,
        Option.map_eq_none_iff] at hshape
      rw [hshape]
      rfl
  | some t =>
      obtain ⟨n, hn, hshape⟩ := h.shape_padding ht
      rw [hn, Option.map_some, Option.map_some, decimal_eq hshape]

theorem Lists.text_eq (h : w.Lists entries) {key : String} {text : Option String}
    (hliteral : w.literal? key = text.map .quoted) : (entries.lookup key).map (·.value) = text := by
  rw [h.lookup_value, hliteral, Option.map_map]
  exact congrFun Option.map_id_fun' text

/-- The properties that the entries come to make the component. -/
theorem Lists.ofProperties_eq (h : w.Lists entries) :
    Component.ofProperties w.component.kind w.component.range
      (Draft.filled (Draft.start ⟨w.component.kind, w.component.content.align, w.component.bg,
        w.component.border⟩) entries) = .ok w.component := by
  refine Draft.ofProperties_filled_eq_ok.mpr ⟨rfl, rfl, h.padding_eq.symm, rfl, rfl, ?_⟩
  obtain ⟨⟨range, inset, bg, border, content⟩, padding, properties, _, _, _, _⟩ := w
  cases content with
  | txt value align =>
      have hvalue : (entries.lookup "value").map (·.value) = some value := h.text_eq rfl
      exact ⟨(congrArg (Option.getD · "") hvalue).symm, rfl⟩
  | box => trivial
  | btn value =>
      have hvalue : (entries.lookup "value").map (·.value) = some value := h.text_eq rfl
      exact (congrArg (Option.getD · "") hvalue).symm
  | input label =>
      have hlabel : (entries.lookup "label").map (·.value) = some label := h.text_eq rfl
      exact (congrArg (Option.getD · "") hlabel).symm
  | img src alt =>
      have hsrc : (entries.lookup "src").map (·.value) = src := h.text_eq rfl
      have halt : (entries.lookup "alt").map (·.value) = alt := h.text_eq rfl
      exact ⟨hsrc.symm, halt.symm⟩

/-- The statement of a written component makes the component again. -/
theorem value_component {listed : List (String × Token)} {location : Location}
    (hlisted : listed.map Reader.entryShape = ("type", (.identifier, w.component.kind.name)) ::
      w.properties.map fun p => (p.1, p.2.shape))
    (hfree : ∀ a ∈ d.components, ∀ c ∈ a.range.cells, c ∉ w.component.range.cells)
    (hon : ∀ c ∈ w.component.range.cells, c.IsOn d.settings.grid) :
    (d.component w.component.range listed location).value = .ok w.component := by
  obtain ⟨⟨key, t⟩, entries, rfl, hfirst, hentries⟩ := List.map_eq_cons_iff.mp hlisted
  obtain ⟨rfl, ht⟩ := Prod.mk.inj hfirst
  have hlists : w.Lists entries := hentries
  have hnodup : ((("type", t) :: entries).map (·.1)).Nodup :=
    List.nodup_cons.mpr ⟨hlists.type_not_mem, hlists.keys_eq ▸ w.nodup_keys⟩
  refine Draft.component_eq_ok.mpr ⟨⟨w.component.kind, w.component.content.align, w.component.bg,
    w.component.border⟩, Draft.filled (Draft.start _) entries, ?_, ?_, hlists.ofProperties_eq⟩
  · rw [Keyed.ofEntries_eq_self hnodup]
    exact Draft.choose_eq_ok.mpr ⟨chooseKind_eq ht, hlists.chooseAlign_eq, Draft.checkOverlap_eq_ok.mpr hfree,
      Draft.checkBounds_eq_ok.mpr hon, hlists.chooseColor_eq (by decide) w.literal?_bg w.bg_plain,
      hlists.chooseColor_eq (by decide) w.literal?_border w.border_plain⟩
  · rw [Keyed.ofEntries_eq_self hnodup, Keyed.erase_cons_self hlists.type_not_mem]
    exact hlists.collect_eq _

theorem isWritable_of_isOn {r : Range} {grid : Int × Int} (h : ∀ c ∈ r.cells, c.IsOn grid)
    (hrows : Settings.inGridLimits grid.2 = true) : r.isWritable = true := by
  obtain ⟨-, hrow⟩ := h r.last r.last_mem_cells
  obtain ⟨-, hmost⟩ := Settings.inGridLimits_iff.mp hrows
  have hlimits : Settings.inGridLimits (r.last.row + 1) = true :=
    Settings.inGridLimits_iff.mpr (by omega)
  have hwritable := Violation.isWritable_of_inGridLimits hlimits
  rw [Range.isWritable, Coord.isWritable]
  exact hwritable

end Written

namespace Draft

variable {d : Draft} {ts : List Token}

/-- The tokens of lines start with an end of line, so what stands before them ends with its line. -/
theorem lineEnds_lines (stop : Token) {ws : List Written}
    (hts : ts.map Token.shape = ws.flatMap fun w => (.newline, "\n") :: Lexeme.lineShapes w) :
    LineEnds stop ts := by
  cases ws with
  | nil => exact Or.inr (List.map_eq_nil_iff.mp hts)
  | cons w ws =>
      obtain ⟨t, left, rfl, ht, -⟩ := List.map_eq_cons_iff.mp hts
      exact Or.inl (congrArg Prod.fst ht)

/-- The lines of components that are laid out with those before them add the components. -/
theorem value_extend_lines (stop : Token) (ws : List Written)
    (hts : ts.map Token.shape = ws.flatMap fun w => (.newline, "\n") :: Lexeme.lineShapes w)
    (hlaid : LaidOut (d.components ++ ws.map (·.component)) d.settings.grid)
    (hrows : Settings.inGridLimits d.settings.grid.2 = true) :
    (d.extend stop ts).value = .ok { d with components := d.components ++ ws.map (·.component) } := by
  induction ws generalizing d ts with
  | nil =>
      obtain rfl : ts = [] := List.map_eq_nil_iff.mp hts
      have hnone : Reader.skipNewlines [] = [] := rfl
      rw [value_extend, if_pos hnone, List.map_nil, List.append_nil]
  | cons w ws ih =>
      rw [List.flatMap_cons, List.cons_append] at hts
      obtain ⟨t, left, rfl, ht, hleft⟩ := List.map_eq_cons_iff.mp hts
      have hnewline : t.kind = .newline := congrArg Prod.fst ht
      have hskip : Reader.skipNewlines (t :: left) = left := by
        rw [Reader.skipNewlines, List.dropWhile_cons_of_pos (by simpa using hnewline)]
        refine Reader.skipNewlines_of_shape hleft ?_
        show (if w.component.range.isSingle then Token.Kind.cellRef else .cellRange) ≠ _
        split <;> decide
      obtain ⟨hbefore, hafter, hacross⟩ := List.pairwise_append.mp hlaid.disjoint
      have hon := hlaid.inside w.component (List.mem_append_right _ List.mem_cons_self)
      have hfree : ∀ a ∈ d.components, ∀ c ∈ a.range.cells, c ∉ w.component.range.cells :=
        fun a ha => hacross a ha w.component List.mem_cons_self
      obtain ⟨s, rest, hrun, ⟨listed, location, rfl, hlisted⟩, hrest⟩ :=
        Statement.takes_componentLine w (Written.isWritable_of_isOn hon hrows) stop left _ hleft
      have haccept : (d.accept (.component w.component.range listed location)).value =
          .ok { d with components := d.components ++ [w.component] } := by
        rw [accept, Noted.value_bind, Written.value_component hlisted hfree hon]
        rfl
      rw [← hskip] at hrun
      rw [value_extend, if_neg (skipNewlines_ne_nil hrun), hrun]
      simp only [haccept, if_pos (lineEnds_lines stop hrest)]
      have hall : d.components ++ (w :: ws).map (·.component) =
          d.components ++ [w.component] ++ ws.map (·.component) := by
        rw [List.map_cons, List.append_assoc, List.singleton_append]
      rw [hall] at hlaid ⊢
      exact ih hrest hlaid hrows

end Draft

namespace Document

/-- A document whose components are laid out on its grid is read from its text, with the grid and the
components in their order. -/
theorem read_source {cols rows : Nat} (hcols : 1 ≤ cols ∧ cols ≤ 26) (hrows : 1 ≤ rows ∧ rows ≤ 26)
    (ws : List Written) (hlaid : LaidOut (ws.map (·.component)) ((cols : Int), (rows : Int))) :
    (read (source cols rows ws)).value =
      .ok ⟨{ grid := ((cols : Int), (rows : Int)) }, ws.map (·.component)⟩ := by
  have hcols' : Settings.inGridLimits cols = true := Settings.inGridLimits_iff.mpr (by omega)
  have hrows' : Settings.inGridLimits rows = true := Settings.inGridLimits_iff.mpr (by omega)
  obtain ⟨ts, htokens, hts⟩ := Tokens.exists_read_source cols rows ws
  obtain ⟨s, rest, hrun, ⟨location, rfl⟩, hrest⟩ :=
    Statement.takes_gridLine hcols' hrows' ts.last ts.list _ hts
  have hskip : Reader.skipNewlines ts.list = ts.list :=
    Reader.skipNewlines_of_shape hts (show Token.Kind.identifier ≠ .newline by decide)
  rw [← hskip] at hrun
  refine read_eq_ok.mpr ⟨ts, { settings := { grid := (cols, rows) }, components := ws.map (·.component) },
    htokens, ?_, ?_⟩
  · rw [Draft.value_extend, if_neg (Draft.skipNewlines_ne_nil hrun), hrun]
    have haccept : (Draft.accept {} (.grid cols rows location)).value =
        .ok { settings := { grid := (cols, rows) } } := rfl
    simp only [haccept, if_pos (Draft.lineEnds_lines ts.last hrest)]
    exact Draft.value_extend_lines ts.last ws hrest hlaid hrows'
  · have hsound : Settings.IsSound { grid := (cols, rows) } :=
      { Settings.isSound_default with grid_inLimits := ⟨hcols', hrows'⟩ }
    have hcounts (axis : Axis) : Settings.miscounted { grid := (cols, rows) } axis = none := by
      cases axis <;> rfl
    exact Draft.finish_eq_ok.mpr ⟨Draft.checkCount_eq_ok.mpr (hcounts .columns),
      Draft.checkCount_eq_ok.mpr (hcounts .rows), Settings.errors_eq_nil_iff.mpr ⟨hsound, hcounts⟩, rfl⟩

/-- A text over two cells with quotes, backslashes, an end of line and a brace in it, and an image without a
source whose text is a comment mark. -/
def twoWritten : List Written :=
  [{ component := ⟨.spanning ⟨0, 0⟩ ⟨1, 0⟩, some (Float.ofScientific 12 true 0), some "#fff", none,
        .txt "say \"\\\"\n\x7b" .center⟩
     padding := some 12
     properties := [("padding", .digits 12), ("align", .side .center), ("bg", .quoted "#fff"),
        ("value", .quoted "say \"\\\"\n\x7b")]
     padding_eq := rfl
     properties_perm := by decide
     bg_plain := by decide
     border_plain := by decide },
   { component := ⟨.single ⟨2, 1⟩, none, none, some "", .img none (some "//")⟩
     padding := none
     properties := [("alt", .quoted "//"), ("border", .quoted "")]
     padding_eq := rfl
     properties_perm := by decide
     bg_plain := by decide
     border_plain := by decide }]

theorem read_source_of_two :
    source 3 2 twoWritten = "grid: 3x2\n" ++
        "A1..B1: \x7b type: txt, padding: 12, align: center, bg: \"#fff\", " ++
        "value: \"say \\\"\\\\\\\"\n\x7b\" \x7d\n" ++
        "C2: \x7b type: img, alt: \"//\", border: \"\" \x7d" ∧
      (read (source 3 2 twoWritten)).value = .ok ⟨{ grid := (3, 2) }, twoWritten.map (·.component)⟩ := by
  have hinside : ∀ a ∈ twoWritten.map (·.component), Violation.of? a.range (3, 2) = none := by
    decide +kernel
  refine ⟨by decide +kernel, read_source (by decide) (by decide) twoWritten ⟨by decide +kernel, ?_⟩⟩
  exact fun a ha => Violation.of?_eq_none_iff.mp (hinside a ha)

end Document
end Wireframe
