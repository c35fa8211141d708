import Wireframe.Proofs.DrawingTotal
import Wireframe.Proofs.EscapedTexts

/-! The markup of drawings. Each element of a drawing has its place in a tree, in which the texts of the
drawing stand as they are given, without the characters that XML does not have. What is printed is the
markup of that tree and of no other (`Document.draw_markup`), whatever the texts are. -/

namespace Wireframe

namespace Svg

open Markup (Content Element Shows ShowsAttributes legal)

theorem shown_text (s : String) : (Content.text (legal s)).Shown (escape s).toList :=
  .text (shows_escape s)

section Parts

variable {parts : List String} {before after : String}

/-- Parts with a separator between them, and one more in front. -/
theorem append_intercalate (sep : String) (h : parts ≠ []) :
    sep ++ sep.intercalate parts = String.join (parts.map (sep ++ ·)) := by
  induction parts with
  | nil => exact absurd rfl h
  | cons part rest ih =>
      cases rest with
      | nil => simp
      | cons next rest =>
          rw [String.intercalate_cons_cons, List.map_cons, String.join_cons,
            ← ih (List.cons_ne_nil _ _)]
          simp only [String.append_assoc]

/-- Elements with one text before each of them and another one after the last. -/
def chain (before after : String) (es : List Element) : Content :=
  es.foldr (.child before) (.text after)

variable {α : Type} {f : α → Element} {g : α → String} {xs : List α}

theorem shown_chain (hbefore : Shows before.toList before.toList)
    (hafter : Shows after.toList after.toList) (h : ∀ x ∈ xs, (f x).Shown (g x).toList) :
    (chain before after (xs.map f)).Shown
      (String.join ((xs.map g).map (before ++ ·)) ++ after).toList := by
  induction xs with
  | nil =>
      rw [List.map_nil, List.map_nil, List.map_nil, String.join_nil, String.empty_append]
      exact .text hafter
  | cons x rest ih =>
      obtain ⟨hx, hrest⟩ := List.forall_mem_cons.mp h
      have hchild := Content.Shown.child hbefore hx (ih hrest)
      rw [List.map_cons, List.map_cons, List.map_cons, String.join_cons, String.append_assoc,
        String.append_assoc, String.toList_append, String.toList_append]
      exact hchild

theorem ne_empty_of_shown {e : Element} {s : String} (h : e.Shown s.toList) : s ≠ "" := by
  obtain ⟨k, rest, hs, -⟩ := h.exists_cons
  rintro rfl
  cases hs

/-- The markup of an element is not empty, so none is left out. -/
theorem filter_markup (h : ∀ x ∈ xs, (f x).Shown (g x).toList) :
    (xs.map g).filter (· ≠ "") = xs.map g := by
  rw [List.filter_eq_self]
  intro s hs
  obtain ⟨x, hx, rfl⟩ := List.mem_map.mp hs
  exact decide_eq_true (ne_empty_of_shown (h x hx))

end Parts

section Tags

variable {tag head inner name value raw rest : String} {pairs : List (String × String)}
  {content : Content}

theorem showsAttributes_cons (hname : Markup.isName name.toList = true)
    (hvalue : Shows value.toList raw.toList) (hrest : ShowsAttributes pairs rest.toList) :
    ShowsAttributes ((name, value) :: pairs) (" " ++ (name ++ "=\"" ++ raw ++ "\"") ++ rest).toList := by
  have htext : (" " ++ (name ++ "=\"" ++ raw ++ "\"") ++ rest).toList =
      ' ' :: (name.toList ++ '=' :: '"' :: (raw.toList ++ '"' :: rest.toList)) := by
    simp
  rw [htext]
  exact .cons hname hvalue hrest

theorem shown_tag (htag : Markup.isName tag.toList = true) (hnodup : (pairs.map (·.1)).Nodup)
    (hhead : ShowsAttributes pairs head.toList) :
    (Element.mk tag pairs (.text "")).Shown ("<" ++ tag ++ head ++ "/>").toList := by
  have htext : ("<" ++ tag ++ head ++ "/>").toList =
      '<' :: (tag.toList ++ (head.toList ++ ['/', '>'])) := by
    simp
  rw [htext]
  exact .empty htag hnodup hhead

theorem shown_tags (htag : Markup.isName tag.toList = true) (hnodup : (pairs.map (·.1)).Nodup)
    (hhead : ShowsAttributes pairs head.toList) (hcontent : content.Shown inner.toList) :
    (Element.mk tag pairs content).Shown
      ("<" ++ tag ++ head ++ ">" ++ inner ++ ("</" ++ tag ++ ">")).toList := by
  have htext : ("<" ++ tag ++ head ++ ">" ++ inner ++ ("</" ++ tag ++ ">")).toList =
      '<' :: (tag.toList ++ (head.toList ++
        '>' :: (inner.toList ++ '<' :: '/' :: (tag.toList ++ ['>'])))) := by
    simp
  rw [htext]
  exact .full htag hnodup hhead hcontent

end Tags

section Attributes

variable {l : Attributes}

/-- The attributes that have a value, under their names in the markup. -/
def shown (l : Attributes) : List (String × String) :=
  l.filterMap fun (name, value) => value.map fun v => (attributeName name, legal v.shown)

/-- The attributes that have a value, as they are written. -/
def settings (l : Attributes) : List String :=
  l.filterMap fun (name, value) => value.map (setting name)

/-- The names of attributes are names of the markup, none is repeated, and the first attribute has a
value. -/
structure IsSound (l : Attributes) : Prop where
  names : ∀ name ∈ l.map (·.1), Markup.isName (attributeName name).toList = true
  nodup : ((l.map (·.1)).map attributeName).Nodup
  given : ∃ name value rest, l = (name, some value) :: rest

theorem isSound_of_names (names : List String) (hl : l.map (·.1) = names)
    (hnames : ∀ name ∈ names, Markup.isName (attributeName name).toList = true)
    (hnodup : (names.map attributeName).Nodup) (hgiven : ∃ name value rest, l = (name, some value) :: rest) :
    IsSound l := by
  subst hl
  exact ⟨hnames, hnodup, hgiven⟩

theorem nodup_shown (h : IsSound l) : ((shown l).map (·.1)).Nodup := by
  have hsublist : ∀ l : Attributes,
      ((shown l).map (·.1)).Sublist ((l.map (·.1)).map attributeName) := by
    intro l
    induction l with
    | nil => exact List.Sublist.slnil
    | cons a rest ih =>
        obtain ⟨name, value⟩ := a
        cases value with
        | none => exact ih.cons _
        | some v => exact ih.cons_cons _
  exact h.nodup.sublist (hsublist l)

theorem showsAttributes_join
    (h : ∀ name ∈ l.map (·.1), Markup.isName (attributeName name).toList = true) :
    ShowsAttributes (shown l) (String.join ((settings l).map (" " ++ ·))).toList := by
  induction l with
  | nil => exact .nil
  | cons a rest ih =>
      obtain ⟨name, value⟩ := a
      obtain ⟨hname, hrest⟩ := List.forall_mem_cons.mp h
      cases value with
      | none => exact ih hrest
      | some v =>
          have hcons := showsAttributes_cons hname (shows_escape v.shown) (ih hrest)
          show ShowsAttributes (_ :: shown rest)
            (String.join ((" " ++ setting name v) :: (settings rest).map (" " ++ ·))).toList
          rw [String.join_cons]
          exact hcons

/-- Attributes in a tag, after a space. -/
theorem showsAttributes (h : IsSound l) :
    ShowsAttributes (shown l) (" " ++ attributes l).toList := by
  have hne : settings l ≠ [] := by
    obtain ⟨name, value, rest, rfl⟩ := h.given
    exact List.cons_ne_nil _ _
  have hspaced : " " ++ attributes l = String.join ((settings l).map (" " ++ ·)) :=
    append_intercalate " " hne
  rw [hspaced]
  exact showsAttributes_join h.names

theorem shown_single (tag : String) (htag : Markup.isName tag.toList = true) (h : IsSound l) :
    (Element.mk tag (shown l) (.text "")).Shown ("<" ++ tag ++ " " ++ attributes l ++ "/>").toList := by
  have hshown := shown_tag htag (nodup_shown h) (showsAttributes h)
  simp only [String.append_assoc] at hshown ⊢
  exact hshown

theorem shown_double (tag : String) {content : Content} {inner : String}
    (htag : Markup.isName tag.toList = true) (h : IsSound l) (hcontent : content.Shown inner.toList) :
    (Element.mk tag (shown l) content).Shown
      ("<" ++ tag ++ " " ++ attributes l ++ ">" ++ inner ++ ("</" ++ tag ++ ">")).toList := by
  have hshown := shown_tags htag (nodup_shown h) (showsAttributes h) hcontent
  simp only [String.append_assoc] at hshown ⊢
  exact hshown

end Attributes

namespace Box

def element (b : Box) : Element := .mk "rect" (shown b.attributes) (.text "")

theorem isSound_attributes (b : Box) : IsSound b.attributes :=
  isSound_of_names ["x", "y", "width", "height", "rx", "fill", "stroke", "stroke-width"] rfl
    (by decide) (by decide) ⟨_, _, _, rfl⟩

theorem shown_markup (b : Box) : b.element.Shown b.markup.toList := by
  have h := shown_single "rect" (by decide) b.isSound_attributes
  rw [show "<" ++ "rect" ++ " " = "<rect " by decide] at h
  exact h

end Box

namespace Picture

def element (p : Picture) : Element := .mk "image" (shown p.attributes) (.text "")

theorem isSound_attributes (p : Picture) : IsSound p.attributes :=
  isSound_of_names ["href", "x", "y", "width", "height", "preserveAspectRatio"] rfl
    (by decide) (by decide) ⟨_, _, _, rfl⟩

theorem shown_markup (p : Picture) : p.element.Shown p.markup.toList := by
  have h := shown_single "image" (by decide) p.isSound_attributes
  rw [show "<" ++ "image" ++ " " = "<image " by decide] at h
  exact h

end Picture

namespace Lettering

/-- A line as a part of a text. -/
def spanElement (l : Lettering) (line : String) (y : Float) : Element :=
  .mk "tspan" (shown (l.lineAttributes y)) (.text (legal line))

/-- A line alone is the text of the element; of several, each is a part of it. -/
def content (l : Lettering) : Content :=
  match l.lines with
  | [line] => .text (legal line)
  | lines => chain "" "" ((lines.zip (l.top :: l.others)).map fun (line, y) => l.spanElement line y)

def element (l : Lettering) : Element := .mk "text" (shown l.attributes) l.content

theorem isSound_attributes (l : Lettering) : IsSound l.attributes :=
  isSound_of_names ["x", "y", "font-size", "font-family", "text-anchor", "fill"] rfl
    (by decide) (by decide) ⟨_, _, _, rfl⟩

theorem isSound_lineAttributes (l : Lettering) (y : Float) : IsSound (l.lineAttributes y) :=
  isSound_of_names ["x", "y"] rfl (by decide) (by decide) ⟨_, _, _, rfl⟩

theorem shown_span (l : Lettering) (line : String) (y : Float) :
    (l.spanElement line y).Shown (l.span line y).toList := by
  have h := shown_double "tspan" (by decide) (l.isSound_lineAttributes y) (shown_text line)
  rw [show "<" ++ "tspan" ++ " " = "<tspan " by decide,
    show "</" ++ "tspan" ++ ">" = "</tspan>" by decide] at h
  exact h

theorem shown_spans (l : Lettering) (lines : List (String × Float)) :
    (chain "" "" (lines.map fun (line, y) => l.spanElement line y)).Shown
      (String.join (lines.map fun (line, y) => l.span line y)).toList := by
  have hnothing : Shows "".toList "".toList := Markup.shows_self (by decide)
  have hspans : ∀ e ∈ lines, (l.spanElement e.1 e.2).Shown (l.span e.1 e.2).toList :=
    fun e _ => l.shown_span e.1 e.2
  have hchain := shown_chain hnothing hnothing hspans
  simp only [String.empty_append, List.map_id', String.append_empty] at hchain
  exact hchain

theorem shown_body (l : Lettering) : l.content.Shown l.body.toList := by
  rw [content, body]
  cases l.lines with
  | nil => exact l.shown_spans _
  | cons line rest =>
      cases rest with
      | nil => exact shown_text line
      | cons next rest => exact l.shown_spans _

theorem shown_markup (l : Lettering) : l.element.Shown l.markup.toList := by
  have h := shown_double "text" (by decide) l.isSound_attributes l.shown_body
  rw [show "<" ++ "text" ++ " " = "<text " by decide,
    show "</" ++ "text" ++ ">" = "</text>" by decide] at h
  exact h

end Lettering

def Shape.element : Shape → Element
  | box b => b.element
  | picture p => p.element
  | lettering l => l.element

theorem Shape.shown_markup (s : Shape) : s.element.Shown s.markup.toList := by
  cases s with
  | box b => exact b.shown_markup
  | picture p => exact p.shown_markup
  | lettering l => exact l.shown_markup

namespace Fragment

/-- The parts of a group, each on a line of its own. -/
def groupContent : List Shape → Content
  | [] => .text "\n    \n  "
  | parts => chain "\n    " "\n  " (parts.map Shape.element)

def element : Fragment → Element
  | shape s => s.element
  | group parts => .mk "g" [] (groupContent parts)

theorem shown_groupContent (parts : List Shape) :
    (groupContent parts).Shown
      ("\n    " ++ "\n    ".intercalate (parts.map Shape.markup) ++ "\n  ").toList := by
  cases parts with
  | nil =>
      have hblank : Shows "\n    \n  ".toList "\n    \n  ".toList := Markup.shows_self (by decide)
      exact .text hblank
  | cons part rest =>
      have hbefore : Shows "\n    ".toList "\n    ".toList := Markup.shows_self (by decide)
      have hafter : Shows "\n  ".toList "\n  ".toList := Markup.shows_self (by decide)
      have hparts : ∀ s ∈ part :: rest, s.element.Shown s.markup.toList := fun s _ => s.shown_markup
      have hne : (part :: rest).map Shape.markup ≠ [] := List.cons_ne_nil _ _
      rw [append_intercalate "\n    " hne]
      exact shown_chain hbefore hafter hparts

theorem shown_group (parts : List Shape) :
    (Element.mk "g" [] (groupContent parts)).Shown (groupMarkup (parts.map Shape.markup)).toList := by
  have hnodup : (([] : List (String × String)).map (·.1)).Nodup := List.nodup_nil
  have hhead : ShowsAttributes [] "".toList := .nil
  have htags := shown_tags (show Markup.isName "g".toList = true by decide) hnodup hhead
    (shown_groupContent parts)
  rw [groupMarkup, filter_markup fun s (_ : s ∈ parts) => s.shown_markup,
    show "<g>\n    " = "<" ++ "g" ++ "" ++ ">" ++ "\n    " by decide,
    show "\n  </g>" = "\n  " ++ ("</" ++ "g" ++ ">") by decide]
  simp only [String.append_assoc] at htags ⊢
  exact htags

theorem shown_markup (f : Fragment) : f.element.Shown f.markup.toList := by
  cases f with
  | shape s => exact s.shown_markup
  | group parts => exact shown_group parts

end Fragment

/-- Whole numbers stand as they are. -/
theorem shows_toString (n : Int) : Shows (toString n).toList (toString n).toList := by
  have hnat : ∀ m : Nat, ∀ c ∈ m.repr.toList, Markup.isNameChar c = true := by
    intro m c hc
    rw [Nat.repr, String.toList_ofList] at hc
    have hdigit := Nat.isDigit_of_mem_toDigits (by decide) (by decide) hc
    rw [Markup.isNameChar, Char.isAlphanum, hdigit, Bool.or_true]
    rfl
  have hchars : ∀ c ∈ (toString n).toList, Markup.isNameChar c = true := by
    intro c hc
    cases n with
    | ofNat m => exact hnat m c hc
    | negSucc m =>
        have hsign : (toString (Int.negSucc m)).toList = '-' :: (m + 1).repr.toList := by
          show ("-" ++ (m + 1).repr).toList = _
          rw [String.toList_append]
          rfl
        rw [hsign] at hc
        rcases List.mem_cons.mp hc with rfl | hdigits
        · rfl
        · exact hnat (m + 1) c hdigits
  exact Markup.shows_self (List.all_eq_true.mpr fun c hc =>
    Markup.isPlain_of_isNameChar (hchars c hc))

namespace Sheet

def attributes (s : Sheet) : List (String × String) :=
  [("xmlns", "http://www.w3.org/2000/svg"), ("width", toString s.width),
    ("height", toString s.height), ("viewBox", "0 0 " ++ toString s.width ++ " " ++ toString s.height)]

/-- The tree of a whole drawing. -/
def root (s : Sheet) (fragments : List Fragment) : Element :=
  .mk "svg" s.attributes
    (chain "\n  " "\n" ((Fragment.shape (.box s.backdrop) :: fragments).map Fragment.element))

/-- The attributes of the root, as they are written. -/
def head (s : Sheet) : String :=
  " " ++ ("xmlns" ++ "=\"" ++ "http://www.w3.org/2000/svg" ++ "\"") ++
    (" " ++ ("width" ++ "=\"" ++ toString s.width ++ "\"") ++
      (" " ++ ("height" ++ "=\"" ++ toString s.height ++ "\"") ++
        (" " ++ ("viewBox" ++ "=\"" ++ ("0 0 " ++ toString s.width ++ " " ++ toString s.height) ++ "\"") ++
          "")))

theorem showsAttributes_head (s : Sheet) : ShowsAttributes s.attributes s.head.toList := by
  have hblank : Shows " ".toList " ".toList := Markup.shows_self (by decide)
  have horigin : Shows "0 0 ".toList "0 0 ".toList := Markup.shows_self (by decide)
  have hspace : Shows "http://www.w3.org/2000/svg".toList "http://www.w3.org/2000/svg".toList :=
    Markup.shows_self (by decide)
  have hbox : Shows ("0 0 " ++ toString s.width ++ " " ++ toString s.height).toList
      ("0 0 " ++ toString s.width ++ " " ++ toString s.height).toList := by
    simp only [String.toList_append]
    exact ((horigin.append (shows_toString s.width)).append hblank).append (shows_toString s.height)
  have hnone : ShowsAttributes [] "".toList := .nil
  apply showsAttributes_cons (by decide) hspace
  apply showsAttributes_cons (by decide) (shows_toString s.width)
  apply showsAttributes_cons (by decide) (shows_toString s.height)
  exact showsAttributes_cons (by decide) hbox hnone

/-- Fragments without markup leave no trace in a document. -/
theorem document_congr (s : Sheet) {texts others : List String}
    (h : texts.filter (· ≠ "") = others.filter (· ≠ "")) : s.document texts = s.document others := by
  unfold document
  rw [h]

theorem document_eq (s : Sheet) (fragments : List Fragment) :
    s.document (fragments.map Fragment.markup) = Markup.declaration ++ "\n" ++
      ("<" ++ "svg" ++ s.head ++ ">" ++
        (String.join (((Fragment.shape (.box s.backdrop) :: fragments).map Fragment.markup).map
          ("\n  " ++ ·)) ++ "\n") ++ ("</" ++ "svg" ++ ">")) ++ "\n" := by
  have hall : ∀ f ∈ fragments, f.element.Shown f.markup.toList := fun f _ => f.shown_markup
  have hfilter := filter_markup hall
  have hself : ∀ t : String, toString t = t := fun _ => rfl
  unfold document
  rw [hfilter, List.map_cons, List.map_cons, String.join_cons]
  apply String.toList_inj.mp
  simp [Markup.declaration, head, Fragment.markup, Shape.markup, hself]

theorem isDocument (s : Sheet) (fragments : List Fragment) :
    Markup.IsDocument (s.root fragments) (s.document (fragments.map Fragment.markup)) := by
  have hall : ∀ f ∈ Fragment.shape (.box s.backdrop) :: fragments, f.element.Shown f.markup.toList :=
    fun f _ => f.shown_markup
  have hbefore : Shows "\n  ".toList "\n  ".toList := Markup.shows_self (by decide)
  have hafter : Shows "\n".toList "\n".toList := Markup.shows_self (by decide)
  have hnodup : (s.attributes.map (·.1)).Nodup := by
    show ["xmlns", "width", "height", "viewBox"].Nodup
    decide
  rw [document_eq]
  exact .of_shown (shown_tags (by decide) hnodup s.showsAttributes_head
    (shown_chain hbefore hafter hall))

end Sheet

section Names

/-- The elements of which drawings are made. -/
def elementNames : List String := ["rect", "text", "tspan", "image", "g"]

theorem names_chain {before after : String} {es : List Element} :
    (chain before after es).names = es.flatMap Element.names := by
  induction es with
  | nil => rfl
  | cons e rest ih =>
      rw [List.flatMap_cons, ← ih]
      rfl

theorem names_lettering (l : Lettering) : ∀ name ∈ l.element.names, name ∈ elementNames := by
  have hspans (lines : List (String × Float)) : ∀ name ∈
      (chain "" "" (lines.map fun (line, y) => l.spanElement line y)).names, name ∈ elementNames := by
    intro name hname
    rw [names_chain, List.flatMap_map] at hname
    obtain ⟨e, -, he⟩ := List.mem_flatMap.mp hname
    rw [List.mem_singleton.mp he]
    decide
  have hcontent : ∀ name ∈ l.content.names, name ∈ elementNames := by
    rw [Lettering.content]
    cases l.lines with
    | nil => exact hspans _
    | cons line rest =>
        cases rest with
        | nil => exact List.forall_mem_nil _
        | cons next rest => exact hspans _
  exact List.forall_mem_cons.mpr ⟨by decide, hcontent⟩

theorem names_shape (s : Shape) : ∀ name ∈ s.element.names, name ∈ elementNames := by
  cases s with
  | box b => exact List.forall_mem_cons.mpr ⟨by decide, List.forall_mem_nil _⟩
  | picture p =>
      exact List.forall_mem_cons.mpr ⟨by decide, List.forall_mem_nil _⟩
  | lettering l => exact names_lettering l

theorem names_fragment (f : Fragment) : ∀ name ∈ f.element.names, name ∈ elementNames := by
  cases f with
  | shape s => exact names_shape s
  | group parts =>
      refine List.forall_mem_cons.mpr ⟨by decide, ?_⟩
      cases parts with
      | nil => exact List.forall_mem_nil _
      | cons part rest =>
          intro name hname
          change name ∈ (chain _ _ ((part :: rest).map Shape.element)).names at hname
          rw [names_chain, List.flatMap_map] at hname
          obtain ⟨s, -, hs⟩ := List.mem_flatMap.mp hname
          exact names_shape s name hs

/-- One root, and elements of drawings in it. -/
theorem names_root (s : Sheet) (fragments : List Fragment) :
    ∃ inner, (s.root fragments).names = "svg" :: inner ∧ ∀ name ∈ inner, name ∈ elementNames := by
  refine ⟨_, rfl, ?_⟩
  intro name hname
  rw [names_chain, List.flatMap_map] at hname
  obtain ⟨f, -, hf⟩ := List.mem_flatMap.mp hname
  exact names_fragment f name hf

end Names

end Svg

namespace Document

open Markup (IsChar IsDocument IsSurrogate)

variable {source : String} {doc : Document}

theorem filter_map_markup (fs : List (Option Svg.Fragment)) :
    (fs.map Drawing.markup).filter (· ≠ "") =
      ((fs.filterMap id).map Svg.Fragment.markup).filter (· ≠ "") := by
  induction fs with
  | nil => rfl
  | cons f rest ih =>
      cases f with
      | none => exact ih
      | some f =>
          show (f.markup :: rest.map Drawing.markup).filter _ =
            (f.markup :: (rest.filterMap id).map Svg.Fragment.markup).filter _
          rw [List.filter_cons, List.filter_cons, ih]

namespace Parts

/-- The tree of a drawing. -/
def root (p : Parts) (loader : Option ImageLoader) : Markup.Element :=
  p.sheet.root ((p.placed.map (p.fragment loader)).filterMap id)

theorem isDocument (p : Parts) (loader : Option ImageLoader) :
    IsDocument (p.root loader) (p.drawing loader) := by
  have hdrawing : p.drawing loader = p.sheet.document ((p.placed.map (p.fragment loader)).map Drawing.markup) := by
    rw [List.map_map]
    rfl
  rw [hdrawing, p.sheet.document_congr (filter_map_markup _)]
  exact p.sheet.isDocument _

end Parts

/-- The drawing of a document that has been read is the markup of the tree of its components, whatever
their texts are and whatever images a loader finds: one root with elements of drawings in it, properly
nested, no attribute twice in a tag, and every value and every text as it is given once its entities are
replaced, but for the characters that XML does not have. It is the markup of no other tree. A text of any code
points, as which a text of characters is escaped, leaves something in markup that is no character of XML
exactly when it has a surrogate. -/
theorem draw_markup (source : String) (loader : Option ImageLoader) :
    (∀ doc, (read source).value = .ok doc → ∃ p : Parts, p.Of doc ∧
      p.placed.map (·.1) = doc.components ∧
      (doc.untold? loader = none → (doc.draw loader).value = .ok (p.drawing loader)) ∧
      IsDocument (p.root loader) (p.drawing loader) ∧
      (∀ root, IsDocument root (p.drawing loader) → root = p.root loader) ∧
      (∃ inner, (p.root loader).names = "svg" :: inner ∧ ∀ name ∈ inner, name ∈ Svg.elementNames) ∧
      ∀ c ∈ (p.drawing loader).toList, IsChar c.toNat) ∧
    (∀ s : String, Svg.escapePoints (s.toList.map Char.toNat) = (Svg.escape s).toList.map Char.toNat) ∧
    ∀ ps : List Nat, (∀ n ∈ ps, n < 0x110000) →
      ((∀ n ∈ Svg.escapePoints ps, IsChar n) ↔ ∀ n ∈ ps, ¬IsSurrogate n) := by
  refine ⟨fun doc hread => ?_, Svg.escapePoints_toNat, fun ps => Svg.isChar_escapePoints_iff⟩
  obtain ⟨p, hof, -⟩ := exists_parts hread
  have hdocument := p.isDocument loader
  refine ⟨p, hof, hof.components_eq, hof.value_draw_of_told, hdocument, ?_, ?_, hdocument.isChar⟩
  · intro root hroot
    exact hroot.unique hdocument
  · exact Svg.names_root _ _

theorem draw_markup_of_tags :
    ∃ source doc, ∃ p : Parts, ∃ loader : ImageLoader,
      source = "A1: \x7b type: btn, value: \"</text><b a='&'>\" \x7d\nB1: \x7b type: img, src: a \x7d" ∧
      (loader "a").value = .ok "\"/><script>" ∧ (read source).value = .ok doc ∧
      doc.components.length = 2 ∧ p.placed.map (·.1) = doc.components ∧
      (doc.draw (some loader)).value = .ok (p.drawing (some loader)) ∧
      IsDocument (p.root (some loader)) (p.drawing (some loader)) := by
  obtain ⟨source, hsource⟩ : ∃ source, source =
      "A1: \x7b type: btn, value: \"</text><b a='&'>\" \x7d\nB1: \x7b type: img, src: a \x7d" := ⟨_, rfl⟩
  have hcount : (read source).value.toOption.map (·.components.length) = some 2 := by
    rw [hsource]
    decide +kernel
  obtain ⟨doc, hdoc, hlength⟩ := Option.map_eq_some_iff.mp hcount
  have hread := Results.toOption_eq_some.mp hdoc
  obtain ⟨hdrawn, -⟩ := draw_markup source (some fun _ => pure (.ok "\"/><script>"))
  obtain ⟨p, -, hcomponents, hdraw, hdocument, -⟩ := hdrawn doc hread
  have htold : doc.untold? (some fun _ => pure (.ok "\"/><script>")) = none :=
    List.find?_eq_none.mpr fun src _ => Bool.false_ne_true
  exact ⟨source, doc, p, _, hsource, rfl, hread, hlength, hcomponents, hdraw htold, hdocument⟩

/-- A surrogate is kept in markup, and XML does not have it. -/
theorem escape_surrogate : Svg.escapePoints [0xD800] = [0xD800] ∧ ¬IsChar 0xD800 := by
  decide

end Document
end Wireframe
