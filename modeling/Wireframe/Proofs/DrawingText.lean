import Wireframe.Proofs.DrawingMarkup
import Wireframe.Proofs.WrapContent

/-! The texts of drawings. A text that is fitted into its rectangle stands in the markup in one element,
whole in it or a line at a time, with every character in its place but for spaces, line ends and what
XML does not have (`Drawing.showsText_component`). -/

namespace Wireframe

namespace Markup

def Element.name : Element → String
  | .mk name _ _ => name

def Element.content : Element → Content
  | .mk _ _ content => content

mutual

/-- The elements of a name, in the order of the markup. -/
def Element.named (name : String) : Element → List Element
  | .mk tag attributes content =>
    (if tag = name then [.mk tag attributes content] else []) ++ content.named name

def Content.named (name : String) : Content → List Element
  | .text _ => []
  | .child _ e after => e.named name ++ after.named name

end

mutual

/-- The text nodes of an element, in the order of the markup. -/
def Element.texts : Element → List String
  | .mk _ _ content => content.texts

def Content.texts : Content → List String
  | .text value => [value]
  | .child before e after => before :: (e.texts ++ after.texts)

end

/-- The elements right below. -/
def Content.children : Content → List Element
  | .text _ => []
  | .child _ e after => e :: after.children

/-- The markup is that of the tree and of no other. -/
def Element.Is (e : Element) (markup : String) : Prop :=
  e.Shown markup.toList ∧ ∀ other : Element, other.Shown markup.toList → other = e

theorem Element.is_of_shown {e : Element} {markup : String} (h : e.Shown markup.toList) : e.Is markup :=
  ⟨h, fun other hother => (Element.shown_unique other hother h (congrArg (· ++ []) rfl)).1⟩

theorem legal_toList (s : String) : (legal s).toList = s.toList.filter fun c => IsChar c.toNat := by
  rw [legal, String.toList_ofList]

end Markup

namespace Svg

open Markup (Content Element legal)

variable {before after name : String} {es : List Element}

theorem named_chain : (chain before after es).named name = es.flatMap (Element.named name) := by
  induction es with
  | nil => rfl
  | cons e rest ih =>
      rw [List.flatMap_cons, ← ih]
      rfl

theorem children_chain : (chain before after es).children = es := by
  induction es with
  | nil => rfl
  | cons e rest ih => exact congrArg (e :: ·) ih

theorem join_texts_chain : String.join (chain "" "" es).texts = String.join (es.flatMap Element.texts) := by
  induction es with
  | nil => rfl
  | cons e rest ih =>
      have hchain : (chain "" "" (e :: rest)).texts = "" :: (e.texts ++ (chain "" "" rest).texts) := rfl
      rw [hchain, String.join_cons, String.empty_append, List.flatMap_cons, String.join_append, ih,
        String.join_append]

namespace Lettering

variable {l : Lettering}

/-- A line alone is the whole text, and otherwise each line is an element in it. -/
theorem content_eq (l : Lettering) : (∃ line, l.lines = [line] ∧ l.content = .text (legal line)) ∨
    (∀ line, l.lines ≠ [line]) ∧ l.content =
      chain "" "" ((l.lines.zip (l.top :: l.others)).map fun p => l.spanElement p.1 p.2) := by
  rw [content]
  split
  · next line hlines => exact Or.inl ⟨line, hlines, rfl⟩
  · next hseveral => exact Or.inr ⟨hseveral, rfl⟩

theorem named_text (l : Lettering) : l.element.named "text" = [l.element] := by
  have hcontent : l.content.named "text" = [] := by
    obtain ⟨line, -, hcontent⟩ | ⟨-, hcontent⟩ := content_eq l
    · rw [hcontent]
      rfl
    · rw [hcontent, named_chain, List.flatMap_map, List.flatMap_eq_nil_iff]
      intro p _
      rfl
  rw [element, Element.named, if_pos rfl, hcontent]
  rfl

/-- Each line has its place. -/
theorem map_fst_places (h : l.others.length + 1 = l.lines.length) :
    (l.lines.zip (l.top :: l.others)).map Prod.fst = l.lines :=
  List.map_fst_zip (by rw [List.length_cons, h])

theorem content_cases (h : l.others.length + 1 = l.lines.length) :
    (∃ line, l.lines = [line] ∧ l.content = .text (legal line)) ∨
      (1 < l.lines.length ∧ l.content.children.map (fun e => (e.name, e.content)) =
        l.lines.map fun line => ("tspan", .text (legal line))) := by
  obtain hsingle | ⟨hseveral, hcontent⟩ := content_eq l
  · exact Or.inl hsingle
  · have hlength : l.lines.length ≠ 1 := by
      intro hone
      obtain ⟨line, hlines⟩ := List.length_eq_one_iff.mp hone
      exact hseveral line hlines
    refine Or.inr ⟨by omega, ?_⟩
    rw [hcontent, children_chain]
    conv_rhs => rw [← map_fst_places h]
    rw [List.map_map, List.map_map]
    rfl

theorem join_texts (h : l.others.length + 1 = l.lines.length) :
    String.join l.element.texts = String.join (l.lines.map legal) := by
  rw [element, Element.texts]
  obtain ⟨line, hlines, hcontent⟩ | ⟨-, hcontent⟩ := content_eq l
  · rw [hcontent, hlines]
    rfl
  · rw [hcontent, join_texts_chain, List.flatMap_map]
    conv_rhs => rw [← map_fst_places h, List.map_map, List.map_eq_flatMap]
    rfl

end Lettering

theorem named_box (b : Box) (name : String) (h : name ≠ "rect") : b.element.named name = [] := by
  rw [Box.element, Element.named, if_neg (Ne.symm h)]
  rfl

end Svg

namespace Drawing

open Svg
open Markup (Element legal)

/-- The markup holds one text element: a line alone, or an element for each line, and in them the
characters of the value in their order, but for spaces, line ends and what XML does not have. -/
def ShowsText (value : String) (lines : List (List Char)) (markup : String) : Prop :=
  ∃ root t : Element, root.Is markup ∧ root.named "text" = [t] ∧
    (String.join t.texts).toList.filter (· ≠ ' ') =
      ((legal value).toList.filter (· ≠ '\n')).filter (· ≠ ' ') ∧
    ((∃ line, lines = [line] ∧ t.content = .text (legal (String.ofList line))) ∨
      (1 < lines.length ∧ t.content.children.map (fun e => (e.name, e.content)) =
        lines.map fun line => ("tspan", .text (legal (String.ofList line)))))

/-- The lines that a text is fitted into. -/
def linesOf (value : String) (r : Rect Float) (theme : Theme) : List (List Char) :=
  (Typeset.fit r.width r.height r.padding theme.fontSize.toFloat value.toList).lines

variable {value : String} {r : Rect Float} {theme : Theme} {align : Align} {fill : String}

theorem linesOf_ne_nil (value : String) (r : Rect Float) (theme : Theme) : linesOf value r theme ≠ [] := by
  rw [linesOf, Typeset.fit, Typeset.lines_fitFrom]
  exact Typeset.wrap_ne_nil _ _ _

theorem filter_flatten_linesOf (value : String) (r : Rect Float) (theme : Theme) :
    (linesOf value r theme).flatten.filter (· ≠ ' ') =
      (value.toList.filter (· ≠ '\n')).filter (· ≠ ' ') := by
  rw [linesOf, Typeset.fit, Typeset.lines_fitFrom]
  exact Typeset.filter_flatten_wrap _ _ _

/-- A text that is not empty is set in as many lines as it is fitted into. -/
theorem exists_lettering (h : value ≠ "") (r : Rect Float) (theme : Theme) (align : Align) (fill : String) :
    ∃ l : Lettering, text? value r theme align fill = some (.lettering l) ∧
      l.lines = (linesOf value r theme).map String.ofList ∧ l.others.length + 1 = l.lines.length := by
  refine ⟨_, by rw [text?, if_neg h], rfl, ?_⟩
  have hpos := List.length_pos_iff.mpr (linesOf_ne_nil value r theme)
  simp only [Block.fit, List.length_map, List.length_range']
  rw [linesOf] at hpos
  omega

theorem toList_join_legal (lines : List (List Char)) :
    (String.join ((lines.map String.ofList).map legal)).toList =
      lines.flatten.filter fun c => Markup.IsChar c.toNat := by
  induction lines with
  | nil => rfl
  | cons line rest ih =>
      rw [List.map_cons, List.map_cons, String.join_cons, String.toList_append, ih, Markup.legal_toList,
        String.toList_ofList, List.flatten_cons, List.filter_append]

/-- A fragment with one text that is set in the fitted lines shows the text. -/
theorem showsText_of_lettering {f : Fragment} {l : Lettering}
    (hnamed : f.element.named "text" = [l.element]) (hlines : l.lines = (linesOf value r theme).map String.ofList)
    (hlength : l.others.length + 1 = l.lines.length) :
    ShowsText value (linesOf value r theme) (markup (some f)) := by
  refine ⟨f.element, l.element, Element.is_of_shown f.shown_markup, hnamed, ?_, ?_⟩
  · rw [Lettering.join_texts hlength, hlines, toList_join_legal, List.filter_comm, filter_flatten_linesOf,
      Markup.legal_toList]
    simp only [List.filter_filter, Bool.and_comm, Bool.and_left_comm, Bool.and_assoc]
  · rcases Lettering.content_cases hlength with ⟨line, hline, hcontent⟩ | ⟨hmany, hchildren⟩
    · rw [hlines] at hline
      obtain ⟨first, hfirst, rfl⟩ := List.map_eq_singleton_iff.mp hline
      exact Or.inl ⟨first, hfirst, hcontent⟩
    · rw [hlines, List.length_map] at hmany
      rw [hlines, List.map_map] at hchildren
      exact Or.inr ⟨hmany, hchildren⟩

theorem named_shape (r : Rect Float) (theme : Theme) (fill : String) (stroke : Option String) :
    (shape r theme fill stroke).element.named "text" = [] :=
  named_box _ "text" (by decide)

/-- Of a group the texts are those of its parts. -/
theorem named_group (parts : List Shape) :
    (Fragment.group parts).element.named "text" =
      parts.flatMap fun s => s.element.named "text" := by
  cases parts with
  | nil => rfl
  | cons part rest =>
      have hgroup : (Fragment.group (part :: rest)).element.named "text" =
        (chain "\n    " "\n  " ((part :: rest).map Shape.element)).named "text" := rfl
      rw [hgroup, named_chain, List.flatMap_map]

/-- A text on a shape. -/
theorem showsText_group (hvalue : value ≠ "") (back : Shape) (hback : back.element.named "text" = []) :
    ShowsText value (linesOf value r theme)
      (markup (some (.group (back :: (text? value r theme align fill).toList)))) := by
  obtain ⟨l, htext, hlines, hlength⟩ := exists_lettering hvalue r theme align fill
  refine showsText_of_lettering (l := l) ?_ hlines hlength
  rw [htext, Option.toList_some, named_group, List.flatMap_cons, hback, List.nil_append,
    List.flatMap_singleton]
  exact Lettering.named_text l

theorem showsText_txt? (c : Component) (hvalue : value ≠ "") (align : Align) (r : Rect Float)
    (theme : Theme) : ShowsText value (linesOf value r theme) (markup (txt? c value align r theme)) := by
  by_cases hback : (given c.bg).isSome || (given c.border).isSome
  · have htxt : txt? c value align r theme = some (.group
        (shape r theme ((given c.bg).getD "none") c.border :: (text? value r theme align ink).toList)) := by
      obtain ⟨l, htext, -⟩ := exists_lettering hvalue r theme align ink
      rw [txt?, if_pos hback, htext]
      rfl
    rw [htxt]
    exact showsText_group hvalue _ (named_shape _ _ _ _)
  · obtain ⟨l, htext, hlines, hlength⟩ := exists_lettering hvalue r theme align ink
    have htxt : txt? c value align r theme = some (.shape (.lettering l)) := by
      rw [txt?, if_neg hback, htext]
      rfl
    rw [htxt]
    exact showsText_of_lettering (l.named_text) hlines hlength

theorem imageName_ne_empty (src alt : Option String) : imageName src alt ≠ "" := by
  intro h
  have hlist := congrArg String.toList h
  rw [imageName, String.toList_append, String.toList_append] at hlist
  cases hlist

/-- The markup holds one text element with the label as its only text, and none where there is no
label. -/
def ShowsLabel (label : String) (markup : String) : Prop :=
  ∃ root : Element, root.Is markup ∧
    if label = "" then root.named "text" = []
    else ∃ t : Element, root.named "text" = [t] ∧ t.content = .text (legal label)

theorem named_input (c : Component) (label : String) (r : Rect Float) (theme : Theme) :
    (input c label r theme).element.named "text" =
      (label? label r theme).toList.flatMap fun s => s.element.named "text" := by
  have hfield : (field c r theme).element.named "text" = [] := named_box _ "text" (by decide)
  rw [input, named_group, List.flatMap_append, List.flatMap_singleton, hfield, List.append_nil]

/-- The label of a field stands alone in its element. -/
theorem showsLabel_input (c : Component) (label : String) (r : Rect Float) (theme : Theme) :
    ShowsLabel label (markup (some (input c label r theme))) := by
  have hnamed := named_input c label r theme
  refine ⟨_, Element.is_of_shown (input c label r theme).shown_markup, ?_⟩
  split
  · next hnone =>
    rw [hnamed, label?, if_pos hnone]
    rfl
  · next hsome =>
    obtain ⟨l, hlabel, hlines⟩ : ∃ l, label? label r theme = some (.lettering l) ∧ l.lines = [label] :=
      ⟨_, by rw [label?, if_neg hsome], rfl⟩
    refine ⟨l.element, ?_, ?_⟩
    · rw [hnamed, hlabel, Option.toList_some, List.flatMap_singleton]
      exact l.named_text
    · show l.content = _
      rw [Lettering.content, hlines]

/-- A text, the text of a button and the name of an image that is not there are set as they are given:
in one element, in the lines into which they are fitted, with no character lost, repeated or moved but
for spaces, line ends and what XML does not have. The label of a field is one text. A text of any code points,
as which a text of characters is escaped, is shown as what XML has of it exactly when it has no surrogate. -/
theorem showsText_component (c : Component) (r : Rect Float) (theme : Theme) (image : Option String) :
    (∀ value align, c.content = .txt value align → value ≠ "" →
      ShowsText value (linesOf value r theme) (markup (component c r theme image))) ∧
    (∀ value, c.content = .btn value → value ≠ "" →
      ShowsText value (linesOf value r theme) (markup (component c r theme image))) ∧
    (∀ src alt, c.content = .img src alt → image = none →
      ShowsText (imageName src alt) (linesOf (imageName src alt) r theme)
        (markup (component c r theme image))) ∧
    (∀ label, c.content = .input label → ShowsLabel label (markup (component c r theme image))) ∧
    (∀ s : String, escapePoints (s.toList.map Char.toNat) = (escape s).toList.map Char.toNat) ∧
    ∀ ps : List Nat, (∀ n ∈ ps, n < 0x110000) →
      (escapePoints ps = escapePoints (ps.filter fun n => Markup.IsChar n) ↔
        ∀ n ∈ ps, ¬Markup.IsSurrogate n) := by
  refine ⟨?_, ?_, ?_, ?_, escapePoints_toNat, fun ps => escapePoints_filter_iff⟩
  · intro value align hcontent hvalue
    rw [component, hcontent]
    exact showsText_txt? c hvalue align r theme
  · intro value hcontent hvalue
    rw [component, hcontent]
    exact showsText_group hvalue _ (named_shape _ _ _ _)
  · rintro src alt hcontent rfl
    rw [component, hcontent]
    exact showsText_group (imageName_ne_empty src alt) _ (named_shape _ _ _ _)
  · intro label hcontent
    rw [component, hcontent]
    exact showsLabel_input c label r theme

/-- A text in three lines, the box of an image that is not there, and a field with its label. -/
theorem showsText_component_of_lines :
    ∃ (range : Range) (r : Rect Float) (value : String),
      value = "ab  cd\n漢字 <e>" ∧
      linesOf value r .default = ["ab  cd".toList, "漢字".toList, "<e>".toList] ∧
      ShowsText value (linesOf value r .default)
        (markup (component ⟨range, none, none, none, .txt value .left⟩ r .default none)) ∧
      ShowsText "[IMG: a.png]" (linesOf "[IMG: a.png]" r .default)
        (markup (component ⟨range, none, none, none, .img (some "a.png") none⟩ r .default none)) ∧
      ShowsLabel "<Name>" (markup (component ⟨range, none, none, none, .input "<Name>"⟩ r .default none)) := by
  obtain ⟨range, hrange⟩ : ∃ range, range = Range.single ⟨0, 0⟩ := ⟨_, rfl⟩
  obtain ⟨r, hr⟩ : ∃ r : Rect Float, r = ⟨0, 0, 70, 90, 4⟩ := ⟨_, rfl⟩
  refine ⟨range, r, "ab  cd\n漢字 <e>", rfl, ?_, ?_, ?_, ?_⟩
  · rw [hr]
    decide +kernel
  · exact (showsText_component _ r .default none).1 _ .left rfl (by decide)
  · exact (showsText_component _ r .default none).2.2.1 (some "a.png") none rfl rfl
  · exact (showsText_component _ r .default none).2.2.2.1 _ rfl

/-- A surrogate in a text is shown, and XML does not have it. -/
theorem escape_kept : escapePoints ['a'.toNat, 0xD800] = ['a'.toNat, 0xD800] ∧
    (['a'.toNat, 0xD800].filter fun n => Markup.IsChar n) = ['a'.toNat] := by
  decide

end Drawing
end Wireframe
