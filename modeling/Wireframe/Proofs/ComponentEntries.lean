import Wireframe.Proofs.ComponentPhrases
import Wireframe.Proofs.DocumentRoundTrip

/-! What a component depends on. Its entries go into a list with one entry for each name, from which the kind,
the side and the colors are taken and the entries that mean nothing for the kind are left out. A component
is accepted exactly where it is described by the last entries of the names that count
(`Draft.component_eq_ok_iff`), so other entries and the order of the names make no difference
(`Draft.accept_restated`). -/

namespace Wireframe

open Keyed

namespace Component

/-- A text of a kind is shown from what is given under the keys of the kind. -/
theorem Content.Shows.congr {content : Content} {texts texts' : String → Option String} {align : Align}
    (h : content.Shows texts align) (hkeys : ∀ key ∈ content.kind.properties, texts key = texts' key) :
    content.Shows texts' align := by
  cases content with
  | txt value side =>
      have hvalue := hkeys "value" (show "value" ∈ Kind.txt.properties by decide)
      exact ⟨hvalue ▸ h.1, h.2⟩
  | box => trivial
  | btn value =>
      have hvalue := hkeys "value" (show "value" ∈ Kind.btn.properties by decide)
      exact Eq.trans h (congrArg (Option.getD · "") hvalue)
  | input label =>
      have hlabel := hkeys "label" (show "label" ∈ Kind.input.properties by decide)
      exact Eq.trans h (congrArg (Option.getD · "") hlabel)
  | img src alt =>
      have hsrc := hkeys "src" (show "src" ∈ Kind.img.properties by decide)
      have halt := hkeys "alt" (show "alt" ∈ Kind.img.properties by decide)
      exact ⟨h.1.trans hsrc, h.2.trans halt⟩

end Component

namespace Draft

variable {d d' : Draft} {range : Range} {listed listed' entries : List (String × Token)}
  {location location' : Location} {c : Component} {kind : Component.Kind} {p q : Component.Properties}
  {key : String}

/-- What becomes of an entry for a color under the palette. -/
def Resolves (palette : Palette) (t : Token) (color : String) : Prop :=
  Color.resolve palette t.value = .ok color

/-- The component that the last entries of each name describe, and that the draft has room for. -/
structure Describes (d : Draft) (range : Range) (listed : List (String × Token)) (c : Component) : Prop where
  free : ∀ a ∈ d.components, ∀ cell ∈ a.range.cells, cell ∉ range.cells
  inside : ∀ cell ∈ range.cells, cell.IsOn d.settings.grid
  range : c.range = range
  kind : (last? listed "type").map (·.value) = some c.kind.name
  padding : Option.Rel (fun t x => t.kind = .number ∧ Statement.decimal t = x) (last? listed "padding")
    c.padding
  bg : Option.Rel (Resolves d.settings.palette) (last? listed "bg") c.bg
  border : Option.Rel (Resolves d.settings.palette) (last? listed "border") c.border
  content : ∃ align : Align, ((last? listed "align").map (·.value)).getD Align.left.name = align.name ∧
    c.content.Shows (fun key => (last? listed key).map (·.value)) align

theorem chooseKind_eq_ok :
    chooseKind (ofEntries listed) = .ok kind ↔ (last? listed "type").map (·.value) = some kind.name := by
  rw [chooseKind, lookup_ofEntries]
  cases last? listed "type" with
  | none =>
      refine iff_of_false ?_ ?_
      · intro h
        cases h
      · intro h
        cases h
  | some t =>
      rw [Option.map_some, Option.some.injEq, ← Component.Kind.ofName?_eq_some_iff]
      cases hname : Component.Kind.ofName? t.value <;> simp [hname]

theorem chooseAlign_eq_ok {align : Align} :
    chooseAlign (ofEntries listed) = .ok align ↔
      ((last? listed "align").map (·.value)).getD Align.left.name = align.name := by
  rw [chooseAlign, lookup_ofEntries]
  cases last? listed "align" with
  | none => cases align <;> simp [Align.name]
  | some t =>
      rw [Option.map_some, Option.getD_some, ← Align.ofName?_eq_some_iff]
      cases hname : Align.ofName? t.value <;> simp [hname]

theorem chooseColor_eq_ok {color : Option String} :
    d.chooseColor key (ofEntries listed) = .ok color ↔
      Option.Rel (Resolves d.settings.palette) (last? listed key) color := by
  rw [chooseColor, lookup_ofEntries]
  cases last? listed key with
  | none => cases color <;> simp
  | some t =>
      cases hcolor : Color.resolve d.settings.palette t.value <;> cases color <;> simp [Resolves, hcolor]

/-- Entries that mean nothing for the kind are left out. -/
theorem value_collect_filter (kind : Component.Kind) (p : Component.Properties)
    (entries : List (String × Token)) :
    (collect kind p entries).value =
      (collect kind p (entries.filter fun e => e.1 ∈ kind.properties)).value := by
  induction entries generalizing p with
  | nil => rfl
  | cons e rest ih =>
      obtain ⟨key, t⟩ := e
      by_cases hkey : key ∈ kind.properties
      · rw [List.filter_cons_of_pos (by simpa using hkey), collect, collect, if_neg (not_not.mpr hkey),
          if_neg (not_not.mpr hkey)]
        split
        · split
          · exact ih _
          · rfl
        · exact ih _
      · rw [List.filter_cons_of_neg (by simpa using hkey), collect, if_pos hkey]
        exact ih p

theorem padding_mem_properties (kind : Component.Kind) : "padding" ∈ kind.properties := by
  cases kind <;> decide

theorem number_of_collect {t : Token} (h : (collect kind p entries).value = .ok q)
    (ht : ("padding", t) ∈ entries) : t.kind = .number := by
  induction entries generalizing p with
  | nil => exact absurd ht List.not_mem_nil
  | cons e rest ih =>
      obtain ⟨key, t'⟩ := e
      rcases List.mem_cons.mp ht with heq | hrest
      · cases heq
        rw [collect, if_neg (not_not.mpr (padding_mem_properties kind)), if_pos rfl] at h
        split at h
        · assumption
        · cases h
      · rw [collect] at h
        split at h
        · exact ih h hrest
        split at h
        · split at h
          · exact ih h hrest
          · cases h
        · exact ih h hrest

/-- Of entries of different names those that mean something for the kind are taken, the inset when it is a
number; there is no other way to fail. -/
theorem collect_eq_ok (hnodup : (entries.map (·.1)).Nodup) :
    (collect kind p entries).value = .ok q ↔
      (∀ t, entries.lookup "padding" = some t → t.kind = .number) ∧
        filled p (entries.filter fun e => e.1 ∈ kind.properties) = q := by
  have hnumbers : (∀ t, entries.lookup "padding" = some t → t.kind = .number) →
      (collect kind p entries).value = .ok (filled p (entries.filter fun e => e.1 ∈ kind.properties)) := by
    intro hpadding
    rw [value_collect_filter]
    refine value_collect ((List.filter_sublist.map _).nodup hnodup) (fun e he => ?_) fun t ht => ?_
    · simpa using List.of_mem_filter he
    · exact hpadding t ((lookup_eq_some_iff hnodup).mpr (List.mem_of_mem_filter ht))
  constructor
  · intro h
    have hpadding : ∀ t, entries.lookup "padding" = some t → t.kind = .number :=
      fun t ht => number_of_collect h ((lookup_eq_some_iff hnodup).mp ht)
    exact ⟨hpadding, Except.ok.inj ((hnumbers hpadding).symm.trans h)⟩
  · rintro ⟨hpadding, rfl⟩
    exact hnumbers hpadding

/-- The entries of a list that count for a kind. -/
theorem lookup_relevant (h : key ∈ kind.properties) :
    ((erase "type" (ofEntries listed)).filter fun e => e.1 ∈ kind.properties).lookup key =
      last? listed key := by
  have hkey : key ≠ "type" := by
    rintro rfl
    cases kind <;> exact absurd h (by decide)
  rw [lookup_filter (fun k => k ∈ kind.properties), if_pos (by simpa using h), erase,
    lookup_filter (fun k => k ≠ "type"), if_pos (by simpa using hkey), lookup_ofEntries]

theorem rel_decimal_iff {entry : Option Token} {padding : Option Float} :
    Option.Rel (fun t x => t.kind = .number ∧ Statement.decimal t = x) entry padding ↔
      (∀ t, entry = some t → t.kind = .number) ∧ padding = entry.map Statement.decimal := by
  cases entry <;> cases padding <;> simp [eq_comm]

/-- A component is made of the last entries of each name, and of nothing else. -/
theorem component_eq_ok_iff :
    (d.component range listed location).value = .ok c ↔ Describes d range listed c := by
  have hnodup : ((erase "type" (ofEntries listed)).map (·.1)).Nodup :=
    (List.filter_sublist.map _).nodup (nodup_ofEntries listed)
  have hpadding : (erase "type" (ofEntries listed)).lookup "padding" = last? listed "padding" := by
    rw [erase, lookup_filter (fun k => k ≠ "type"), if_pos (by decide), lookup_ofEntries]
  rw [component_eq_ok]
  constructor
  · rintro ⟨choice, p, hchoose, hcollect, hmake⟩
    obtain ⟨hkind, halign, hoverlap, hbounds, hbg, hborder⟩ := choose_eq_ok.mp hchoose
    obtain ⟨hnumber, rfl⟩ := (collect_eq_ok hnodup).mp hcollect
    obtain ⟨hrange, hckind, hcpadding, hcbg, hcborder, hshows⟩ := ofProperties_filled_eq_ok.mp hmake
    rw [hpadding] at hnumber
    rw [lookup_relevant (padding_mem_properties choice.kind)] at hcpadding
    refine ⟨checkOverlap_eq_ok.mp hoverlap, checkBounds_eq_ok.mp hbounds, hrange,
      hckind ▸ chooseKind_eq_ok.mp hkind, rel_decimal_iff.mpr ⟨hnumber, hcpadding⟩,
      hcbg ▸ chooseColor_eq_ok.mp hbg, hcborder ▸ chooseColor_eq_ok.mp hborder, choice.align,
      chooseAlign_eq_ok.mp halign, ?_⟩
    exact hshows.congr fun key hkey => congrArg _ (lookup_relevant (hckind ▸ hkey))
  · intro h
    obtain ⟨align, halign, hshows⟩ := h.content
    obtain ⟨hnumber, hcpadding⟩ := rel_decimal_iff.mp h.padding
    rw [← hpadding] at hnumber
    refine ⟨⟨c.kind, align, c.bg, c.border⟩, _, choose_eq_ok.mpr ⟨chooseKind_eq_ok.mpr h.kind,
      chooseAlign_eq_ok.mpr halign, checkOverlap_eq_ok.mpr h.free, checkBounds_eq_ok.mpr h.inside,
      chooseColor_eq_ok.mpr h.bg, chooseColor_eq_ok.mpr h.border⟩,
      (collect_eq_ok hnodup).mpr ⟨hnumber, rfl⟩, ofProperties_filled_eq_ok.mpr ⟨h.range, rfl, ?_, rfl, rfl, ?_⟩⟩
    · rw [lookup_relevant (padding_mem_properties c.kind)]
      exact hcpadding
    · exact hshows.congr fun key hkey => congrArg _ (lookup_relevant hkey).symm

/-- The names of entries that count for a kind. -/
def relevant (kind : Component.Kind) : List String := "type" :: "align" :: kind.properties

/-- Only the last entries of the names that count are looked at. -/
theorem Describes.congr (h : Describes d range listed c)
    (hkeys : ∀ key ∈ relevant c.kind, last? listed' key = last? listed key) : Describes d range listed' c := by
  have hproperty : ∀ key ∈ c.kind.properties, last? listed' key = last? listed key :=
    fun key hkey => hkeys key (List.mem_cons_of_mem _ (List.mem_cons_of_mem _ hkey))
  have hcolor : "bg" ∈ c.kind.properties ∧ "border" ∈ c.kind.properties := by
    cases c.kind <;> decide
  obtain ⟨align, halign, hshows⟩ := h.content
  refine ⟨h.free, h.inside, h.range, ?_, ?_, ?_, ?_, align, ?_, ?_⟩
  · rw [hkeys "type" List.mem_cons_self]
    exact h.kind
  · rw [hproperty "padding" (padding_mem_properties c.kind)]
    exact h.padding
  · rw [hproperty "bg" hcolor.1]
    exact h.bg
  · rw [hproperty "border" hcolor.2]
    exact h.border
  · rw [hkeys "align" (List.mem_cons_of_mem _ List.mem_cons_self)]
    exact halign
  · exact hshows.congr fun key hkey => congrArg _ (hproperty key hkey).symm

/-- Ways to list the entries of a component of a kind differently that make no difference. -/
inductive Restates (kind : Component.Kind) : List (String × Token) → List (String × Token) → Prop
  /-- In another order, but for the entries of each name. -/
  | reordered {listed listed' : List (String × Token)} (hperm : listed'.Perm listed)
      (horder : ∀ key, listed'.filter (·.1 = key) = listed.filter (·.1 = key)) : Restates kind listed listed'
  /-- With one more, before another of its name. -/
  | overridden {front back : List (String × Token)} {e : String × Token}
      (hvalue : e.2.kind ∈ Statement.valueKinds) (h : e.1 ∈ back.map (·.1)) :
      Restates kind (front ++ back) (front ++ e :: back)
  /-- With one more, of a name that does not count. -/
  | foreign {front back : List (String × Token)} {e : String × Token}
      (hvalue : e.2.kind ∈ Statement.valueKinds) (h : e.1 ∉ relevant kind) :
      Restates kind (front ++ back) (front ++ e :: back)

theorem Restates.last?_eq (h : Restates kind listed listed') (hkey : key ∈ relevant kind) :
    last? listed' key = last? listed key := by
  cases h with
  | reordered _ horder => rw [last?, last?, horder]
  | @overridden front back e _ h =>
      by_cases he : e.1 = key
      · exact last?_of_mem (he ▸ h) e
      · exact last?_of_ne he
  | foreign _ h => exact last?_of_ne fun he => h (he ▸ hkey)

theorem Restates.kind_mem (h : Restates kind listed listed')
    (hlisted : ∀ e ∈ listed, e.2.kind ∈ Statement.valueKinds) :
    ∀ e ∈ listed', e.2.kind ∈ Statement.valueKinds := by
  cases h with
  | reordered hperm => exact fun e he => hlisted e (hperm.mem_iff.mp he)
  | overridden hvalue | foreign hvalue =>
      obtain ⟨hfront, hback⟩ := List.forall_mem_append.mp hlisted
      exact List.forall_mem_append.mpr ⟨hfront, List.forall_mem_cons.mpr ⟨hvalue, hback⟩⟩

variable {stop : Token} {ts rest : List Token}

/-- A component depends on the last entry of each name that counts only. Where a component statement is read
and accepted, the component is the one that these entries describe, and it is the same when the entries are
given in another order, apart from those of one name, or with one more that is overridden or that does not
count: such a statement can be written, and however it is written, it is read and accepted. -/
theorem accept_restated (hread : Statement.reader.run stop ts = .ok (.component range listed location, rest))
    (haccept : (d.accept (.component range listed location)).value = .ok d') :
    ∃ c, d' = d.add c ∧ Describes d range listed c ∧
      ∀ listed', Restates c.kind listed listed' →
        (∃ word ∈ Phrase.component, ∃ location', Phrase.Says word (.component range listed' location')) ∧
        ∀ word ∈ Phrase.component, ∀ location', Phrase.Says word (.component range listed' location') →
          Statement.reader.run stop (word ++ rest) = .ok (.component range listed' location', rest) ∧
          (d.accept (.component range listed' location')).value = .ok d' := by
  obtain ⟨c, hc, rfl⟩ := accept_component_eq_ok.mp haccept
  have hdescribes := component_eq_ok_iff.mp hc
  refine ⟨c, rfl, hdescribes, fun listed' hrestates => ⟨?_, fun word hword location' hsays => ⟨?_, ?_⟩⟩⟩
  · obtain ⟨word, hsays, -⟩ := Statement.tells_reader.exists_word hread
    obtain ⟨key, _, _, _, _, _, -, hkey, hrange, -, -, hentries, -⟩ := hsays.exists_parts
    obtain ⟨word', hword', hsays'⟩ := Phrase.exists_says key hkey hrange (hrestates.kind_mem hentries.kind_mem)
    exact ⟨word', hword', key.location, hsays'⟩
  · exact Statement.readsAs_of_says hword hsays stop rest
  · have hdescribes' : Describes d range listed' c := hdescribes.congr fun key hkey => hrestates.last?_eq hkey
    exact accept_component_eq_ok.mpr ⟨c, component_eq_ok_iff.mpr hdescribes', rfl⟩

/-- A text in one cell: with its entries in another order, with one that is overridden, and with one that means
nothing for a text. -/
theorem accept_restated_of_text :
    ∃ (cell : Range) (stop text : Token) (listed : List (String × Token)) (d' : Draft),
      text.value = "Hi" ∧ listed = [("type", ⟨.identifier, "txt", .start⟩), ("value", text)] ∧
      d' = ({} : Draft).add ⟨cell, none, none, none, .txt "Hi" .left⟩ ∧
      ∀ listed' ∈ [listed.reverse, ("value", ⟨.number, "7", .start⟩) :: listed, ("src", text) :: listed],
        ∃ word location,
          Statement.reader.run stop word = .ok (.component cell listed' location, []) ∧
          (({} : Draft).accept (.component cell listed' location)).value = .ok d' := by
  obtain ⟨cell, hcell⟩ : ∃ cell : Range, cell = ⟨⟨0, 0⟩, ⟨0, 0⟩, le_rfl, le_rfl⟩ := ⟨_, rfl⟩
  obtain ⟨text, htext⟩ : ∃ text : Token, text = ⟨.string, "Hi", .start⟩ := ⟨_, rfl⟩
  obtain ⟨listed, hlisted⟩ : ∃ listed : List (String × Token),
    listed = [("type", ⟨.identifier, "txt", .start⟩), ("value", text)] := ⟨_, rfl⟩
  have hrange : Range.read "A1".toList = .ok cell := by
    rw [hcell]
    exact Results.toOption_eq_some.mp (by decide +kernel)
  have hvalues : ∀ e ∈ listed, e.2.kind ∈ Statement.valueKinds := by
    rw [hlisted, htext]
    decide
  have hcomponent : (({} : Draft).component cell listed .start).value =
      .ok ⟨cell, none, none, none, .txt "Hi" .left⟩ := by
    rw [hlisted, htext, hcell]
    exact Results.toOption_eq_some.mp (by decide +kernel)
  obtain ⟨word, hword, hsays⟩ := Phrase.exists_says ⟨.cellRef, "A1", .start⟩ (by decide) hrange hvalues
  have hread := Statement.readsAs_of_says hword hsays ⟨.endOfInput, "", .start⟩ []
  obtain ⟨c, hc, -, hall⟩ := accept_restated hread (accept_component_eq_ok.mpr ⟨_, hcomponent, rfl⟩)
  obtain rfl : _ = c := List.singleton_inj.mp (congrArg Draft.components hc)
  have hreordered : Restates .txt listed listed.reverse := by
    refine .reordered listed.reverse_perm fun key => ?_
    rw [hlisted]
    by_cases htype : "type" = key
    · subst htype
      rfl
    · simp [List.filter_cons, htype]
  have hoverridden : Restates .txt ([] ++ listed) ([] ++ ("value", ⟨.number, "7", .start⟩) :: listed) := by
    refine .overridden (by decide) ?_
    rw [hlisted]
    exact List.mem_cons_of_mem _ List.mem_cons_self
  have hkind : text.kind ∈ Statement.valueKinds := by
    rw [htext]
    decide
  have hsrc : "src" ∉ relevant .txt := by decide
  have hforeign : Restates .txt ([] ++ listed) ([] ++ ("src", text) :: listed) :=
    .foreign hkind hsrc
  have hrestates : ∀ listed' ∈ [listed.reverse, ("value", ⟨.number, "7", .start⟩) :: listed,
      ("src", text) :: listed], Restates .txt listed listed' :=
    List.forall_mem_cons.mpr ⟨hreordered, List.forall_mem_cons.mpr
      ⟨hoverridden, List.forall_mem_singleton.mpr hforeign⟩⟩
  refine ⟨cell, ⟨.endOfInput, "", .start⟩, text, listed, _, by rw [htext], hlisted, rfl,
    fun listed' hlisted' => ?_⟩
  obtain ⟨⟨word', hword', location', hsays'⟩, hreads⟩ := hall listed' (hrestates listed' hlisted')
  obtain ⟨hread', haccept'⟩ := hreads word' hword' location' hsays'
  rw [List.append_nil] at hread'
  exact ⟨word', location', hread', haccept'⟩

end Draft
end Wireframe
