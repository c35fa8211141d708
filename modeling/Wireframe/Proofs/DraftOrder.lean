import Wireframe.Proofs.DraftColors
import Wireframe.Proofs.DraftRules
import Wireframe.Proofs.KeyedEntries
import Wireframe.Proofs.ReaderPlaces

/-! The order of components. A statement looks at the settings before it and at which components there are,
but not at their order, and it leaves them as they are (`accept_alike`). Two components that may follow each
other may also do so the other way round (`acceptAll_swap`), among other statements as well
(`exists_swapped`). -/

namespace Wireframe

namespace Keyed

open Reader

variable {l l' : List (String × Token)}

theorem ofEntries_alike (h : l.map entryShape = l'.map entryShape) :
    (ofEntries l).map entryShape = (ofEntries l').map entryShape := by
  have hmap := ofEntries_map Token.shape
  exact (hmap l).symm.trans ((congrArg ofEntries h).trans (hmap l'))

theorem erase_alike (key : String) (h : l.map entryShape = l'.map entryShape) :
    (erase key l).map entryShape = (erase key l').map entryShape := by
  have hmap := erase_map Token.shape key
  exact (hmap l).symm.trans ((congrArg (erase key) h).trans (hmap l'))

theorem lookup_alike (key : String) (h : l.map entryShape = l'.map entryShape) :
    (l.lookup key).map (·.value) = (l'.lookup key).map (·.value) := by
  have hmap (l : List (String × Token)) :
      (l.lookup key).map Token.shape = (l.map entryShape).lookup key := (lookup_map Token.shape l key).symm
  have hshapes := (hmap l).trans ((congrArg (List.lookup key) h).trans (hmap l').symm)
  have hvalues := congrArg (Option.map Prod.snd) hshapes
  rwa [Option.map_map, Option.map_map] at hvalues

end Keyed

namespace Draft

open Reader

/-- The draft with one more component. -/
def add (d : Draft) (c : Component) : Draft := { d with components := d.components ++ [c] }

/-- The drafts are the same apart from the order of the components and from positions. -/
structure Alike (d e : Draft) : Prop where
  settings : d.settings = e.settings
  components : d.components.Perm e.components

/-- The same components have been added to both drafts, and their settings are the same. -/
structure GrowAlike (d e d' e' : Draft) : Prop where
  settings : d'.settings = e'.settings
  components : ∃ more, d'.components = d.components ++ more ∧ e'.components = e.components ++ more

variable {d d' d'' e e' e'' : Draft} {range : Range} {l l' listed listed' : List (String × Token)}
  {location location' : Location} {c : Component} {s s' : Statement} {ss ss' : List Statement}

theorem growAlike_of_kept (hsettings : d'.settings = e'.settings) (hd : d'.components = d.components)
    (he : e'.components = e.components) : GrowAlike d e d' e' where
  settings := hsettings
  components := ⟨[], by rw [hd, List.append_nil], by rw [he, List.append_nil]⟩

theorem growAlike_set (hsettings : d.settings = e.settings) (f : Settings → Settings) :
    GrowAlike d e (d.set f) (e.set f) :=
  growAlike_of_kept (congrArg f hsettings) rfl rfl

theorem GrowAlike.alike (h : GrowAlike d e d' e') (hbefore : d.components.Perm e.components) :
    Alike d' e' where
  settings := h.settings
  components := by
    obtain ⟨more, hd, he⟩ := h.components
    rw [hd, he]
    exact hbefore.append_right more

theorem GrowAlike.trans (h : GrowAlike d e d' e') (hnext : GrowAlike d' e' d'' e'') :
    GrowAlike d e d'' e'' where
  settings := hnext.settings
  components := by
    obtain ⟨front, hd, he⟩ := h.components
    obtain ⟨back, hd', he'⟩ := hnext.components
    exact ⟨front ++ back, by rw [hd', hd, List.append_assoc], by rw [he', he, List.append_assoc]⟩

theorem chooseKind_congr (h : l.map entryShape = l'.map entryShape) : chooseKind l = chooseKind l' := by
  have hvalue := Keyed.lookup_alike "type" h
  rw [chooseKind, chooseKind]
  cases hl : l.lookup "type" <;> cases hl' : l'.lookup "type" <;> simp_all

theorem chooseAlign_congr (h : l.map entryShape = l'.map entryShape) : chooseAlign l = chooseAlign l' := by
  have hvalue := Keyed.lookup_alike "align" h
  rw [chooseAlign, chooseAlign]
  cases hl : l.lookup "align" <;> cases hl' : l'.lookup "align" <;> simp_all

theorem chooseColor_congr (hsettings : d.settings = e.settings) (key : String)
    (h : l.map entryShape = l'.map entryShape) : d.chooseColor key l = e.chooseColor key l' := by
  have hvalue := Keyed.lookup_alike key h
  rw [chooseColor, chooseColor, hsettings]
  cases hl : l.lookup key <;> cases hl' : l'.lookup key <;> simp_all

theorem checkBounds_congr (hsettings : d.settings = e.settings) :
    d.checkBounds range = e.checkBounds range := by
  rw [checkBounds, checkBounds, hsettings]

theorem collect_of_shapes {kind : Component.Kind} {p q : Component.Properties}
    (h : l.map entryShape = l'.map entryShape) (hcollect : (collect kind p l).value = .ok q) :
    (collect kind p l').value = .ok q := by
  induction l generalizing l' p with
  | nil =>
      rw [List.map_eq_nil_iff.mp (h.symm.trans List.map_nil)]
      exact hcollect
  | cons entry rest ih =>
      obtain ⟨key, t⟩ := entry
      obtain ⟨⟨key', t'⟩, rest', rfl, hentry, hrest⟩ := List.map_eq_cons_iff.mp h.symm
      obtain ⟨rfl, ht⟩ := Prod.mk.injEq .. ▸ hentry
      rw [collect] at hcollect ⊢
      split at hcollect
      · next hignored =>
        rw [if_pos hignored]
        exact ih hrest.symm hcollect
      · next hmeant =>
        rw [if_neg hmeant]
        split at hcollect
        · next hpadding =>
          rw [if_pos hpadding]
          split at hcollect
          · next hnumber =>
            rw [if_pos ((kind_eq_of_shape ht).trans hnumber), Statement.decimal_congr ht]
            exact ih hrest.symm hcollect
          · cases hcollect
        · next hpadding =>
          rw [if_neg hpadding, value_eq_of_shape ht]
          exact ih hrest.symm hcollect

/-- A component is the same on every draft with the same settings where its range is free. -/
theorem component_of_free (hsettings : d.settings = e.settings) (hfree : e.checkOverlap range = .ok ())
    (h : listed.map entryShape = listed'.map entryShape)
    (hc : (d.component range listed location).value = .ok c) :
    (e.component range listed' location').value = .ok c := by
  have hentries := Keyed.ofEntries_alike h
  obtain ⟨choice, p, hchoose, hcollect, hmake⟩ := component_eq_ok.mp hc
  obtain ⟨hkind, halign, -, hbounds, hbg, hborder⟩ := choose_eq_ok.mp hchoose
  refine component_eq_ok.mpr ⟨choice, p, choose_eq_ok.mpr ?_, ?_, hmake⟩
  · rw [chooseKind_congr hentries] at hkind
    rw [chooseAlign_congr hentries] at halign
    rw [checkBounds_congr hsettings] at hbounds
    rw [chooseColor_congr hsettings _ hentries] at hbg hborder
    exact ⟨hkind, halign, hfree, hbounds, hbg, hborder⟩
  · exact collect_of_shapes (Keyed.erase_alike "type" hentries) hcollect

theorem accept_component_eq_ok : (d.accept (.component range listed location)).value = .ok d' ↔
    ∃ c, (d.component range listed location).value = .ok c ∧ d.add c = d' := Results.map_eq_ok

theorem checkOverlap_of_component (hc : (d.component range listed location).value = .ok c) :
    d.checkOverlap range = .ok () := by
  obtain ⟨choice, p, hchoose, -, -⟩ := component_eq_ok.mp hc
  obtain ⟨-, -, hoverlap, -, -, -⟩ := choose_eq_ok.mp hchoose
  exact hoverlap

theorem accept_component_alike (h : Alike d e) (hshapes : listed.map entryShape = listed'.map entryShape)
    (hd : (d.accept (.component range listed location)).value = .ok d') :
    ∃ e', (e.accept (.component range listed' location')).value = .ok e' ∧ GrowAlike d e d' e' := by
  obtain ⟨c, hc, rfl⟩ := accept_component_eq_ok.mp hd
  have hfree : e.checkOverlap range = .ok () := checkOverlap_eq_ok.mpr fun a ha =>
    checkOverlap_eq_ok.mp (checkOverlap_of_component hc) a (h.components.mem_iff.mpr ha)
  refine ⟨e.add c, accept_component_eq_ok.mpr ⟨c, ?_, rfl⟩, h.settings, [c], rfl, rfl⟩
  exact component_of_free h.settings hfree hshapes hc

theorem accept_grid_alike {cols rows : Nat} (h : Alike d e)
    (hd : (d.accept (.grid cols rows location)).value = .ok d') :
    ∃ e', (e.accept (.grid cols rows location')).value = .ok e' ∧ GrowAlike d e d' e' := by
  simp only [accept, Noted.value_pure] at hd ⊢
  split at hd
  · next hnone =>
    cases hd
    have hnone' : e.excluded? cols rows = none := excluded?_eq_none_iff.mpr fun a ha =>
      excluded?_eq_none_iff.mp hnone a (h.components.mem_iff.mpr ha)
    rw [hnone']
    exact ⟨_, rfl, growAlike_set h.settings _⟩
  · cases hd

theorem accept_weights_alike {axis : Axis} {values : List Float} (h : Alike d e)
    (hd : (d.accept (.weights axis values location)).value = .ok d') :
    ∃ e', (e.accept (.weights axis values location')).value = .ok e' ∧ GrowAlike d e d' e' := by
  cases hd
  refine ⟨_, rfl, ?_⟩
  cases axis with
  | columns =>
      exact growAlike_of_kept (congrArg (fun s => { s with colWidths := some values }) h.settings) rfl rfl
  | rows =>
      exact growAlike_of_kept (congrArg (fun s => { s with rowHeights := some values }) h.settings) rfl rfl

/-- A statement does the same to drafts that are the same apart from the order of their components. -/
theorem accept_alike (h : Alike d e) (hs : Statement.Alike s s') (hd : (d.accept s).value = .ok d') :
    ∃ e', (e.accept s').value = .ok e' ∧ GrowAlike d e d' e' := by
  cases hs with
  | same =>
      cases s with
      | component => exact accept_component_alike h rfl hd
      | grid => exact accept_grid_alike h hd
      | weights => exact accept_weights_alike h hd
      | ratio | gap | padding | colors | theme =>
          cases hd
          exact ⟨_, rfl, growAlike_set h.settings _⟩
  | grid => exact accept_grid_alike h hd
  | weights => exact accept_weights_alike h hd
  | component hshapes => exact accept_component_alike h hshapes hd

/-- The draft after the statements. -/
def acceptAll (d : Draft) (ss : List Statement) : Except Failure Draft :=
  ss.foldlM (fun d s => (d.accept s).value) d

theorem acceptAll_cons_eq_ok :
    d.acceptAll (s :: ss) = .ok d' ↔ ∃ next, (d.accept s).value = .ok next ∧ next.acceptAll ss = .ok d' := by
  rw [acceptAll, List.foldlM_cons]
  exact Results.bind_eq_ok

theorem acceptAll_append_eq_ok :
    d.acceptAll (ss ++ ss') = .ok d' ↔ ∃ next, d.acceptAll ss = .ok next ∧ next.acceptAll ss' = .ok d' := by
  rw [acceptAll, List.foldlM_append]
  exact Results.bind_eq_ok

/-- Statements one after another do the same to drafts that are the same apart from the order of their
components. -/
theorem acceptAll_alike (h : Alike d e) (hss : List.Forall₂ Statement.Alike ss ss')
    (hd : d.acceptAll ss = .ok d') : ∃ e', e.acceptAll ss' = .ok e' ∧ GrowAlike d e d' e' := by
  induction hss generalizing d e with
  | nil =>
      cases hd
      exact ⟨e, rfl, growAlike_of_kept h.settings rfl rfl⟩
  | cons hs _ ih =>
      obtain ⟨next, haccept, hrest⟩ := acceptAll_cons_eq_ok.mp hd
      obtain ⟨next', haccept', hnext⟩ := accept_alike h hs haccept
      obtain ⟨e', hrest', hgrow⟩ := ih (hnext.alike h.components) hrest
      exact ⟨e', acceptAll_cons_eq_ok.mpr ⟨next', haccept', hrest'⟩, hnext.trans hgrow⟩

/-- Two components that may follow each other may do so the other way round. -/
theorem acceptAll_swap {first second : Range} {entries others : List (String × Token)}
    (hd : d.acceptAll [.component first entries location, .component second others location'] = .ok d') :
    ∃ a b, a.range = first ∧ b.range = second ∧ (d.add a).add b = d' ∧
      d.acceptAll [.component second others location', .component first entries location] =
        .ok ((d.add b).add a) := by
  obtain ⟨_, hnext, hlast⟩ := acceptAll_cons_eq_ok.mp hd
  obtain ⟨_, hd', hpure⟩ := acceptAll_cons_eq_ok.mp hlast
  cases hpure
  obtain ⟨a, ha, rfl⟩ := accept_component_eq_ok.mp hnext
  obtain ⟨b, hb, rfl⟩ := accept_component_eq_ok.mp hd'
  have harange := (colored_component ha).range
  have hbrange := (colored_component hb).range
  have hfree := checkOverlap_eq_ok.mp (checkOverlap_of_component ha)
  obtain ⟨hfree', hnew⟩ := List.forall_mem_append.mp (checkOverlap_eq_ok.mp (checkOverlap_of_component hb))
  -- the second component has been set against the first one, and overlapping is symmetric
  have hapart : ∀ c ∈ b.range.cells, c ∉ first.cells := fun c hcb hca =>
    hnew a (List.mem_singleton_self a) c (harange ▸ hca) (hbrange ▸ hcb)
  have hb' : (d.component second others location').value = .ok b :=
    component_of_free (d := d.add a) rfl (checkOverlap_eq_ok.mpr hfree') rfl hb
  have ha' : ((d.add b).component first entries location).value = .ok a := by
    refine component_of_free (d := d) rfl (checkOverlap_eq_ok.mpr ?_) rfl ha
    exact List.forall_mem_append.mpr ⟨hfree, List.forall_mem_singleton.mpr hapart⟩
  refine ⟨a, b, harange, hbrange, rfl, ?_⟩
  refine acceptAll_cons_eq_ok.mpr ⟨d.add b, accept_component_eq_ok.mpr ⟨b, hb', rfl⟩, ?_⟩
  exact acceptAll_cons_eq_ok.mpr ⟨(d.add b).add a, accept_component_eq_ok.mpr ⟨a, ha', rfl⟩, rfl⟩

/-- Swapping two components in a row among statements swaps the two in the draft and changes nothing else. -/
theorem exists_swapped {first second : Range} {entries others : List (String × Token)}
    (hd : d.acceptAll (ss ++ ([.component first entries location, .component second others location'] ++ ss')) =
      .ok d') :
    ∃ e' front a b back,
      d.acceptAll (ss ++ ([.component second others location', .component first entries location] ++ ss')) =
        .ok e' ∧
      d'.settings = e'.settings ∧ a.range = first ∧ b.range = second ∧
      d'.components = front ++ a :: b :: back ∧ e'.components = front ++ b :: a :: back := by
  obtain ⟨before, hbefore, hrest⟩ := acceptAll_append_eq_ok.mp hd
  obtain ⟨_, htwo, hafter⟩ := acceptAll_append_eq_ok.mp hrest
  obtain ⟨a, b, ha, hb, rfl, hswapped⟩ := acceptAll_swap htwo
  have halike : Alike ((before.add a).add b) ((before.add b).add a) := by
    refine ⟨rfl, ?_⟩
    show (before.components ++ [a] ++ [b]).Perm (before.components ++ [b] ++ [a])
    rw [List.append_assoc, List.append_assoc]
    exact (List.Perm.swap b a []).append_left _
  have hsame : List.Forall₂ Statement.Alike ss' ss' := List.forall₂_same.mpr fun s _ => .same s
  obtain ⟨e', hlast, hsettings, back, hback, hback'⟩ := acceptAll_alike halike hsame hafter
  refine ⟨e', before.components, a, b, back, ?_, hsettings, ha, hb, ?_, ?_⟩
  · exact acceptAll_append_eq_ok.mpr ⟨before, hbefore, acceptAll_append_eq_ok.mpr ⟨_, hswapped, hlast⟩⟩
  · rw [hback]
    simp only [add, List.append_assoc, List.cons_append, List.nil_append]
  · rw [hback']
    simp only [add, List.append_assoc, List.cons_append, List.nil_append]

/-- The end of a document looks at the settings only. -/
theorem finish_congr {doc : Document} (hsettings : d.settings = e.settings) (h : d.finish = .ok doc) :
    e.finish = .ok ⟨doc.settings, e.components⟩ := by
  obtain ⟨hcols, hrows, herrors, rfl⟩ := finish_eq_ok.mp h
  rw [checkCount_eq_ok, hsettings] at hcols hrows
  exact finish_eq_ok.mpr ⟨checkCount_eq_ok.mpr hcols, checkCount_eq_ok.mpr hrows, hsettings ▸ herrors,
    by rw [hsettings]⟩

end Draft
end Wireframe
