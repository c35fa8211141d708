import Wireframe.Proofs.DraftRun
import Wireframe.Proofs.SettingsRules
import Wireframe.Proofs.StatementRules

/-! Drafts keep the rules of documents. Whatever a run has collected passes the checks that settings,
ranges and components are made with, so a text is either read as a document or refused by a report at a
position (`Document.read_reported`). -/

namespace Wireframe

namespace Violation

variable {r : Range} {grid : Int × Int} {v : Violation}

theorem isWritable_of_inGridLimits {n : Int} (h : Settings.inGridLimits n = true) :
    Numeral.isWritable n = true := by
  obtain ⟨hmin, hmax⟩ := Settings.inGridLimits_iff.mp h
  obtain ⟨k, rfl⟩ := Int.eq_ofNat_of_zero_le (show 0 ≤ n by omega)
  have hdigits : 10 ^ 2 ≤ 10 ^ Numeral.maxDigits := Nat.pow_le_pow_right (by decide) (by decide)
  exact Numeral.isWritable_iff.mpr (Nat.lt_of_lt_of_le (by omega) hdigits)

/-- A grid within the limits has a column to name, and its rows can be written. -/
theorem exists_message? (h : of? r grid = some v) (hr : r.isWritable = true)
    (hcols : Settings.inGridLimits grid.1 = true) (hrows : Settings.inGridLimits grid.2 = true) :
    ∃ text, v.message? = .ok text := by
  rw [of?] at h
  split at h
  · cases h
    obtain ⟨hmin, -⟩ := Settings.inGridLimits_iff.mp hcols
    have hletters : Column.lettersOfInt? (grid.1 - 1) = .ok (Column.letters (grid.1 - 1).toNat) :=
      if_pos (by omega)
    exact ⟨_, by rw [message?, hletters]; rfl⟩
  split at h
  · cases h
    have hlast : Numeral.isWritable (r.last.row + 1) = true := hr
    exact ⟨_, by rw [message?, hlast, isWritable_of_inGridLimits hrows]; rfl⟩
  · cases h

end Violation

/-- The values that a component takes from its properties are there and keep their rules. -/
structure Component.Properties.IsSound (p : Component.Properties) : Prop where
  padding : ∀ x, p.padding = some x → Component.notNegative x = true
  value : p.value.isSome = true
  label : p.label.isSome = true
  align : (Align.ofName? p.align).isSome = true

namespace Draft

/-- The settings keep their rules, and the ranges of the components can be written. -/
structure IsSound (d : Draft) : Prop where
  settings : d.settings.IsSound
  ranges : ∀ c ∈ d.components, c.range.isWritable = true

variable {d : Draft} {range : Range} {entries : List (String × Token)} {fault : SemanticFault}

theorem isSayable_of_chooseKind (h : chooseKind entries = .error fault) : fault.IsSayable := by
  rw [chooseKind] at h
  split at h
  · cases h
    trivial
  split at h
  · cases h
  · cases h
    trivial

theorem isSayable_of_chooseAlign (h : chooseAlign entries = .error fault) : fault.IsSayable := by
  rw [chooseAlign] at h
  split at h
  · cases h
  split at h
  · cases h
  · cases h
    trivial

theorem isSayable_of_chooseColor {key : String} (h : d.chooseColor key entries = .error fault) :
    fault.IsSayable := by
  rw [chooseColor] at h
  split at h
  · cases h
  split at h
  · cases h
  · cases h
    trivial

theorem isSayable_of_checkOverlap (hd : d.IsSound) (hrange : range.isWritable = true)
    (h : d.checkOverlap range = .error fault) : fault.IsSayable := by
  rw [checkOverlap] at h
  split at h
  · cases h
  · next other hother =>
    cases h
    obtain ⟨c, hc, rfl⟩ := List.mem_map.mp (List.mem_of_find?_eq_some hother)
    exact ⟨hrange, hd.ranges c hc⟩

theorem isSayable_of_checkBounds (hd : d.IsSound) (hrange : range.isWritable = true)
    (h : d.checkBounds range = .error fault) : fault.IsSayable := by
  rw [checkBounds] at h
  split at h
  · cases h
  · next violation hviolation =>
    cases h
    obtain ⟨hcols, hrows⟩ := hd.settings.grid_inLimits
    exact Violation.exists_message? hviolation hrange hcols hrows

theorem isSayable_of_choose (hd : d.IsSound) (hrange : range.isWritable = true)
    (h : d.choose range entries = .error fault) : fault.IsSayable := by
  simp only [choose, Results.bind_eq_error] at h
  rcases h with h | ⟨_, _, h⟩
  · exact isSayable_of_chooseKind h
  rcases h with h | ⟨_, _, h⟩
  · exact isSayable_of_chooseAlign h
  rcases h with h | ⟨_, _, h⟩
  · exact isSayable_of_checkOverlap hd hrange h
  rcases h with h | ⟨_, _, h⟩
  · exact isSayable_of_checkBounds hd hrange h
  rcases h with h | ⟨_, _, h⟩
  · exact isSayable_of_chooseColor h
  rcases h with h | ⟨_, _, h⟩
  · exact isSayable_of_chooseColor h
  · cases h

theorem isSound_start (choice : Choice) : (start choice).IsSound where
  padding x hx := by cases hx
  value := rfl
  label := rfl
  align := by
    show (Align.ofName? choice.align.name).isSome = true
    cases choice.align <;> rfl

theorem isSound_withText {p : Component.Properties} (h : p.IsSound) (key text : String) :
    (withText p key text).IsSound := by
  rw [withText]
  split
  · exact ⟨h.padding, rfl, h.label, h.align⟩
  split
  · exact ⟨h.padding, h.value, rfl, h.align⟩
  split
  · exact ⟨h.padding, h.value, h.label, h.align⟩
  split
  · exact ⟨h.padding, h.value, h.label, h.align⟩
  · exact h

theorem reported_collect (kind : Component.Kind) (entries : List (String × Token))
    {p : Component.Properties} (h : p.IsSound) :
    Reported Component.Properties.IsSound (collect kind p entries).value := by
  induction entries generalizing p with
  | nil => exact h
  | cons e rest ih =>
      obtain ⟨key, t⟩ := e
      rw [collect]
      split
      · exact ih h
      split
      · split
        · refine ih ⟨?_, h.value, h.label, h.align⟩
          intro x hx
          cases hx
          exact Decimal.notNegative_read _
        · trivial
      · exact ih (isSound_withText h key t.value)

/-- The component of a statement is made, or what is wrong with the statement is reported. -/
theorem reported_component {listed : List (String × Token)} {location : Location} (hd : d.IsSound)
    (hrange : range.isWritable = true) :
    Reported (fun c => c.range = range) (d.component range listed location).value := by
  rw [component]
  cases hchoose : d.choose range (Keyed.ofEntries listed) with
  | error fault => exact isSayable_of_choose hd hrange hchoose
  | ok choice =>
      simp only [Noted.value_bind, Noted.value_pure]
      refine (reported_collect choice.kind _ (isSound_start choice)).bind fun p hp => ?_
      obtain ⟨c, hc⟩ := Component.exists_ofProperties choice.kind range hp.padding hp.value
        hp.label hp.align
      rw [hc]
      exact Component.range_ofProperties hc

theorem isSayable_of_excluded? {cols rows : Nat} (hd : d.IsSound)
    (hcols : Settings.inGridLimits cols = true) (hrows : Settings.inGridLimits rows = true)
    (h : d.excluded? cols rows = some fault) : fault.IsSayable := by
  obtain ⟨c, hc, hfault⟩ := List.exists_of_findSome?_eq_some h
  obtain ⟨violation, hviolation, rfl⟩ := Option.map_eq_some_iff.mp hfault
  exact ⟨hd.ranges c hc, Violation.exists_message? hviolation (hd.ranges c hc) hcols hrows⟩

/-- Accepting a statement that is right by itself keeps the rules, or is refused by a report. -/
theorem reported_accept {s : Statement} (hd : d.IsSound) (hs : s.IsSound) :
    Reported IsSound (d.accept s).value := by
  obtain ⟨hsettings, hranges⟩ := hd
  cases s with
  | ratio width height =>
      have hterms : 0 < (width : Int) ∧ 0 < (height : Int) :=
        ⟨Int.natCast_pos.mpr hs.1, Int.natCast_pos.mpr hs.2⟩
      exact ⟨{ hsettings with ratio_pos := hterms }, hranges⟩
  | grid cols rows location =>
      simp only [accept, Noted.value_pure]
      split
      · exact ⟨{ hsettings with grid_inLimits := hs }, hranges⟩
      · next fault hfault => exact isSayable_of_excluded? ⟨hsettings, hranges⟩ hs.1 hs.2 hfault
  | gap pixels => exact ⟨{ hsettings with gap_notNegative := hs }, hranges⟩
  | padding pixels =>
      refine ⟨{ hsettings with padding_notNegative := fun x hx => ?_ }, hranges⟩
      cases hx
      exact hs
  | colors entries => exact ⟨{ hsettings with }, hranges⟩
  | theme name => exact ⟨{ hsettings with theme_known := hs }, hranges⟩
  | weights axis values location =>
      cases axis with
      | columns =>
          refine ⟨{ hsettings with weights_positive := fun other ws hws => ?_ }, hranges⟩
          cases other with
          | columns =>
              cases hws
              exact hs
          | rows => exact hsettings.weights_positive .rows ws hws
      | rows =>
          refine ⟨{ hsettings with weights_positive := fun other ws hws => ?_ }, hranges⟩
          cases other with
          | columns => exact hsettings.weights_positive .columns ws hws
          | rows =>
              cases hws
              exact hs
  | component range listed location =>
      refine (reported_component ⟨hsettings, hranges⟩ hs).map fun c hc => ⟨hsettings, ?_⟩
      refine List.forall_mem_append.mpr ⟨hranges, List.forall_mem_singleton.mpr ?_⟩
      rw [hc]
      exact hs

/-- Where the weights of an axis were given last. -/
def weightsAt (d : Draft) : Axis → Location
  | .columns => d.colWidthsAt
  | .rows => d.rowHeightsAt

theorem accept_weights {d' : Draft} {s : Statement} (h : (d.accept s).value = .ok d') :
    (∃ axis values location, s = .weights axis values location ∧
      d' = d.withWeights values location axis) ∨
    ∀ axis, d'.settings.weights axis = d.settings.weights axis ∧ d'.weightsAt axis = d.weightsAt axis := by
  cases s with
  | weights axis values location =>
      cases h
      exact Or.inl ⟨axis, values, location, rfl, rfl⟩
  | component range listed location =>
      obtain ⟨c, -, rfl⟩ := Results.map_eq_ok.mp h
      exact Or.inr fun axis => by cases axis <;> exact ⟨rfl, rfl⟩
  | grid cols rows location =>
      simp only [accept, Noted.value_pure] at h
      split at h
      · cases h
        exact Or.inr fun axis => by cases axis <;> exact ⟨rfl, rfl⟩
      · cases h
  | ratio | gap | padding | colors | theme =>
      cases h
      exact Or.inr fun axis => by cases axis <;> exact ⟨rfl, rfl⟩

variable {stop : Token} {ts left : List Token} {accepted : List Statement}

theorem reported_next (stop : Token) (hleft : ∀ t ∈ left, Statement.Readable t) :
    Reported (Reader.Leaves Statement.Readable Statement.IsSound)
      (Statement.reader.run stop (Reader.skipNewlines left)) :=
  Statement.meets_reader.afterNewlines stop left hleft

theorem Reaches.readable (h : Reaches stop ts accepted d left)
    (hts : ∀ t ∈ ts, Statement.Readable t) : ∀ t ∈ left, Statement.Readable t := by
  induction h with
  | start => exact hts
  | @next accepted d d' left rest s _ _ hrun _ ih =>
      obtain ⟨-, hrest⟩ := (reported_next stop ih).of_eq_ok hrun
      exact hrest

theorem Reaches.isSound (h : Reaches stop ts accepted d left)
    (hts : ∀ t ∈ ts, Statement.Readable t) : d.IsSound := by
  induction h with
  | start => exact ⟨Settings.isSound_default, fun _ hc => absurd hc List.not_mem_nil⟩
  | @next accepted d d' left rest s hbefore _ hrun haccept ih =>
      obtain ⟨hs, -⟩ := (reported_next stop (hbefore.readable hts)).of_eq_ok hrun
      exact (reported_accept ih hs).of_eq_ok haccept

/-- Weights are those of a statement of the run, and their position is that of the statement. -/
theorem Reaches.weights_mem (h : Reaches stop ts accepted d left) {axis : Axis} {ws : List Float}
    (hws : d.settings.weights axis = some ws) :
    Statement.weights axis ws (d.weightsAt axis) ∈ accepted := by
  induction h with
  | start => cases axis <;> cases hws
  | next _ _ _ haccept ih =>
      rcases accept_weights haccept with ⟨other, values, location, rfl, rfl⟩ | hsame
      · cases other <;> cases axis
        · cases hws
          exact List.mem_append_right _ (List.mem_singleton.mpr rfl)
        · exact List.mem_append_left _ (ih hws)
        · exact List.mem_append_left _ (ih hws)
        · cases hws
          exact List.mem_append_right _ (List.mem_singleton.mpr rfl)
      · obtain ⟨hweights, hat⟩ := hsame axis
        rw [hweights] at hws
        rw [hat]
        exact List.mem_append_left _ (ih hws)

/-- What has been collected passes the rules that documents are made with. -/
structure Passes (accepted : List Statement) (d : Draft) : Prop where
  fields : d.settings.fieldErrors = []
  /-- The count of the weights is checked at the end; then no rule is left that could be broken. -/
  counts : (∀ axis, d.checkCount axis (d.weightsAt axis) = .ok ()) → d.settings.errors = []
  located : ∀ axis ws, d.settings.weights axis = some ws →
    Statement.weights axis ws (d.weightsAt axis) ∈ accepted
  components : ∀ range listed choice p, d.choose range (Keyed.ofEntries listed) = .ok choice →
    (collect choice.kind (start choice) (Keyed.erase "type" (Keyed.ofEntries listed))).value = .ok p →
    ∃ c, Component.ofProperties choice.kind range p = .ok c

theorem checkCount_eq_ok {axis : Axis} {location : Location} :
    d.checkCount axis location = .ok () ↔ d.settings.miscounted axis = none := by
  rw [checkCount]
  split <;> simp_all

theorem Reaches.passes (h : Reaches stop ts accepted d left)
    (hts : ∀ t ∈ ts, Statement.Readable t) : d.Passes accepted where
  fields := Settings.fieldErrors_eq_nil_iff.mpr (h.isSound hts).settings
  counts hcounts := Settings.errors_eq_nil_iff.mpr
    ⟨(h.isSound hts).settings, fun axis => checkCount_eq_ok.mp (hcounts axis)⟩
  located axis ws := h.weights_mem
  components range listed choice p _ hcollect := by
    have hp := (reported_collect choice.kind (Keyed.erase "type" (Keyed.ofEntries listed))
      (isSound_start choice)).of_eq_ok hcollect
    exact Component.exists_ofProperties choice.kind range hp.padding hp.value hp.label hp.align

/-- At the end of a run what has been collected makes a document, unless weights are miscounted. -/
theorem reported_finish (hd : d.IsSound) :
    Reported (fun doc => doc.settings.errors = []) d.finish := by
  have hcheck (axis : Axis) (location : Location) :
      Reported (fun _ => d.settings.miscounted axis = none) (d.checkCount axis location) := by
    rw [checkCount]
    split
    · assumption
    · trivial
  rw [finish]
  refine (hcheck .columns _).bind fun _ hcols => (hcheck .rows _).bind fun _ hrows => ?_
  have hcounts : ∀ axis, d.settings.miscounted axis = none := by
    intro axis
    cases axis with
    | columns => exact hcols
    | rows => exact hrows
  have herrors := Settings.errors_eq_nil_iff.mpr ⟨hd.settings, hcounts⟩
  rw [if_pos herrors]
  exact herrors

/-- A run over readable tokens ends in a draft that keeps the rules, or in a report. -/
theorem reported_extend (hts : ∀ t ∈ ts, Statement.Readable t) :
    Reported IsSound (extend {} stop ts).value := by
  have hends := ends_run stop ts
  cases hrun : (extend {} stop ts).value with
  | ok d =>
      rw [hrun] at hends
      obtain ⟨accepted, left, hreaches, -⟩ := hends
      exact hreaches.isSound hts
  | error e =>
      rw [hrun] at hends
      obtain ⟨accepted, d, left, hreaches, hfails⟩ := hends
      have hread := reported_next stop (hreaches.readable hts)
      rcases hfails with hunread | ⟨s, rest, hnext, haccept⟩ | rfl
      · exact hread.of_eq_error hunread
      · obtain ⟨hs, -⟩ := hread.of_eq_ok hnext
        exact (reported_accept (hreaches.isSound hts) hs).of_eq_error haccept
      · exact Reader.missing_isReported "end of line" stop left

end Draft

theorem Color.exists_resolve {palette : Palette} {value : String}
    (h : unresolved? palette (some value) = none) : ∃ color, resolve palette value = .ok color := by
  simp only [unresolved?, Option.bind_some] at h
  rw [resolve]
  cases hname : reference? value with
  | none => exact ⟨value, rfl⟩
  | some name =>
      simp only [hname] at h ⊢
      cases hcolor : palette.lookup name with
      | none => simp [hcolor] at h
      | some color => exact ⟨color, rfl⟩

namespace Document

variable {source : String}

theorem reported_read (hruns : Numeral.RunsFit source.toList) :
    Reported (fun doc => doc.settings.errors = []) (read source).value := by
  rw [read]
  cases htokens : Tokens.read source with
  | error fault => trivial
  | ok ts =>
      simp only [value_ofTokens]
      have hts : ∀ t ∈ ts.list, Statement.Readable t :=
        fun t ht => Tokens.isReadable_of_read htokens hruns ht
      exact (Draft.reported_extend hts).bind fun d hd => Draft.reported_finish hd

/-- A text without overlong rows of digits is read as a document that keeps its rules, or refused by a
report at a position. All that is collected on the way passes the rules that it is checked with again:
those of settings and components, those of cells, and the look-up of colors. -/
theorem read_reported (source : String) (hruns : Numeral.RunsFit source.toList) :
    (match (read source).value with
      | .ok doc => doc.settings.errors = []
      | .error e => e.IsReported ∧ ∃ r, e.report? = some r) ∧
    (∀ ts, Tokens.read source = .ok ts → ∀ accepted d left,
      Draft.Reaches ts.last ts.list accepted d left → d.Passes accepted) ∧
    (∀ cs c, Coord.read cs = .ok c → Coord.ofInts? ((Column.rank (Coord.letters cs) : Int) - 1)
      ((Numeral.value (Coord.digits cs) : Int) - 1) = .ok c) ∧
    ∀ palette value, Color.unresolved? palette (some value) = none →
      ∃ color, Color.resolve palette value = .ok color := by
  refine ⟨?_, ?_, fun _ _ => Coord.ofInts?_of_read, fun _ _ => Color.exists_resolve⟩
  · have hreported := reported_read hruns
    cases hread : (read source).value with
    | ok doc => exact hreported.of_eq_ok hread
    | error e =>
        have he := hreported.of_eq_error hread
        exact ⟨he, he.exists_report⟩
  · intro ts htokens accepted d left hreaches
    exact hreaches.passes fun t ht => Tokens.isReadable_of_read htokens hruns ht

theorem read_reported_of_weights :
    ∃ source doc ts accepted d left, source = "gap: 0.5\ncol-widths: [1, 2, 0.5, 4]" ∧
      (read source).value = .ok doc ∧ doc.settings.errors = [] ∧
      Tokens.read source = .ok ts ∧ Draft.Reaches ts.last ts.list accepted d left ∧
      d.settings.colWidths.isSome = true ∧ d.Passes accepted := by
  obtain ⟨source, hsource⟩ : ∃ source, source = "gap: 0.5\ncol-widths: [1, 2, 0.5, 4]" := ⟨_, rfl⟩
  have hparts : ((read source).value.toOption.bind (·.settings.colWidths)).isSome = true := by
    rw [hsource]
    decide +kernel
  have hlength : source.toList.length ≤ Numeral.maxDigits := by
    rw [hsource]
    decide +kernel
  obtain ⟨widths, hwidths⟩ := Option.isSome_iff_exists.mp hparts
  obtain ⟨doc, hdoc, hcols⟩ := Option.bind_eq_some_iff.mp hwidths
  have hread := Results.toOption_eq_some.mp hdoc
  obtain ⟨ts, accepted, d, left, htokens, hreaches, hfinish⟩ := reaches_of_read_eq_ok hread
  obtain ⟨-, -, -, rfl⟩ := Draft.finish_eq_ok.mp hfinish
  obtain ⟨houtcome, hpasses, -, -⟩ := read_reported source (Numeral.runsFit_of_length_le hlength)
  rw [hread] at houtcome
  exact ⟨source, _, ts, accepted, d, left, hsource, hread, houtcome, htokens, hreaches,
    Option.isSome_iff_exists.mpr ⟨widths, hcols⟩, hpasses ts htokens accepted d left hreaches⟩

end Document
end Wireframe
