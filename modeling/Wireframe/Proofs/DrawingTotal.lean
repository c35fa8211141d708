import Wireframe.Compile
import Wireframe.Proofs.DraftLayout
import Wireframe.Proofs.FitLoop
import Wireframe.Proofs.LayoutTotal

/-! Drawings of documents. What a text has been read as keeps the rules that a layout asks for, so each
part of its drawing can be had (`Document.exists_parts`), whatever images are found on the way. A text
is compiled unless it is no document (`Document.compile_total`). -/

namespace Wireframe

namespace Draft

variable {d d' : Draft} {stop : Token} {ts left : List Token} {accepted : List Statement}

theorem change_gap (s : Statement) (before : Settings) :
    (s.change before).gap = before.gap ∨ ∃ x, (s.change before).gap = .real x := by
  cases s with
  | gap pixels => exact Or.inr ⟨pixels, rfl⟩
  | weights axis => cases axis <;> exact Or.inl rfl
  | _ => exact Or.inl rfl

/-- A gap is the one of a document that names none, or a binary64 number. -/
theorem Reaches.gap_eq (h : Reaches stop ts accepted d left) :
    d.settings.gap = .whole 0 ∨ ∃ x, d.settings.gap = .real x := by
  induction h with
  | start => exact Or.inl rfl
  | @next accepted d d' left rest s _ _ _ haccept ih =>
      rw [accept_settings haccept]
      rcases change_gap s d.settings with hsame | hreal
      · rw [hsame]
        exact ih
      · exact Or.inr hreal

end Draft

namespace Svg

/-- A text has a baseline for each of its lines, and a line at least. -/
def Lettering.IsSet (l : Lettering) : Prop := l.lines.length = (l.top :: l.others).length

def Shape.IsSet : Shape → Prop
  | lettering l => l.IsSet
  | _ => True

def Fragment.shapes : Fragment → List Shape
  | shape s => [s]
  | group parts => parts

end Svg

namespace Drawing

open Svg

variable {name : Option String} {theme : Theme} {r : Rect Float}

theorem isSet_text? (h : Theme.named? name = .ok theme) {value : String} {align : Align}
    {fill : String} : ∀ s ∈ text? value r theme align fill, s.IsSet := by
  intro s hs
  rw [text?] at hs
  split at hs
  · cases hs
  · cases hs
    -- the first baseline is always there, so it takes a line to go with it
    have hlines := List.length_pos_iff.mpr (Typeset.fit_ne_nil h r.width r.height r.padding value.toList)
    show (List.map _ _).length = (_ :: List.map _ _).length
    simp only [Block.fit, List.length_cons, List.length_map, List.length_range']
    omega

theorem isSet_label? {label : String} : ∀ s ∈ label? label r theme, s.IsSet := by
  intro s hs
  rw [label?] at hs
  split at hs
  · cases hs
  · cases hs
    rfl

theorem isSet_shape {fill : String} {stroke : Option String} : (shape r theme fill stroke).IsSet :=
  trivial

/-- A shape with a text on it. -/
theorem isSet_group {back : Shape} {label : Option Shape} (hback : back.IsSet)
    (hlabel : ∀ s ∈ label, s.IsSet) : ∀ s ∈ (Fragment.group (back :: label.toList)).shapes, s.IsSet := by
  refine List.forall_mem_cons.mpr ⟨hback, fun s hs => hlabel s ?_⟩
  exact Option.mem_toList.mp hs

theorem isSet_txt? (h : Theme.named? name = .ok theme) (c : Component) (value : String) (align : Align) :
    ∀ f ∈ txt? c value align r theme, ∀ s ∈ f.shapes, s.IsSet := by
  intro f hf
  have hlabel : ∀ s ∈ text? value r theme align ink, s.IsSet := isSet_text? h
  rw [txt?] at hf
  split at hf
  · next back label hback htext =>
    cases hf
    rw [htext] at hlabel
    split at hback
    · cases hback
      exact List.forall_mem_cons.mpr ⟨isSet_shape, List.forall_mem_singleton.mpr (hlabel label rfl)⟩
    · cases hback
  · next back hback htext =>
    cases hf
    split at hback
    · cases hback
      exact List.forall_mem_singleton.mpr isSet_shape
    · cases hback
  · next label hback htext =>
    obtain ⟨s, hs, rfl⟩ := Option.map_eq_some_iff.mp hf
    exact List.forall_mem_singleton.mpr (hlabel s hs)

theorem isSet_input (c : Component) (label : String) :
    ∀ s ∈ (input c label r theme).shapes, s.IsSet := by
  refine List.forall_mem_append.mpr ⟨fun s hs => isSet_label? s (Option.mem_toList.mp hs), ?_⟩
  exact List.forall_mem_singleton.mpr trivial

theorem isSet_placeholder (h : Theme.named? name = .ok theme) (c : Component) (src alt : Option String) :
    ∀ s ∈ (placeholder c src alt r theme).shapes, s.IsSet :=
  isSet_group isSet_shape (isSet_text? h)

/-- Each text that a component is drawn with has a baseline for each line. -/
theorem isSet_component (h : Theme.named? name = .ok theme) (c : Component) (image : Option String) :
    ∀ f ∈ component c r theme image, ∀ s ∈ f.shapes, s.IsSet := by
  rw [component]
  split
  · next value align _ => exact isSet_txt? h c value align
  · rintro f ⟨⟩
    exact List.forall_mem_singleton.mpr isSet_shape
  · rintro f ⟨⟩
    exact isSet_group isSet_shape (isSet_text? h)
  · next label _ =>
    rintro f ⟨⟩
    exact isSet_input c label
  · next src alt _ =>
    rintro f ⟨⟩
    cases image with
    | some href => exact List.forall_mem_singleton.mpr trivial
    | none => exact isSet_placeholder h c src alt

end Drawing

namespace Image

/-- What a loader has for a source; nothing where there is no loader. -/
def found? (loader : Option ImageLoader) (src : String) : Option String :=
  loader.bind fun load => (load src).value.toOption

/-- The loader fails to find the source and has nothing to tell about it. -/
def isUntold (loader : Option ImageLoader) (src : String) : Bool :=
  loader.any fun load => match (load src).value with
    | .error none => true
    | _ => false

variable {load : ImageLoader} {src : String}

theorem isUntold_some_iff : isUntold (some load) src = true ↔ (load src).value = .error none := by
  rw [isUntold, Option.any_some]
  split
  · next h => simp [h]
  · next h => simpa using h

/-- The files of a disk tell why they are no images. -/
theorem value_fileLoader_ne (disk : Action.Handler Id) (place : List String) (base : Path) (src : String) :
    (fileLoader disk place base src).value ≠ .error none := by
  rw [fileLoader, told]
  cases ((fetch place (some base) src).perform disk).value <;> exact fun h => by cases h

end Image

theorem Drawing.value_image? (c : Component) (loader : Option ImageLoader) :
    (image? c loader).run.value =
      match c.source?.filter (Image.isUntold loader) with
      | some src => .error (.untold src)
      | none => .ok (c.source?.bind (Image.found? loader)) := by
  rw [image?.eq_def]
  cases c.source? with
  | none => rfl
  | some src =>
      cases loader with
      | none => rfl
      | some load =>
          obtain ⟨answer, hload⟩ : ∃ answer, (load src).value = answer := ⟨_, rfl⟩
          simp only [Noted.value_run_bind, Noted.value_run_noted, pure_bind, Option.filter_some,
            Option.bind_some, Image.found?, Image.isUntold, Option.any_some, hload]
          rcases answer with (_ | reason) | href <;> rfl

namespace Document

/-- The first source of an image that a loader fails to find without a word. -/
def untold? (d : Document) (loader : Option ImageLoader) : Option String :=
  (d.components.filterMap Component.source?).find? (Image.isUntold loader)

/-- A loader that always tells why it fails. -/
theorem untold?_eq_none {loader : Option ImageLoader}
    (h : ∀ load, loader = some load → ∀ src, (load src).value ≠ .error none) (d : Document) :
    d.untold? loader = none := by
  refine List.find?_eq_none.mpr fun src _ huntold => ?_
  cases loader with
  | none => cases huntold
  | some load => exact h load rfl src (Image.isUntold_some_iff.mp huntold)

/-- The files of a disk are told of wherever they are no images. -/
theorem untold?_files (disk : Action.Handler Id) (place : List String) (base : Option Path) (d : Document) :
    d.untold? (Image.loader? disk place base none) = none := by
  refine untold?_eq_none (fun load hload src => ?_) d
  obtain ⟨base, -, rfl⟩ := Option.map_eq_some_iff.mp hload
  exact Image.value_fileLoader_ne disk place base src

/-- What a drawing is put together from. -/
structure Parts where
  plan : Plan Measure
  theme : Theme
  placed : List (Component × Rect Float)
  sheet : Svg.Sheet

namespace Parts

/-- The fragment of a component in its rectangle. -/
def fragment (p : Parts) (loader : Option ImageLoader) (e : Component × Rect Float) : Option Svg.Fragment :=
  Drawing.component e.1 e.2 p.theme (e.1.source?.bind (Image.found? loader))

/-- What is drawn of the parts with the images that a loader has. -/
def drawing (p : Parts) (loader : Option ImageLoader) : String :=
  p.sheet.document (p.placed.map fun e => Drawing.markup (p.fragment loader e))

/-- The parts are those of a document. -/
structure Of (d : Document) (p : Parts) : Prop where
  plan : Plan.ofSettings d.settings = .ok p.plan
  theme : Theme.named? d.settings.theme = .ok p.theme
  placed : d.components.mapM (place p.plan) = .ok p.placed
  sheet : Svg.Sheet.ofEdges p.plan.canvas.width p.plan.canvas.height = .ok p.sheet

end Parts

theorem fst_of_place {plan : Plan Measure} {c : Component} {e : Component × Rect Float}
    (h : place plan c = .ok e) : e.1 = c := by
  obtain ⟨r, -, rfl⟩ := Results.map_eq_ok.mp (Results.mapError_eq_ok.mp h)
  rfl

theorem find?_sources_cons (c : Component) (cs : List Component) (p : String → Bool) :
    ((c :: cs).filterMap Component.source?).find? p =
      (c.source?.filter p).or ((cs.filterMap Component.source?).find? p) := by
  rw [List.filterMap_cons]
  cases c.source? with
  | none => rfl
  | some src =>
      rw [List.find?_cons, Option.filter_some]
      cases p src <;> rfl

/-- Components that have their rectangles are drawn, unless a loader fails without a word for one of them. -/
theorem value_fragments {plan : Plan Measure} {theme : Theme} {loader : Option ImageLoader}
    {cs : List Component} {placed : List (Component × Rect Float)} (h : cs.mapM (place plan) = .ok placed) :
    (fragments plan theme loader cs).run.value =
      match (cs.filterMap Component.source?).find? (Image.isUntold loader) with
      | some src => .error (.untold src)
      | none => .ok (placed.map fun e =>
          Drawing.component e.1 e.2 theme (e.1.source?.bind (Image.found? loader))) := by
  induction cs generalizing placed with
  | nil =>
      cases h
      rfl
  | cons c cs ih =>
      rw [List.mapM_cons] at h
      obtain ⟨e, he, h⟩ := Results.bind_eq_ok.mp h
      obtain ⟨rest, hrest, h⟩ := Results.bind_eq_ok.mp h
      cases h
      obtain rfl := fst_of_place he
      simp only [fragments, Noted.value_run_bind, Noted.value_run_except, Noted.value_run_pure, he,
        Results.ok_bind, Drawing.value_image?, ih hrest, find?_sources_cons]
      -- a failure for the first component decides, before those of the others
      cases e.1.source?.filter (Image.isUntold loader) with
      | some src => rfl
      | none => cases (cs.filterMap Component.source?).find? (Image.isUntold loader) <;> rfl

namespace Parts

variable {d : Document} {p : Parts}

/-- Each component of the document is drawn once, in the order of the document. -/
theorem Of.components_eq (h : p.Of d) : p.placed.map (·.1) = d.components := by
  rw [← List.map_id d.components]
  exact Results.map_eq_of_mapM_eq_ok (fun c _ e he => fst_of_place he) h.placed

/-- A document that has all its parts is drawn, unless a loader fails without a word for one of its images. -/
theorem Of.value_draw (h : p.Of d) (loader : Option ImageLoader) : (d.draw loader).value =
    match d.untold? loader with
    | some src => .error (.untold src)
    | none => .ok (p.drawing loader) := by
  simp only [draw, Noted.value_run_bind, Noted.value_run_except, Noted.value_run_noted, Noted.value_run_pure,
    pure_bind, Results.mapError_eq_ok.mpr h.plan, Results.mapError_eq_ok.mpr h.theme, Results.ok_bind,
    value_fragments h.placed, untold?]
  cases (d.components.filterMap Component.source?).find? (Image.isUntold loader) with
  | some src => rfl
  | none =>
      simp only [Results.ok_bind, Results.mapError_eq_ok.mpr h.sheet, drawing, List.map_map]
      rfl

theorem Of.value_draw_of_told {loader : Option ImageLoader} (h : p.Of d) (htold : d.untold? loader = none) :
    (d.draw loader).value = .ok (p.drawing loader) := by
  rw [h.value_draw, htold]

theorem Of.value_draw_of_untold {loader : Option ImageLoader} {src : String} (h : p.Of d)
    (huntold : d.untold? loader = some src) : (d.draw loader).value = .error (.untold src) := by
  rw [h.value_draw, huntold]

/-- What the parts of a document are computed from has a result each time: the quotient of the canvas
has a whole part, the search for the size of a text ends, and each text has its baselines. -/
structure IsTotal (d : Document) (p : Parts) : Prop where
  quotient : ∃ q, Length.quotient (Canvas.longest * min d.settings.ratio.1 d.settings.ratio.2)
    (max d.settings.ratio.1 d.settings.ratio.2) = .ok q ∧ (q + 0.5).isFinite = true
  search : ∀ width height padding cs, Typeset.Settles (Typeset.inside width padding)
    (Typeset.inside height padding) cs p.theme.fontSize.toFloat
    (Typeset.fit width height padding p.theme.fontSize.toFloat cs)
  baselines : ∀ loader, ∀ e ∈ p.placed, ∀ f ∈ p.fragment loader e, ∀ s ∈ f.shapes, s.IsSet

theorem Of.isTotal (h : p.Of d) (hratio : 0 < d.settings.ratio.1 ∧ 0 < d.settings.ratio.2) :
    p.IsTotal d where
  quotient := by
    obtain ⟨q, hq, hfinite, -⟩ := Canvas.exists_otherEdge
      (show 0 < min d.settings.ratio.1 d.settings.ratio.2 by omega)
      (show _ ≤ max d.settings.ratio.1 d.settings.ratio.2 by omega)
    exact ⟨q, hq, hfinite⟩
  search width height padding cs := Typeset.fit_settles h.theme width height padding cs
  baselines loader e _ := Drawing.isSet_component h.theme e.1 _

end Parts

variable {source : String} {doc : Document}

theorem settings_of_read_eq_ok (h : (read source).value = .ok doc) :
    doc.settings.IsSound ∧ (∀ axis, doc.settings.miscounted axis = none) ∧
      (doc.settings.gap = .whole 0 ∨ ∃ x, doc.settings.gap = .real x) := by
  obtain ⟨ts, accepted, d, left, -, hreaches, hfinish⟩ := reaches_of_read_eq_ok h
  obtain ⟨-, -, herrors, rfl⟩ := Draft.finish_eq_ok.mp hfinish
  obtain ⟨hsound, hcounts⟩ := Settings.errors_eq_nil_iff.mp herrors
  exact ⟨hsound, hcounts, hreaches.gap_eq⟩

/-- Components on the grid have a rectangle in the plan. -/
theorem exists_place {plan : Plan Measure} (hplan : plan.IsSized) (hsound : doc.settings.IsSound)
    (hlaid : LaidOut doc.components doc.settings.grid) :
    ∃ placed, doc.components.mapM (place plan) = .ok placed := by
  obtain ⟨hcols, hrows⟩ := hsound.grid_inLimits
  have hcolMax := (Settings.inGridLimits_iff.mp hcols).2
  have hrowMax := (Settings.inGridLimits_iff.mp hrows).2
  have heach : ∀ c ∈ doc.components, ∃ e, place plan c = .ok e ∧ True := by
    intro c hc
    obtain ⟨hcol, hrow⟩ := hlaid.inside c hc c.range.last c.range.last_mem_cells
    obtain ⟨r, hr⟩ := Plan.exists_toFloat? hplan c.padding (show c.range.last.col < 26 by omega)
      (show c.range.last.row < 26 by omega)
    refine ⟨(c, r), ?_, trivial⟩
    rw [place, hr]
    rfl
  obtain ⟨placed, hplaced, -⟩ := Results.exists_mapM heach
  exact ⟨placed, hplaced⟩

theorem exists_ofEdges {width height : Int} (hwidth : width.natAbs < Binary64.limit)
    (hheight : height.natAbs < Binary64.limit) : ∃ sheet, Svg.Sheet.ofEdges width height = .ok sheet := by
  refine ⟨⟨width, height, {
    x := 0.0, y := 0.0, width := .ofInt width, height := .ofInt height, fill := Svg.background }⟩, ?_⟩
  rw [Svg.Sheet.ofEdges]
  refine Results.bind_eq_ok.mpr ⟨_, Length.toFloat?_whole hwidth, ?_⟩
  exact Results.bind_eq_ok.mpr ⟨_, Length.toFloat?_whole hheight, rfl⟩

/-- A document that has been read has all the parts of a drawing. -/
theorem exists_parts (h : (read source).value = .ok doc) : ∃ p : Parts, p.Of doc ∧ p.IsTotal doc := by
  obtain ⟨hsound, hcounts, hgap⟩ := settings_of_read_eq_ok h
  obtain ⟨plan, hplan, hsized⟩ := Plan.exists_ofSettings hsound hcounts hgap
  obtain ⟨theme, htheme⟩ := hsound.theme_known
  obtain ⟨placed, hplaced⟩ := exists_place hsized hsound (laidOut_of_read_eq_ok h)
  obtain ⟨sheet, hsheet⟩ := exists_ofEdges hsized.width hsized.height
  have hof : Parts.Of doc ⟨plan, theme, placed, sheet⟩ := ⟨hplan, htheme, hplaced, hsheet⟩
  exact ⟨_, hof, hof.isTotal hsound.ratio_pos⟩

theorem compile_of_read_eq_ok {loader : Option ImageLoader} (h : (read source).value = .ok doc) :
    (compile source loader).value = (doc.draw loader).value.mapError .drawing := by
  rw [compile, Noted.value_bind, h]
  rfl

theorem compile_of_read_eq_error {loader : Option ImageLoader} {failure : Failure}
    (h : (read source).value = .error failure) :
    (compile source loader).value = .error (.reading failure) := by
  rw [compile, Noted.value_bind, h]
  rfl

/-- A document that has been read is drawn, with a loader of any kind or with the files of any disk, unless a
loader fails for the source of an image and has nothing to tell about it; and everything else on the way has
a result. So compiling a text fails exactly when reading it does, and in the same way, or when a loader fails
without a word, which the files of a disk never do. -/
theorem compile_total (source : String) (disk : Action.Handler Id) (place : List String)
    (base : Option Path) (given : Option ImageLoader) :
    ∃ loader, loader = Image.loader? disk place base given ∧
      (∀ doc, (read source).value = .ok doc → ∃ p : Parts, p.Of doc ∧ p.IsTotal doc ∧
        (doc.untold? loader = none → (doc.draw loader).value = .ok (p.drawing loader) ∧
          (compile source loader).value = .ok (p.drawing loader)) ∧
        ∀ src, doc.untold? loader = some src →
          (compile source loader).value = .error (.drawing (.untold src))) ∧
      (∀ e, (compile source loader).value = .error e ↔
        (∃ failure, e = .reading failure ∧ (read source).value = .error failure) ∨
          ∃ doc src, e = .drawing (.untold src) ∧ (read source).value = .ok doc ∧
            doc.untold? loader = some src) ∧
      ((∀ load, given = some load → ∀ src, (load src).value ≠ .error none) →
        ∀ doc : Document, doc.untold? loader = none) := by
  refine ⟨_, rfl, fun doc hread => ?_, fun e => ?_, fun htells doc => ?_⟩
  · obtain ⟨p, hof, htotal⟩ := exists_parts hread
    refine ⟨p, hof, htotal, fun htold => ?_, fun src huntold => ?_⟩
    · have hdraw := hof.value_draw_of_told htold
      exact ⟨hdraw, by rw [compile_of_read_eq_ok hread, hdraw]; rfl⟩
    · rw [compile_of_read_eq_ok hread, hof.value_draw_of_untold huntold]
      rfl
  · cases hread : (read source).value with
    | error failure =>
        rw [compile_of_read_eq_error hread]
        simp [eq_comm]
    | ok doc =>
        obtain ⟨p, hof, -⟩ := exists_parts hread
        rw [compile_of_read_eq_ok hread, hof.value_draw]
        cases huntold : doc.untold? (Image.loader? disk place base given) with
        | none => simp [Except.mapError, huntold]
        | some src => simp [Except.mapError, huntold, eq_comm]
  · cases given with
    | none => exact untold?_files disk place base doc
    | some load => exact untold?_eq_none htells doc

theorem compile_total_without_image :
    ∃ source doc, ∃ p : Parts, ∃ loader : ImageLoader,
      source = "gap: 4\nA1..B2: \x7b type: img, src: \"logo.png\" \x7d" ∧
      (∀ src, (loader src).value = .error (some "no image")) ∧
      (read source).value = .ok doc ∧ doc.components.length = 1 ∧ p.IsTotal doc ∧
      doc.untold? (some loader) = none ∧
      (compile source (some loader)).value = .ok (p.drawing (some loader)) := by
  obtain ⟨source, hsource⟩ :
      ∃ source, source = "gap: 4\nA1..B2: \x7b type: img, src: \"logo.png\" \x7d" := ⟨_, rfl⟩
  have hcount : (read source).value.toOption.map (·.components.length) = some 1 := by
    rw [hsource]
    decide +kernel
  obtain ⟨doc, hdoc, hlength⟩ := Option.map_eq_some_iff.mp hcount
  have hread := Results.toOption_eq_some.mp hdoc
  obtain ⟨loader, rfl, hdrawn, -, htells⟩ := compile_total source
    ⟨fun _ => .error (.nullByte {}), fun _ _ => .ok ()⟩ [] none (some fun _ => pure (.error (some "no image")))
  have htold := htells (by rintro load ⟨⟩ src ⟨⟩) doc
  obtain ⟨p, -, htotal, hdraw, -⟩ := hdrawn doc hread
  exact ⟨source, doc, p, _, hsource, fun _ => rfl, hread, hlength, htotal, htold, (hdraw htold).2⟩

theorem exists_read_image : ∃ doc, (read "A1: \x7b type: img, src: \"a.png\" \x7d").value = .ok doc ∧
    doc.components.filterMap Component.source? = ["a.png"] := by
  have hsources : (read "A1: \x7b type: img, src: \"a.png\" \x7d").value.toOption.map
      (·.components.filterMap Component.source?) = some ["a.png"] := by
    decide +kernel
  obtain ⟨doc, hdoc, hcomponents⟩ := Option.map_eq_some_iff.mp hsources
  exact ⟨doc, Results.toOption_eq_some.mp hdoc, hcomponents⟩

/-- A loader that fails without a word for the only image. -/
theorem compile_untold : ∃ doc, ∃ loader : ImageLoader,
    (read "A1: \x7b type: img, src: \"a.png\" \x7d").value = .ok doc ∧ (loader "a.png").value = .error none ∧
    (compile "A1: \x7b type: img, src: \"a.png\" \x7d" (some loader)).value =
      .error (.drawing (.untold "a.png")) := by
  obtain ⟨doc, hread, hsources⟩ := exists_read_image
  obtain ⟨p, hof, -⟩ := exists_parts hread
  have huntold : doc.untold? (some fun _ => pure (.error none)) = some "a.png" := by
    rw [untold?, hsources]
    rfl
  refine ⟨doc, fun _ => pure (.error none), hread, rfl, ?_⟩
  rw [compile_of_read_eq_ok hread, hof.value_draw_of_untold huntold]
  rfl

end Document
end Wireframe
