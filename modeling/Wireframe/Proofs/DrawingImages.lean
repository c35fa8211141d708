import Wireframe.Proofs.DrawingText
import Wireframe.Proofs.DrawingTotal

/-! Images in drawings. A loader is asked for the sources of images and for nothing else, and an image that
it does not have is drawn as it is drawn without a loader. So two drawings of a document differ only where
their loaders do (`Document.draw_local`). A loader that fails without a word is the exception: then there is no
drawing. -/

namespace Wireframe

open Markup

namespace Drawing

open Svg

/-- The markup is one image element with the reference, without the characters that XML does not have. -/
def ShowsImage (href : String) (markup : String) : Prop :=
  ∃ attributes content, (Element.mk "image" attributes content).Is markup ∧
    attributes.lookup "href" = some (legal href)

theorem showsImage_picture (href : String) (r : Rect Float) :
    ShowsImage href (markup (some (picture href r))) :=
  ⟨_, _, Element.is_of_shown (Picture.shown_markup ⟨href, r.x, r.y, r.width, r.height⟩), rfl⟩

variable {c : Component} {r : Rect Float} {theme : Theme} {src href : String}

/-- A component with a source is drawn as the image that is had for it. -/
theorem component_of_source (h : c.source? = some src) :
    component c r theme (some href) = some (picture href r) := by
  obtain ⟨range, padding, bg, border, content⟩ := c
  cases content with
  | img => rfl
  | txt | box | btn | input => cases h

theorem image?_congr {loader other : Option ImageLoader}
    (h : ∀ src, c.source? = some src → loader.map (· src) = other.map (· src)) :
    image? c loader = image? c other := by
  rw [image?.eq_def, image?.eq_def]
  cases hsource : c.source? with
  | none => rfl
  | some src =>
      have hsame := h src hsource
      cases loader with
      | none =>
          cases other with
          | none => rfl
          | some load => cases hsame
      | some load =>
          cases other with
          | none => cases hsame
          | some load' =>
              have hload : load src = load' src := Option.some.inj hsame
              simp only [hload]

end Drawing

namespace Document

theorem fragments_congr {plan : Plan Measure} {theme : Theme} {loader other : Option ImageLoader}
    {cs : List Component} (h : ∀ c ∈ cs, ∀ src, c.source? = some src → loader.map (· src) = other.map (· src)) :
    fragments plan theme loader cs = fragments plan theme other cs := by
  induction cs with
  | nil => rfl
  | cons c cs ih =>
      obtain ⟨hc, hrest⟩ := List.forall_mem_cons.mp h
      simp only [fragments, Drawing.image?_congr hc, ih hrest]

/-- Loaders that answer in the same way for all sources of a document draw it in the same way. -/
theorem draw_congr {d : Document} {loader other : Option ImageLoader} (h : ∀ c ∈ d.components, ∀ src,
    c.source? = some src → loader.map (· src) = other.map (· src)) : d.draw loader = d.draw other := by
  simp only [draw, fragments_congr h]

namespace Parts

variable {p : Parts} {e : Component × Rect Float} {loader other : Option ImageLoader} {src href : String}

/-- An image that the loader has is drawn as itself. -/
theorem fragment_of_found (h : e.1.source? = some src) (hfound : Image.found? loader src = some href) :
    p.fragment loader e = some (Drawing.picture href e.2) := by
  rw [fragment, h, Option.bind_some, hfound]
  exact Drawing.component_of_source h

/-- The fragment of a component is the same with loaders that have the same for its source. -/
theorem fragment_congr (h : ∀ src, e.1.source? = some src → Image.found? loader src = Image.found? other src) :
    p.fragment loader e = p.fragment other e := by
  have hsame : e.1.source?.bind (Image.found? loader) = e.1.source?.bind (Image.found? other) := by
    cases hsource : e.1.source? with
    | none => rfl
    | some src => exact h src hsource
  rw [fragment, fragment, hsame]

/-- Drawings with loaders that have the same for all sources are the same. -/
theorem drawing_congr (h : ∀ e ∈ p.placed, ∀ src, e.1.source? = some src →
    Image.found? loader src = Image.found? other src) : p.drawing loader = p.drawing other := by
  rw [drawing, drawing]
  congr 1
  exact List.map_congr_left fun e he => congrArg Drawing.markup (fragment_congr (h e he))

end Parts

variable {source : String} {doc : Document}

/-- A document that has been read is drawn, a fragment for each component, with any loader that does not fail
without a word for one of its images. Where two drawings differ, there is an image with a source for which
their loaders have different things. Such an image is drawn as itself with what the loader has, and as without
a loader where that has nothing. So a loader that always fails, and tells why, is as good as none. -/
theorem draw_local (h : (read source).value = .ok doc) :
    ∃ p : Parts, p.Of doc ∧ p.placed.map (·.1) = doc.components ∧
      (∀ loader, doc.untold? loader = none → (doc.draw loader).value =
        .ok (p.sheet.document (p.placed.map fun e => Drawing.markup (p.fragment loader e)))) ∧
      (∀ loader src, doc.untold? loader = some src → (doc.draw loader).value = .error (.untold src)) ∧
      (∀ loader other, ∀ e ∈ p.placed, p.fragment loader e ≠ p.fragment other e →
        ∃ src, e.1.source? = some src ∧ Image.found? loader src ≠ Image.found? other src) ∧
      (∀ loader, ∀ e ∈ p.placed, ∀ src, e.1.source? = some src →
        (∀ href, Image.found? loader src = some href →
          p.fragment loader e = some (Drawing.picture href e.2) ∧
          Drawing.ShowsImage href (Drawing.markup (p.fragment loader e))) ∧
        (Image.found? loader src = none → p.fragment loader e = p.fragment none e)) ∧
      ∀ load : ImageLoader, (∀ src, ∃ reason, (load src).value = .error (some reason)) →
        (doc.draw (some load)).value = (doc.draw none).value := by
  obtain ⟨p, hof, -⟩ := exists_parts h
  refine ⟨p, hof, hof.components_eq, fun loader => hof.value_draw_of_told, fun loader src =>
    hof.value_draw_of_untold, ?_, ?_, ?_⟩
  · intro loader other e _ hdiffer
    by_contra hsame
    refine hdiffer (Parts.fragment_congr fun src hsource => ?_)
    by_contra hother
    exact hsame ⟨src, hsource, hother⟩
  · intro loader e _ src hsource
    refine ⟨fun href hfound => ?_, fun hnone => ?_⟩
    · have himage := Parts.fragment_of_found (p := p) hsource hfound
      exact ⟨himage, himage ▸ Drawing.showsImage_picture href e.2⟩
    · refine Parts.fragment_congr fun other hother => ?_
      cases hsource.symm.trans hother
      exact hnone
  · intro load hfails
    have htold : doc.untold? (some load) = none := by
      refine untold?_eq_none (fun load' hload src hwordless => ?_) doc
      cases hload
      obtain ⟨reason, hreason⟩ := hfails src
      cases hwordless.symm.trans hreason
    have hnone : doc.untold? none = none := untold?_eq_none (fun load hload => by cases hload) doc
    rw [hof.value_draw_of_told htold, hof.value_draw_of_told hnone]
    refine congrArg Except.ok (Parts.drawing_congr fun e _ src _ => ?_)
    obtain ⟨reason, hreason⟩ := hfails src
    simp only [Image.found?, Option.bind_some, hreason]
    rfl

/-- Of two images the loader has one. -/
theorem draw_local_of_two_images :
    ∃ source doc, ∃ p : Parts, ∃ loader failing : ImageLoader,
      source = "A1: \x7b type: img, src: \"a.png\" \x7d\nB1: \x7b type: img, src: \"b.png\", alt: \"B\" \x7d" ∧
      (read source).value = .ok doc ∧ p.Of doc ∧ p.placed.map (·.1.source?) = [some "a.png", some "b.png"] ∧
      (loader "a.png").value = .ok "data:," ∧ (loader "b.png").value = .error (some "gone") ∧
      (∀ src, ∃ reason, (failing src).value = .error (some reason)) ∧
      (doc.draw (some loader)).value =
        .ok (p.sheet.document (p.placed.map fun e => Drawing.markup (p.fragment (some loader) e))) ∧
      (∀ e ∈ p.placed, e.1.source? = some "a.png" →
        p.fragment (some loader) e = some (Drawing.picture "data:," e.2) ∧
        Drawing.ShowsImage "data:," (Drawing.markup (p.fragment (some loader) e))) ∧
      (∀ e ∈ p.placed, e.1.source? = some "b.png" → p.fragment (some loader) e = p.fragment none e) ∧
      (doc.draw (some failing)).value = (doc.draw none).value := by
  obtain ⟨source, hsource⟩ : ∃ source, source =
      "A1: \x7b type: img, src: \"a.png\" \x7d\nB1: \x7b type: img, src: \"b.png\", alt: \"B\" \x7d" := ⟨_, rfl⟩
  have hsources : (read source).value.toOption.map (·.components.map Component.source?) =
      some [some "a.png", some "b.png"] := by
    rw [hsource]
    decide +kernel
  obtain ⟨doc, hdoc, hcomponents⟩ := Option.map_eq_some_iff.mp hsources
  have hread := Results.toOption_eq_some.mp hdoc
  obtain ⟨p, hof, hplaced, hdraw, -, -, himage, hfailing⟩ := draw_local hread
  let loader : ImageLoader := fun src =>
    pure (if src = "a.png" then .ok "data:," else .error (some "gone"))
  have htold : doc.untold? (some loader) = none := by
    refine untold?_eq_none (fun load hload src hwordless => ?_) doc
    cases hload
    by_cases hsrc : src = "a.png"
    · cases (if_pos hsrc).symm.trans hwordless
    · cases (if_neg hsrc).symm.trans hwordless
  refine ⟨source, doc, p, loader, fun _ => pure (.error (some "gone")), hsource, hread, hof, ?_, rfl, rfl,
    fun src => ⟨"gone", rfl⟩, hdraw _ htold, fun e he hname => ?_, fun e he hname => ?_,
    hfailing _ fun src => ⟨"gone", rfl⟩⟩
  · rw [← hcomponents, ← hplaced, List.map_map]
    rfl
  · exact (himage (some loader) e he "a.png" hname).1 "data:," rfl
  · exact (himage (some loader) e he "b.png" hname).2 rfl

/-- With a loader that always fails, and without a word, there is no drawing. -/
theorem draw_untold : ∃ doc text, ∃ load : ImageLoader,
    (read "A1: \x7b type: img, src: \"a.png\" \x7d").value = .ok doc ∧ (∀ src, (load src).value = .error none) ∧
    (doc.draw none).value = .ok text ∧ (doc.draw (some load)).value = .error (.untold "a.png") := by
  obtain ⟨doc, hread, hsources⟩ := exists_read_image
  obtain ⟨p, hof, -⟩ := exists_parts hread
  have hnone : doc.untold? none = none := untold?_eq_none (fun load hload => by cases hload) doc
  have huntold : doc.untold? (some fun _ => pure (.error none)) = some "a.png" := by
    rw [untold?, hsources]
    rfl
  exact ⟨doc, _, _, hread, fun _ => rfl, hof.value_draw_of_told hnone, hof.value_draw_of_untold huntold⟩

end Document
end Wireframe
