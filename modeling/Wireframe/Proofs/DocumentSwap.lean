import Wireframe.Proofs.DocumentGrowth
import Wireframe.Proofs.DrawingTotal
import Wireframe.Proofs.StatementTexts

/-! Components in another order. The markup of a component is a matter of the component, the settings and
the images, so a document is drawn as the fragments of its components one after another
(`Parts.Of.drawsAs`). Where two statements of components stand next to each other in a text, the text with
the two swapped is a document as well, with the two components and their fragments swapped and everything
else in its place (`Document.read_swap`). -/

namespace Wireframe

namespace Phrase

/-- The tokens of the text are a word of the language, with or without an end of line before and behind. -/
def IsTextOf (l : Language Token) (text : String) : Prop := ∃ word ∈ l, HasWord text word

/-- The text is the statement of a component on the range. -/
def IsTextOn (text : String) (range : Range) : Prop :=
  ∃ key rest, key :: rest ∈ component ∧ HasWord text (key :: rest) ∧ Range.read key.value.toList = .ok range

variable {l : Language Token} {texts : List String}

theorem exists_words (h : ∀ text ∈ texts, IsTextOf l text) :
    ∃ words, List.Forall₂ HasWord texts words ∧ ∀ word ∈ words, word ∈ l := by
  induction texts with
  | nil => exact ⟨[], .nil, fun _ hword => absurd hword List.not_mem_nil⟩
  | cons text texts ih =>
      obtain ⟨⟨word, hword, htext⟩, hothers⟩ := List.forall_mem_cons.mp h
      obtain ⟨words, htexts, hwords⟩ := ih hothers
      exact ⟨word :: words, .cons htext htexts, List.forall_mem_cons.mpr ⟨hword, hwords⟩⟩

/-- A text that is read as one statement is the text of one. -/
theorem isTextOf_of_run {text : String} {ts : Tokens} {s : Statement} (h : Tokens.read text = .ok ts)
    (hrun : Statement.reader.run ts.last ts.list = .ok (s, [])) :
    IsTextOf statement text ∧ ∀ range, s.range? = some range → IsTextOf component text := by
  have hends := Tokens.lineEndsOnce_of_read h
  have hall {l : Language Token} (hl : ∃ word ∈ l, word ++ [] = ts.list) : IsTextOf l text := by
    obtain ⟨word, hword, hlist⟩ := hl
    exact ⟨word, hword, ts, h, [], nil_mem_optional, [], nil_mem_optional, hlist.symm⟩
  exact ⟨hall (Statement.follows_reader.sound hends hrun).2,
    fun range hrange => hall (Statement.exists_component hrange hends hrun)⟩

end Phrase

namespace Statement

open Reader

/-- The statement of a component says the range that its first token names. -/
theorem exists_component_of_readsAs {word : List Token} {s : Statement} (hword : word ∈ Phrase.component)
    (h : ReadsAs word s) : ∃ key rest range entries location, word = key :: rest ∧
      Range.read key.value.toList = .ok range ∧ s = .component range entries location := by
  rw [Phrase.component, mul_assoc] at hword
  obtain ⟨_, ⟨key, hcell, rfl⟩, rest, -, rfl⟩ := hword
  have hname : key.kind ≠ .identifier := by
    intro hname
    rw [hname] at hcell
    exact absurd hcell (by decide)
  have hrun : reader.run key (key :: (rest ++ [])) = .ok (s, []) := h key []
  rw [run_reader_cons, if_pos (List.mem_cons_of_mem _ hcell), Subject.ofToken, if_neg hname] at hrun
  cases hrange : rangeOf key with
  | error e =>
      rw [hrange] at hrun
      cases hrun
  | ok range =>
      rw [hrange] at hrun
      obtain ⟨_, _, -, hvalue⟩ := andThen_eq_ok.mp hrun
      obtain ⟨listed, -, hs⟩ := check_eq_ok.mp hvalue
      cases hs
      rw [rangeOf] at hrange
      split at hrange
      · next hread =>
        cases hrange
        exact ⟨key, rest, range, listed.1, key.location, rfl, hread, rfl⟩
      · cases hrange
      · cases hrange

end Statement

namespace Document

/-- The markup of a component among those that are drawn with the settings. -/
def markupOf (s : Settings) (loader : Option ImageLoader) (c : Component) : Except DrawingError String := do
  let plan ← (Plan.ofSettings s).mapError .layout
  let theme ← (Theme.named? s.theme).mapError .theme
  let (_, r) ← place plan c
  let image ← (Drawing.image? c loader).run.value
  return Drawing.markup (Drawing.component c r theme image)

/-- The document is drawn on the sheet as the fragments of its components, in their order. -/
structure DrawsAs (doc : Document) (loader : Option ImageLoader) (sheet : Svg.Sheet)
    (f : Component → String) : Prop where
  fragments : ∀ c ∈ doc.components, markupOf doc.settings loader c = .ok (f c)
  drawing : (doc.draw loader).value = .ok (sheet.document (doc.components.map f))

variable {doc doc' : Document} {p p' : Parts} {loader : Option ImageLoader} {f : Component → String}
  {c : Component}

theorem value_image?_of_told (htold : doc.untold? loader = none) (hc : c ∈ doc.components) :
    (Drawing.image? c loader).run.value = .ok (c.source?.bind (Image.found? loader)) := by
  have hnone : c.source?.filter (Image.isUntold loader) = none := by
    rw [Option.filter_eq_none_iff]
    exact fun src hsource => List.find?_eq_none.mp htold src (List.mem_filterMap.mpr ⟨c, hc, hsource⟩)
  rw [Drawing.value_image?, hnone]

theorem Parts.Of.markupOf_eq (h : p.Of doc) (htold : doc.untold? loader = none) (hc : c ∈ doc.components)
    {e : Component × Rect Float} (he : place p.plan c = .ok e) :
    markupOf doc.settings loader c = .ok (Drawing.markup (p.fragment loader e)) := by
  obtain rfl := fst_of_place he
  simp only [markupOf, Results.mapError_eq_ok.mpr h.plan, Results.mapError_eq_ok.mpr h.theme, he,
    value_image?_of_told htold hc, Results.ok_bind]
  rfl

theorem Parts.Of.exists_markupOf (h : p.Of doc) (htold : doc.untold? loader = none)
    (hc : c ∈ doc.components) : ∃ markup, markupOf doc.settings loader c = .ok markup := by
  have hplaced := hc
  rw [← h.components_eq] at hplaced
  obtain ⟨e, he, rfl⟩ := List.mem_map.mp hplaced
  obtain ⟨c, -, hplace⟩ := Results.exists_of_mem_mapM h.placed e he
  obtain rfl := fst_of_place hplace
  exact ⟨_, h.markupOf_eq htold hc hplace⟩

theorem Parts.Of.drawsAs (h : p.Of doc) (htold : doc.untold? loader = none)
    (hf : ∀ c ∈ doc.components, markupOf doc.settings loader c = .ok (f c)) :
    doc.DrawsAs loader p.sheet f where
  fragments := hf
  drawing := by
    have hmarkup : (p.placed.map fun e => Drawing.markup (p.fragment loader e)) = doc.components.map f := by
      refine Results.map_eq_of_mapM_eq_ok (fun c hc e he => ?_) h.placed
      exact Except.ok.inj ((h.markupOf_eq htold hc he).symm.trans (hf c hc))
    rw [h.value_draw_of_told htold, Parts.drawing, hmarkup]

theorem untold?_eq_none_iff_of_perm (hperm : doc.components.Perm doc'.components) :
    doc.untold? loader = none ↔ doc'.untold? loader = none := by
  simp only [untold?, List.find?_eq_none, (hperm.filterMap Component.source?).mem_iff]

/-- Documents with the same settings and the same components in another order have the same fragments. -/
theorem exists_drawsAs (h : p.Of doc) (h' : p'.Of doc') (hsettings : doc'.settings = doc.settings)
    (hperm : doc.components.Perm doc'.components) (htold : doc.untold? loader = none) :
    ∃ sheet f, doc.DrawsAs loader sheet f ∧ doc'.DrawsAs loader sheet f := by
  obtain ⟨f, hf⟩ : ∃ f : Component → String,
      ∀ c ∈ doc.components, markupOf doc.settings loader c = .ok (f c) := by
    refine ⟨fun c => (markupOf doc.settings loader c).toOption.getD "", fun c hc => ?_⟩
    obtain ⟨markup, hmarkup⟩ := h.exists_markupOf htold hc
    simp only [hmarkup, Except.toOption, Option.getD_some]
  have hplan : p'.plan = p.plan := by
    have hof := h'.plan
    rw [hsettings, h.plan] at hof
    exact (Except.ok.inj hof).symm
  have hsheet : p'.sheet = p.sheet := by
    have hof := h'.sheet
    rw [hplan, h.sheet] at hof
    exact (Except.ok.inj hof).symm
  have hdraws' : doc'.DrawsAs loader p'.sheet f :=
    h'.drawsAs ((untold?_eq_none_iff_of_perm hperm).mp htold) fun c hc => hsettings ▸ hf c (hperm.mem_iff.mpr hc)
  rw [hsheet] at hdraws'
  exact ⟨p.sheet, f, h.drawsAs htold hf, hdraws'⟩

/-- Where a loader fails without a word, it does so for both of two such documents. -/
theorem exists_untold (h : p.Of doc) (h' : p'.Of doc') (hperm : doc.components.Perm doc'.components)
    {src : String} (huntold : doc.untold? loader = some src) :
    ∃ src', (doc.draw loader).value = .error (.untold src) ∧ (doc'.draw loader).value = .error (.untold src') := by
  cases huntold' : doc'.untold? loader with
  | none =>
      rw [(untold?_eq_none_iff_of_perm hperm).mpr huntold'] at huntold
      cases huntold
  | some src' => exact ⟨src', h.value_draw_of_untold huntold, h'.value_draw_of_untold huntold'⟩

section Swap

variable {before after : List String} {a b : String}

theorem exists_of_swap (hbefore : ∀ text ∈ before, Phrase.IsTextOf Phrase.statement text)
    (hafter : ∀ text ∈ after, Phrase.IsTextOf Phrase.statement text)
    (ha : Phrase.IsTextOf Phrase.component a) (hb : Phrase.IsTextOf Phrase.component b)
    (h : (read ("\n".intercalate (before ++ a :: b :: after))).value = .ok doc) :
    ∃ doc' front first second back,
      (read ("\n".intercalate (before ++ b :: a :: after))).value = .ok doc' ∧
      Phrase.IsTextOn a first.range ∧ Phrase.IsTextOn b second.range ∧ doc'.settings = doc.settings ∧
      doc.components = front ++ first :: second :: back ∧
      doc'.components = front ++ second :: first :: back := by
  obtain ⟨fronts, hfronts, hfrontWords⟩ := Phrase.exists_words hbefore
  obtain ⟨backs, hbacks, hbackWords⟩ := Phrase.exists_words hafter
  obtain ⟨word, hword, hhas⟩ := ha
  obtain ⟨word', hword', hhas'⟩ := hb
  have hwords (u v : List Token) (hu : u ∈ Phrase.component) (hv : v ∈ Phrase.component) :
      ∀ word ∈ fronts ++ u :: v :: backs, word ∈ Phrase.statement := by
    have hstatement {word : List Token} (hword : word ∈ Phrase.component) : word ∈ Phrase.statement :=
      Phrase.mem_statement.mpr (Or.inr hword)
    rw [List.forall_mem_append, List.forall_mem_cons, List.forall_mem_cons]
    exact ⟨hfrontWords, hstatement hu, hstatement hv, hbackWords⟩
  have htexts := List.rel_append hfronts (.cons hhas (.cons hhas' hbacks))
  have htexts' := List.rel_append hfronts (.cons hhas' (.cons hhas hbacks))
  obtain ⟨all, d, hss, haccept, hfinish⟩ := (read_texts htexts (hwords word word' hword hword')).mp h
  have hfrontReads := (List.forall₂_take_append all fronts _ (List.Forall₂.flip hss)).flip
  have hrest := (List.forall₂_drop_append all fronts _ (List.Forall₂.flip hss)).flip
  rw [← List.take_append_drop fronts.length all] at haccept
  obtain ⟨s, _, hs, hnext, hdrop⟩ := List.forall₂_cons_left_iff.mp hrest
  obtain ⟨s', ss', hs', hbackReads, rfl⟩ := List.forall₂_cons_left_iff.mp hnext
  rw [hdrop] at haccept
  obtain ⟨key, us, range, entries, location, rfl, hrange, rfl⟩ :=
    Statement.exists_component_of_readsAs hword hs
  obtain ⟨key', us', range', entries', location', rfl, hrange', rfl⟩ :=
    Statement.exists_component_of_readsAs hword' hs'
  obtain ⟨d', front, first, second, back, haccept', hsettings, rfl, rfl, hd, hd'⟩ :=
    Draft.exists_swapped haccept
  have hread := (read_texts htexts' (hwords _ _ hword' hword)).mpr
    ⟨_, d', List.rel_append hfrontReads (.cons hs' (.cons hs hbackReads)), haccept',
      Draft.finish_congr hsettings hfinish⟩
  obtain ⟨-, -, -, rfl⟩ := Draft.finish_eq_ok.mp hfinish
  exact ⟨_, front, first, second, back, hread, ⟨key, us, hword, hhas, hrange⟩,
    ⟨key', us', hword', hhas', hrange'⟩, rfl, hd, hd'⟩

/-- Swapping two statements of components that follow each other. The text with the two swapped is a document
as well, or neither is one; the settings are the same, so are the components but that the two are swapped,
and whatever images there are, the drawings are the same but that the fragments of the two are swapped, or a
loader fails without a word for both. -/
theorem read_swap (hbefore : ∀ text ∈ before, Phrase.IsTextOf Phrase.statement text)
    (hafter : ∀ text ∈ after, Phrase.IsTextOf Phrase.statement text)
    (ha : Phrase.IsTextOf Phrase.component a) (hb : Phrase.IsTextOf Phrase.component b) :
    ((∃ doc, (read ("\n".intercalate (before ++ a :: b :: after))).value = .ok doc) ↔
      ∃ doc, (read ("\n".intercalate (before ++ b :: a :: after))).value = .ok doc) ∧
    ∀ doc, (read ("\n".intercalate (before ++ a :: b :: after))).value = .ok doc →
      ∃ doc' front first second back,
        (read ("\n".intercalate (before ++ b :: a :: after))).value = .ok doc' ∧
        Phrase.IsTextOn a first.range ∧ Phrase.IsTextOn b second.range ∧ doc'.settings = doc.settings ∧
        doc.components = front ++ first :: second :: back ∧
        doc'.components = front ++ second :: first :: back ∧
        ∀ loader, (doc.untold? loader = none →
            ∃ sheet f, doc.DrawsAs loader sheet f ∧ doc'.DrawsAs loader sheet f) ∧
          ∀ src, doc.untold? loader = some src → ∃ src',
            (doc.draw loader).value = .error (.untold src) ∧ (doc'.draw loader).value = .error (.untold src') := by
  refine ⟨⟨fun ⟨doc, h⟩ => ?_, fun ⟨doc, h⟩ => ?_⟩, fun doc h => ?_⟩
  · obtain ⟨doc', _, _, _, _, h', -⟩ := exists_of_swap hbefore hafter ha hb h
    exact ⟨doc', h'⟩
  · obtain ⟨doc', _, _, _, _, h', -⟩ := exists_of_swap hbefore hafter hb ha h
    exact ⟨doc', h'⟩
  · obtain ⟨doc', front, first, second, back, h', hfirst, hsecond, hsettings, hdoc, hdoc'⟩ :=
      exists_of_swap hbefore hafter ha hb h
    refine ⟨doc', front, first, second, back, h', hfirst, hsecond, hsettings, hdoc, hdoc', fun loader => ?_⟩
    obtain ⟨p, hp, -⟩ := exists_parts h
    obtain ⟨p', hp', -⟩ := exists_parts h'
    have hperm : doc.components.Perm doc'.components := by
      rw [hdoc, hdoc']
      exact (List.Perm.swap second first back).append_left front
    exact ⟨exists_drawsAs hp hp' hsettings hperm, fun src => exists_untold hp hp' hperm⟩

/-- The colors of the first component are declared before the two, and the rows behind them. -/
theorem read_swap_of_palette :
    ∃ before after a b doc doc', before = ["grid: 2x2", "colors: \x7b ink: #123456 \x7d"] ∧
      a = "A1: \x7btype: box, bg: $ink\x7d // first" ∧ b = "A2..B2: \x7b\n  type: btn\n\x7d" ∧
      after = ["grid: 2x3"] ∧
      (∀ text ∈ before, Phrase.IsTextOf Phrase.statement text) ∧
      (∀ text ∈ after, Phrase.IsTextOf Phrase.statement text) ∧
      Phrase.IsTextOf Phrase.component a ∧ Phrase.IsTextOf Phrase.component b ∧
      (read ("\n".intercalate (before ++ a :: b :: after))).value = .ok doc ∧
      (read ("\n".intercalate (before ++ b :: a :: after))).value = .ok doc' ∧
      doc'.settings = doc.settings ∧ doc.settings.grid = (2, 3) ∧
      doc.ranges = [.single ⟨0, 0⟩, .spanning ⟨0, 1⟩ ⟨1, 1⟩] ∧
      doc'.ranges = [.spanning ⟨0, 1⟩ ⟨1, 1⟩, .single ⟨0, 0⟩] ∧
      ∃ sheet f, doc.DrawsAs none sheet f ∧ doc'.DrawsAs none sheet f := by
  have hstatement (text : String) (range : Option Range)
      (h : ((Tokens.read text).toOption.bind fun ts => (Statement.reader.run ts.last ts.list).toOption.map
        fun r => (r.1.range?, r.2)) = some (range, [])) :
      Phrase.IsTextOf Phrase.statement text ∧
        (range.isSome = true → Phrase.IsTextOf Phrase.component text) := by
    obtain ⟨ts, hts, hr⟩ := Option.bind_eq_some_iff.mp h
    obtain ⟨⟨s, rest⟩, hrun, heq⟩ := Option.map_eq_some_iff.mp hr
    cases heq
    rw [Results.toOption_eq_some] at hts hrun
    obtain ⟨htext, hcomponent⟩ := Phrase.isTextOf_of_run hts hrun
    exact ⟨htext, fun hsome => hcomponent _ (Option.some_get hsome).symm⟩
  have hgrid := (hstatement "grid: 2x2" none (by decide +kernel)).1
  have hcolors := (hstatement "colors: \x7b ink: #123456 \x7d" none (by decide +kernel)).1
  have hrows := (hstatement "grid: 2x3" none (by decide +kernel)).1
  have hfirst := (hstatement "A1: \x7btype: box, bg: $ink\x7d // first" (some (.single ⟨0, 0⟩))
    (by decide +kernel)).2 rfl
  have hsecond := (hstatement "A2..B2: \x7b\n  type: btn\n\x7d" (some (.spanning ⟨0, 1⟩ ⟨1, 1⟩))
    (by decide +kernel)).2 rfl
  obtain ⟨before, hbefore⟩ : ∃ before, before = ["grid: 2x2", "colors: \x7b ink: #123456 \x7d"] := ⟨_, rfl⟩
  obtain ⟨after, hafter⟩ : ∃ after, after = ["grid: 2x3"] := ⟨_, rfl⟩
  obtain ⟨a, ha⟩ : ∃ a, a = "A1: \x7btype: box, bg: $ink\x7d // first" := ⟨_, rfl⟩
  obtain ⟨b, hb⟩ : ∃ b, b = "A2..B2: \x7b\n  type: btn\n\x7d" := ⟨_, rfl⟩
  have hbefores : ∀ text ∈ before, Phrase.IsTextOf Phrase.statement text := by
    rw [hbefore]
    exact List.forall_mem_cons.mpr ⟨hgrid, List.forall_mem_singleton.mpr hcolors⟩
  have hafters : ∀ text ∈ after, Phrase.IsTextOf Phrase.statement text := by
    rw [hafter]
    exact List.forall_mem_singleton.mpr hrows
  have hall : (read ("\n".intercalate (before ++ a :: b :: after))).value.toOption.map
      (fun doc => (doc.settings.grid, doc.ranges)) =
        some ((2, 3), [.single ⟨0, 0⟩, .spanning ⟨0, 1⟩ ⟨1, 1⟩]) := by
    rw [hbefore, hafter, ha, hb]
    decide +kernel
  obtain ⟨doc, hdoc, hranges⟩ := Option.map_eq_some_iff.mp hall
  have hread := Results.toOption_eq_some.mp hdoc
  obtain ⟨hgrid', hranges⟩ := Prod.mk.injEq .. ▸ hranges
  obtain ⟨-, hswap⟩ := read_swap hbefores hafters (ha ▸ hfirst) (hb ▸ hsecond)
  obtain ⟨doc', front, first, second, back, hread', -, -, hsettings, hcomponents, hcomponents', hdraws⟩ :=
    hswap doc hread
  have hnone : doc.untold? none = none := untold?_eq_none (fun load hload => by cases hload) doc
  refine ⟨before, after, a, b, doc, doc', hbefore, ha, hb, hafter, hbefores, hafters, ha ▸ hfirst, hb ▸ hsecond,
    hread, hread', hsettings, hgrid', hranges, ?_, (hdraws none).1 hnone⟩
  rw [Document.ranges, hcomponents']
  rw [Document.ranges, hcomponents] at hranges
  cases front with
  | nil =>
      simp only [List.nil_append, List.map_cons, List.cons.injEq, List.map_eq_nil_iff] at hranges ⊢
      exact ⟨hranges.2.1, hranges.1, hranges.2.2⟩
  | cons c front =>
      have hlength := congrArg List.length hranges
      simp only [List.length_map, List.length_append, List.length_cons, List.length_nil] at hlength
      omega

end Swap
end Document
end Wireframe
