import Wireframe.Proofs.DraftColors
import Wireframe.Proofs.DraftRules

/-! The issues of a document, said by cells and names. Components are checked in their order, each against
all components before it, whatever is wrong with those (`Document.issues_exact`). So a document is valid
exactly when no cell belongs to two components, all cells lie on the grid and the palette has every name. That
it is not is told of each issue, or not at all where a row number may not be written in one of them. -/

namespace Wireframe

namespace Results

variable {ε α β : Type} {f : α → Except ε β} {g : α → β} {e : ε}
  {P : α → Prop} [DecidablePred P]

/-- Steps that all fail in one way, if they fail. -/
theorem mapM_eq_ite {as : List α} (h : ∀ a ∈ as, f a = if P a then .ok (g a) else .error e) :
    as.mapM f = if ∀ a ∈ as, P a then .ok (as.map g) else .error e := by
  induction as with
  | nil => rfl
  | cons a rest ih =>
      obtain ⟨hfirst, hrest⟩ := List.forall_mem_cons.mp h
      rw [List.mapM_cons, hfirst, ih hrest]
      by_cases ha : P a
      · by_cases hall : ∀ b ∈ rest, P b
        · rw [if_pos ha, if_pos hall, if_pos (List.forall_mem_cons.mpr ⟨ha, hall⟩)]
          rfl
        · rw [if_pos ha, if_neg hall, if_neg fun hboth => hall (List.forall_mem_cons.mp hboth).2]
          rfl
      · rw [if_neg ha, if_neg fun hboth => ha (List.forall_mem_cons.mp hboth).1]
        rfl

end Results

namespace Range

variable {r : Range} {before : List Range}

/-- Two ranges share a cell. -/
def Meets (r s : Range) : Prop := ∃ c, c ∈ r.cells ∧ c ∈ s.cells

/-- The first of the ranges that shares a cell with `r`, if one does. -/
inductive FirstMet (r : Range) (before : List Range) : Option Range → Prop
  | none (h : ∀ s ∈ before, ¬r.Meets s) : FirstMet r before none
  | some {front back : List Range} {other : Range} (hbefore : before = front ++ other :: back)
      (hother : r.Meets other) (hfront : ∀ s ∈ front, ¬r.Meets s) : FirstMet r before (some other)

theorem firstMet_firstOverlap? (r : Range) (before : List Range) :
    r.FirstMet before (r.firstOverlap? before) := by
  have hmeets (s : Range) : s.overlaps r = true ↔ r.Meets s := by
    rw [overlaps_iff, Meets]
    exact exists_congr fun c => and_comm
  cases h : r.firstOverlap? before with
  | none => exact .none fun s hs hmeet => List.find?_eq_none.mp h s hs ((hmeets s).mpr hmeet)
  | some other =>
      obtain ⟨hother, front, back, hbefore, hfront⟩ := List.find?_eq_some_iff_append.mp h
      exact .some hbefore ((hmeets other).mp hother) fun s hs hmeet => by
        simpa [(hmeets s).mpr hmeet] using hfront s hs

end Range

namespace Violation

/-- The violation of a range with a cell off the grid: the last column decides before the last row. -/
inductive IsOf (r : Range) (grid : Int × Int) : Option Violation → Prop
  | inside (h : ∀ c ∈ r.cells, c.IsOn grid) : IsOf r grid none
  | column (h : ∃ c ∈ r.cells, ¬c.IsOn grid) (hcol : grid.1 ≤ r.last.col) :
      IsOf r grid (some (.column r.last.col grid.1))
  | row (h : ∃ c ∈ r.cells, ¬c.IsOn grid) (hcol : r.last.col < grid.1) :
      IsOf r grid (some (.row r.last.row grid.2))

theorem isOf_of? (r : Range) (grid : Int × Int) : IsOf r grid (of? r grid) := by
  by_cases h : ∀ c ∈ r.cells, c.IsOn grid
  · rw [of?_eq_none_iff.mpr h]
    exact .inside h
  · have hout : ∃ c ∈ r.cells, ¬c.IsOn grid := by simpa only [not_forall, exists_prop] using h
    have hsome := mt of?_eq_none_iff.mp h
    rw [of?] at hsome ⊢
    split
    · next hcol => exact .column hout hcol
    · next hcol =>
      rw [if_neg hcol] at hsome
      split
      · exact .row hout (by omega)
      · next hrow => exact absurd (if_neg hrow) hsome

end Violation

namespace Color

variable {palette : Palette} {value : Option String}

/-- The name that a value refers to and that the palette has no color for, if it refers to one. -/
inductive Missing (palette : Palette) (value : Option String) : Option String → Prop
  | missing {name : String} (hvalue : value = some ("$" ++ name)) (h : ∀ color, (name, color) ∉ palette) :
      Missing palette value (some name)
  | none (h : ∀ name, value = some ("$" ++ name) → ∃ color, (name, color) ∈ palette) :
      Missing palette value none

theorem lookup_isSome_iff {name : String} :
    (palette.lookup name).isSome = true ↔ ∃ color, (name, color) ∈ palette := by
  induction palette with
  | nil => simp
  | cons e rest ih =>
      obtain ⟨k, v⟩ := e
      rw [Keyed.lookup_cons_eq_ite]
      by_cases h : name = k
      · subst h
        exact ⟨fun _ => ⟨v, List.mem_cons_self⟩, fun _ => by rw [if_pos rfl]; rfl⟩
      · rw [if_neg h, ih]
        simp [h]

theorem missing_unresolved? (palette : Palette) (value : Option String) :
    Missing palette value (unresolved? palette value) := by
  rw [unresolved?]
  split
  · next name hname =>
    obtain ⟨text, rfl, htext⟩ := Option.bind_eq_some_iff.mp hname
    obtain rfl := reference?_eq_some_iff.mp htext
    split
    · next hsome =>
      refine .none fun other hother => ?_
      have hsame : some name = some other :=
        (reference?_eq_some_iff.mpr rfl).symm.trans (reference?_eq_some_iff.mpr (Option.some.inj hother))
      obtain rfl := Option.some.inj hsame
      exact lookup_isSome_iff.mp hsome
    · next hnone => exact .missing rfl fun color hcolor => hnone (lookup_isSome_iff.mpr ⟨color, hcolor⟩)
  · next hname =>
    refine .none fun name hvalue => ?_
    rw [hvalue, Option.bind_some, reference?_eq_some_iff.mpr rfl] at hname
    cases hname

end Color

namespace Defect

/-- The row numbers, from one, that the words for a defect hold. -/
def rowNumbers : Defect → List Nat
  | overlap range other => [range.first.row + 1, range.last.row + 1, other.first.row + 1, other.last.row + 1]
  | outside (.row last _) => [last + 1]
  | outside (.column ..) | unresolved .. => []

/-- None of the row numbers is too long to be written. -/
def RowsFit (d : Defect) : Prop := ∀ n ∈ d.rowNumbers, n < 10 ^ Numeral.maxDigits

instance (d : Defect) : Decidable d.RowsFit := List.decidableBAll _ _

theorem rowsFit_overlap {range other : Range} :
    (overlap range other).RowsFit ↔ (range.isWritable && other.isWritable) = true := by
  have hrange := range.row_le
  have hother := other.row_le
  simp only [RowsFit, rowNumbers, List.forall_mem_cons, List.not_mem_nil, false_imp_iff,
    forall_true_iff, and_true, Range.isWritable, Coord.isWritable, Bool.and_eq_true, ← Nat.cast_succ,
    Numeral.isWritable_iff]
  generalize 10 ^ Numeral.maxDigits = limit
  omega

theorem rowsFit_row {last : Nat} {rows : Int} :
    (outside (.row last rows)).RowsFit ↔ Numeral.isWritable (last + 1) = true := by
  rw [RowsFit, rowNumbers, List.forall_mem_singleton, ← Nat.cast_succ, Numeral.isWritable_iff]

end Defect

namespace Component

variable {c : Component} {s : Settings} {before : List Range} {d : Defect}

/-- What is wrong with a component among the ranges before it: the first of these that shares a cell with
it, how it leaves the grid, and the names of its background and its border that the palette lacks. -/
def HasDefects (c : Component) (s : Settings) (before : List Range) (ds : List Defect) : Prop :=
  ∃ overlap violation bg border,
    c.range.FirstMet before overlap ∧ Violation.IsOf c.range s.grid violation ∧
    Color.Missing s.palette c.bg bg ∧ Color.Missing s.palette c.border border ∧
    ds = (overlap.map (Defect.overlap c.range)).toList ++ (violation.map Defect.outside).toList ++
      (bg.map (Defect.unresolved · "bg")).toList ++ (border.map (Defect.unresolved · "border")).toList

theorem hasDefects_defects (c : Component) (s : Settings) (before : List Range) :
    c.HasDefects s before (c.defects s before) :=
  ⟨_, _, _, _, Range.firstMet_firstOverlap? c.range before, Violation.isOf_of? c.range s.grid,
    Color.missing_unresolved? s.palette c.bg, Color.missing_unresolved? s.palette c.border, rfl⟩

/-- Under settings that keep their rules a defect can be said unless a row number may not be written. -/
theorem message?_eq_ite (hs : s.errors = []) (hd : d ∈ c.defects s before) :
    d.message? = if d.RowsFit then .ok d.message else .error .unwritable := by
  cases d with
  | overlap range other =>
      rw [Defect.message?]
      exact if_congr Defect.rowsFit_overlap.symm rfl rfl
  | unresolved name field => exact (if_pos fun n hn => absurd hn List.not_mem_nil).symm
  | outside violation =>
      obtain ⟨hcols, hrows⟩ := (Settings.errors_eq_nil_iff.mp hs).1.grid_inLimits
      have hof : Violation.of? c.range s.grid = some violation := by
        simpa [defects] using hd
      rw [Violation.of?] at hof
      split at hof
      · cases hof
        have hletters : Column.lettersOfInt? (s.grid.1 - 1) = .ok (Column.letters (s.grid.1 - 1).toNat) :=
          if_pos (by have := Settings.inGridLimits_iff.mp hcols; omega)
        rw [if_pos (show Defect.RowsFit (.outside (.column ..)) from fun n hn => absurd hn List.not_mem_nil),
          Defect.message?, Violation.message?, hletters]
        rfl
      split at hof
      · cases hof
        rw [Defect.message?, Violation.message?, Violation.isWritable_of_inGridLimits hrows, Bool.and_true]
        exact if_congr Defect.rowsFit_row.symm rfl rfl
      · cases hof

end Component

namespace Document

variable {s : Settings} {cs : List Component} {before : List Range} {index : Nat}

/-- The issues of components one after another, each set against the ranges before it. -/
theorem exists_issuesFrom (s : Settings) (index : Nat) (before : List Range) (cs : List Component) :
    ∃ defects : List (List Defect), issuesFrom s index before cs =
        (defects.zipIdx index).flatMap (fun e => e.1.map (⟨e.2, ·⟩)) ∧ defects.length = cs.length ∧
      ∀ front c back, cs = front ++ c :: back →
        ∃ ds, defects[front.length]? = some ds ∧ c.HasDefects s (before ++ front.map (·.range)) ds := by
  induction cs generalizing index before with
  | nil => exact ⟨[], rfl, rfl, fun front c back h => absurd h (by simp)⟩
  | cons c cs ih =>
      obtain ⟨defects, hissues, hlength, hdefects⟩ := ih (index + 1) (before ++ [c.range])
      refine ⟨c.defects s before :: defects, ?_, congrArg (· + 1) hlength, fun front c' back hsplit => ?_⟩
      · rw [issuesFrom, hissues, List.zipIdx_cons, List.flatMap_cons]
      · cases front with
        | nil =>
            obtain ⟨rfl, rfl⟩ := List.cons.inj hsplit
            refine ⟨_, rfl, ?_⟩
            rw [List.map_nil, List.append_nil]
            exact c.hasDefects_defects s before
        | cons first front =>
            obtain ⟨rfl, hrest⟩ := List.cons.inj hsplit
            obtain ⟨ds, hds, hhas⟩ := hdefects front c' back hrest
            refine ⟨ds, hds, ?_⟩
            rwa [List.append_assoc, List.singleton_append] at hhas

theorem mem_defects_of_mem_issuesFrom {i : Issue} (h : i ∈ issuesFrom s index before cs) :
    ∃ c ∈ cs, ∃ taken, i.defect ∈ c.defects s taken := by
  induction cs generalizing index before with
  | nil => exact absurd h List.not_mem_nil
  | cons c cs ih =>
      rcases List.mem_append.mp h with h | h
      · obtain ⟨d, hd, rfl⟩ := List.mem_map.mp h
        exact ⟨c, List.mem_cons_self, before, hd⟩
      · obtain ⟨c', hc', taken, hd⟩ := ih h
        exact ⟨c', List.mem_cons_of_mem c hc', taken, hd⟩

theorem known_iff_exists {palette : Palette} {c : Component} :
    Known palette c ↔ ∀ name, c.bg = some ("$" ++ name) ∨ c.border = some ("$" ++ name) →
      ∃ color, (name, color) ∈ palette := by
  constructor
  · intro h name hname
    exact Color.lookup_isSome_iff.mp (h ("$" ++ name) (Component.mem_colors.mpr hname) name
      (Color.reference?_eq_some_iff.mpr rfl))
  · intro h color hcolor name hname
    rw [Color.reference?_eq_some_iff.mp hname] at hcolor
    exact Color.lookup_isSome_iff.mpr (h name (Component.mem_colors.mp hcolor))

end Document

theorem pairwise_of_countP_le_one {cs : List Component}
    (h : ∀ cell, cs.countP (fun c => cell ∈ c.range.cells) ≤ 1) :
    cs.Pairwise fun a b => ∀ cell ∈ a.range.cells, cell ∉ b.range.cells := by
  induction cs with
  | nil => exact List.Pairwise.nil
  | cons c cs ih =>
      refine List.pairwise_cons.mpr ⟨fun other hother cell hcell hshared => ?_, ih fun cell => ?_⟩
      · have hone := h cell
        rw [List.countP_cons_of_pos (by simpa using hcell)] at hone
        have hmore : 0 < cs.countP fun c => decide (cell ∈ c.range.cells) :=
          List.countP_pos_iff.mpr ⟨other, hother, by simpa using hshared⟩
        omega
      · exact Nat.le_trans (List.sublist_cons_self c cs).countP_le (h cell)

theorem laidOut_iff {cs : List Component} {grid : Int × Int} : LaidOut cs grid ↔
    (∀ cell, cs.countP (fun c => cell ∈ c.range.cells) ≤ 1) ∧
      ∀ c ∈ cs, ∀ cell ∈ c.range.cells, cell.IsOn grid :=
  ⟨fun h => ⟨h.countP_le_one, h.inside⟩, fun h => ⟨pairwise_of_countP_le_one h.1, h.2⟩⟩

namespace Document

/-- A document keeps the rules for components: every cell belongs to at most one of them, all cells lie on the
grid, and the palette has every name that they refer to. -/
structure IsClean (doc : Document) : Prop where
  once : ∀ cell, doc.components.countP (fun c => cell ∈ c.range.cells) ≤ 1
  onGrid : ∀ c ∈ doc.components, ∀ cell ∈ c.range.cells, cell.IsOn doc.settings.grid
  known : ∀ c ∈ doc.components, ∀ name, c.bg = some ("$" ++ name) ∨ c.border = some ("$" ++ name) →
    ∃ color, (name, color) ∈ doc.settings.palette

/-- All that is wrong with a document can be told. -/
def RowsFit (doc : Document) : Prop := ∀ i ∈ doc.issues, i.defect.RowsFit

instance (doc : Document) : Decidable doc.RowsFit := List.decidableBAll _ _

variable {doc : Document}

theorem issues_eq_nil_iff : doc.issues = [] ↔ doc.IsClean := by
  rw [issues, issuesFrom_eq_nil_iff_laidOut, laidOut_iff]
  simp only [known_iff_exists]
  constructor
  · rintro ⟨-, ⟨honce, honGrid⟩, hknown⟩
    exact ⟨honce, honGrid, hknown⟩
  · rintro ⟨honce, honGrid, hknown⟩
    exact ⟨fun r hr => absurd hr List.not_mem_nil, ⟨honce, honGrid⟩, hknown⟩

theorem rowsFit_of_isClean (h : doc.IsClean) : doc.RowsFit := by
  intro i hi
  rw [issues_eq_nil_iff.mpr h] at hi
  exact absurd hi List.not_mem_nil

theorem validate_eq_ite (hsettings : doc.settings.errors = []) :
    doc.validate = if doc.RowsFit then .ok (doc.issues.map Issue.complaint) else .error .unwritable := by
  refine Results.mapM_eq_ite fun i hi => ?_
  obtain ⟨c, -, taken, hdefect⟩ := mem_defects_of_mem_issuesFrom hi
  rw [Issue.complaint?, Component.message?_eq_ite hsettings hdefect]
  split <;> rfl

theorem isValid_eq_ite (hsettings : doc.settings.errors = []) :
    doc.isValid = if doc.RowsFit then .ok doc.issues.isEmpty else .error .unwritable := by
  rw [isValid, validate_eq_ite hsettings]
  split
  · exact congrArg Except.ok List.isEmpty_map
  · rfl

/-- The issues of any document. They stand by component, in the order of the components; those of one
component are that it shares a cell with the components before it, said of the first of these, that it leaves
the grid, and that the palette lacks the name of its background and that of its border. There are none exactly
when the document keeps the rules. Under settings that keep theirs all issues are told, and the document is
valid exactly when there are none; but where a row number may not be written in one of them, nothing is told
and the document is not even found invalid. -/
theorem issues_exact (doc : Document) :
    (∃ defects : List (List Defect),
      doc.issues = defects.zipIdx.flatMap (fun e => e.1.map (⟨e.2, ·⟩)) ∧
      defects.length = doc.components.length ∧
      ∀ front c back, doc.components = front ++ c :: back →
        ∃ ds, defects[front.length]? = some ds ∧ c.HasDefects doc.settings (front.map (·.range)) ds) ∧
    (doc.issues = [] ↔ doc.IsClean) ∧
    (doc.settings.errors = [] →
      doc.validate = (if doc.RowsFit then .ok (doc.issues.map Issue.complaint) else .error .unwritable) ∧
      (doc.isValid = .ok true ↔ doc.IsClean) ∧
      (doc.isValid = .ok false ↔ ¬doc.IsClean ∧ doc.RowsFit) ∧
      ∀ e, doc.isValid = .error e ↔ ¬doc.RowsFit ∧ e = .unwritable) := by
  refine ⟨exists_issuesFrom doc.settings 0 [] doc.components, issues_eq_nil_iff, fun hsettings =>
    ⟨validate_eq_ite hsettings, ?_⟩⟩
  rw [isValid_eq_ite hsettings]
  by_cases hfit : doc.RowsFit
  · rw [if_pos hfit, Except.ok.injEq, Except.ok.injEq, List.isEmpty_iff, List.isEmpty_eq_false_iff, ne_eq,
      issues_eq_nil_iff]
    exact ⟨Iff.rfl, (and_iff_left hfit).symm, fun e => iff_of_false (fun h => by cases h) fun h => h.1 hfit⟩
  · rw [if_neg hfit]
    refine ⟨iff_of_false (fun h => by cases h) fun h => hfit (rowsFit_of_isClean h),
      iff_of_false (fun h => by cases h) fun h => hfit h.2, fun e => ?_⟩
    rw [Except.error.injEq, eq_comm]
    exact (and_iff_right hfit).symm

theorem errors_default : Settings.errors {} = [] := by
  refine Settings.errors_eq_nil_iff.mpr ⟨Settings.isSound_default, fun axis => ?_⟩
  cases axis <;> rfl

/-- Of two boxes the first refers to a color that is not there, and the second overlaps it. -/
theorem issues_exact_of_overlap : ∃ doc : Document,
    doc = ⟨{}, [⟨.spanning ⟨0, 0⟩ ⟨1, 1⟩, none, some "$ink", none, .box⟩,
      ⟨.single ⟨1, 1⟩, none, none, none, .box⟩]⟩ ∧
    doc.settings.errors = [] ∧
    doc.validate = .ok [⟨0, "Unknown theme color '$ink' in bg", "unresolved_color"⟩,
      ⟨1, "Cell overlap: B2 overlaps A1..B2", "overlap"⟩] ∧
    doc.isValid = .ok false ∧ ¬doc.IsClean := by
  obtain ⟨doc, hdoc⟩ : ∃ doc : Document, doc = ⟨{}, [⟨.spanning ⟨0, 0⟩ ⟨1, 1⟩, none, some "$ink", none, .box⟩,
    ⟨.single ⟨1, 1⟩, none, none, none, .box⟩]⟩ := ⟨_, rfl⟩
  have hsettings : doc.settings.errors = [] := by
    rw [hdoc]
    exact errors_default
  have hvalidate : doc.validate.toOption = some [⟨0, "Unknown theme color '$ink' in bg", "unresolved_color"⟩,
      ⟨1, "Cell overlap: B2 overlaps A1..B2", "overlap"⟩] := by
    rw [hdoc]
    decide +kernel
  have hvalid : doc.isValid.toOption = some false := by
    rw [hdoc]
    decide +kernel
  rw [Results.toOption_eq_some] at hvalidate hvalid
  obtain ⟨-, -, hfalse, -⟩ := (issues_exact doc).2.2 hsettings
  exact ⟨doc, hdoc, hsettings, hvalidate, hvalid, (hfalse.mp hvalid).1⟩

/-- The row number of the only issue has one digit too many. -/
theorem issues_unwritable :
    ∃ (doc : Document) (row : Nat), row = 10 ^ Numeral.maxDigits - 1 ∧
      doc = ⟨{}, [⟨.single ⟨0, row⟩, none, none, none, .box⟩]⟩ ∧ doc.settings.errors = [] ∧
      doc.issues = [⟨0, .outside (.row row 3)⟩] ∧ doc.validate = .error .unwritable ∧
      doc.isValid = .error .unwritable := by
  obtain ⟨row, hrow⟩ : ∃ row, row = 10 ^ Numeral.maxDigits - 1 := ⟨_, rfl⟩
  obtain ⟨doc, hdoc⟩ : ∃ doc : Document, doc = ⟨{}, [⟨.single ⟨0, row⟩, none, none, none, .box⟩]⟩ := ⟨_, rfl⟩
  have hlimit : 10 ^ 1 ≤ 10 ^ Numeral.maxDigits := Nat.pow_le_pow_right (by decide) (by decide)
  have hviolation : Violation.of? (.single ⟨0, row⟩) (4, 3) = some (.row row 3) := by
    have hcols : ¬(4 : Int) ≤ (0 : Nat) := by decide
    have hrows : (3 : Int) ≤ row := by omega
    exact (if_neg hcols).trans (if_pos hrows)
  have hissues : doc.issues = [⟨0, .outside (.row row 3)⟩] := by
    rw [hdoc]
    simp only [issues, issuesFrom, Component.defects, hviolation]
    rfl
  have hsettings : doc.settings.errors = [] := by
    rw [hdoc]
    exact errors_default
  have hlong : ¬doc.RowsFit := by
    rw [RowsFit, hissues, List.forall_mem_singleton, Defect.RowsFit, Defect.rowNumbers,
      List.forall_mem_singleton]
    omega
  have hvalidate := validate_eq_ite hsettings
  have hvalid := isValid_eq_ite hsettings
  rw [if_neg hlong] at hvalidate hvalid
  exact ⟨doc, row, hrow, hdoc, hsettings, hissues, hvalidate, hvalid⟩

end Document
end Wireframe
