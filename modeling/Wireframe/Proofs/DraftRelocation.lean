import Wireframe.Proofs.DraftRun
import Wireframe.Proofs.KeyedEntries
import Wireframe.Proofs.ReaderPlaces

/-! Drafts and moved positions. A draft looks at positions only to report them, so what a step makes of a
draft moves with the positions (`Draft.accept_moved`), and so do a whole run and its end
(`Document.ofTokens_moved`). Hence tokens of the same shapes make the same document or fail for the same
reason (`Document.endsLike_of_shapes`), and a failure is told where a token stands or where a text starts
(`Document.location_of_ofTokens`). -/

namespace Wireframe

namespace Draft

variable {f : Location → Location}

/-- The draft with the positions that it keeps moved. -/
def moved (f : Location → Location) (d : Draft) : Draft :=
  { d with colWidthsAt := f d.colWidthsAt, rowHeightsAt := f d.rowHeightsAt }

section Entries

variable {entries : List (String × Token)}

theorem lookup_movedEntry (key : String) :
    (entries.map (Token.movedEntry f)).lookup key = (entries.lookup key).map (Token.moved f) :=
  Keyed.lookup_map (Token.moved f) entries key

theorem chooseKind_moved : chooseKind (entries.map (Token.movedEntry f)) =
    (chooseKind entries).mapError (SemanticFault.moved f) := by
  rw [chooseKind, chooseKind, lookup_movedEntry]
  cases entries.lookup "type" with
  | none => rfl
  | some t =>
      have hvalue : (t.moved f).value = t.value := rfl
      simp only [Option.map_some, hvalue]
      split <;> rfl

theorem chooseAlign_moved : chooseAlign (entries.map (Token.movedEntry f)) =
    (chooseAlign entries).mapError (SemanticFault.moved f) := by
  rw [chooseAlign, chooseAlign, lookup_movedEntry]
  cases entries.lookup "align" with
  | none => rfl
  | some t =>
      have hvalue : (t.moved f).value = t.value := rfl
      simp only [Option.map_some, hvalue]
      split <;> rfl

theorem chooseColor_moved (d : Draft) (key : String) :
    (d.moved f).chooseColor key (entries.map (Token.movedEntry f)) =
      (d.chooseColor key entries).mapError (SemanticFault.moved f) := by
  have hsettings : (d.moved f).settings = d.settings := rfl
  rw [chooseColor, chooseColor, lookup_movedEntry, hsettings]
  cases entries.lookup key with
  | none => rfl
  | some t =>
      have hvalue : (t.moved f).value = t.value := rfl
      simp only [Option.map_some, hvalue]
      split <;> rfl

theorem checkOverlap_moved (d : Draft) (range : Range) :
    (d.moved f).checkOverlap range = (d.checkOverlap range).mapError (SemanticFault.moved f) := by
  have hcomponents : (d.moved f).components = d.components := rfl
  rw [checkOverlap, checkOverlap, hcomponents]
  split <;> rfl

theorem checkBounds_moved (d : Draft) (range : Range) :
    (d.moved f).checkBounds range = (d.checkBounds range).mapError (SemanticFault.moved f) := by
  have hsettings : (d.moved f).settings = d.settings := rfl
  rw [checkBounds, checkBounds, hsettings]
  split <;> rfl

theorem choose_moved (d : Draft) (range : Range) :
    (d.moved f).choose range (entries.map (Token.movedEntry f)) =
      (d.choose range entries).mapError (SemanticFault.moved f) := by
  simp only [choose, Results.mapError_bind, chooseKind_moved, chooseAlign_moved, checkOverlap_moved,
    checkBounds_moved, chooseColor_moved]
  rfl

theorem collect_moved (kind : Component.Kind) (p : Component.Properties) :
    (collect kind p (entries.map (Token.movedEntry f))).value =
      Failure.carry f id (collect kind p entries).value := by
  induction entries generalizing p with
  | nil => rfl
  | cons e rest ih =>
      obtain ⟨key, t⟩ := e
      have hkind : (t.moved f).kind = t.kind := rfl
      rw [List.map_cons, Token.movedEntry, collect, collect, hkind]
      split
      · exact ih p
      split
      · split
        · exact ih _
        · rfl
      · exact ih _

end Entries

theorem component_moved (d : Draft) (range : Range) (listed : List (String × Token)) (location : Location) :
    ((d.moved f).component range (listed.map (Token.movedEntry f)) (f location)).value =
      Failure.carry f id (d.component range listed location).value := by
  have hentries : Keyed.ofEntries (listed.map (Token.movedEntry f)) =
      (Keyed.ofEntries listed).map (Token.movedEntry f) := Keyed.ofEntries_map (Token.moved f) listed
  have herase : Keyed.erase "type" ((Keyed.ofEntries listed).map (Token.movedEntry f)) =
      (Keyed.erase "type" (Keyed.ofEntries listed)).map (Token.movedEntry f) :=
    Keyed.erase_map (Token.moved f) "type" _
  rw [component, component, hentries, choose_moved, herase]
  cases d.choose range (Keyed.ofEntries listed) with
  | error fault => rfl
  | ok choice =>
      simp only [Except.mapError, Noted.value_bind, Noted.value_pure, collect_moved]
      cases (collect choice.kind _ (Keyed.erase "type" (Keyed.ofEntries listed))).value with
      | error e => rfl
      | ok p =>
          simp only [Failure.carry, Except.map, Except.mapError, Except.bind, id]
          cases Component.ofProperties choice.kind range p <;> rfl

/-- The draft after a statement at moved positions is the draft after it, moved. -/
theorem accept_moved (d : Draft) (s : Statement) :
    ((d.moved f).accept (s.moved f)).value = Failure.carry f (moved f) (d.accept s).value := by
  cases s with
  | grid cols rows location =>
      have hexcluded : (d.moved f).excluded? cols rows = d.excluded? cols rows := rfl
      simp only [Statement.moved, accept, Noted.value_pure, hexcluded]
      cases hfault : d.excluded? cols rows with
      | none => rfl
      | some fault =>
          obtain ⟨c, -, hc⟩ := List.exists_of_findSome?_eq_some hfault
          obtain ⟨violation, -, rfl⟩ := Option.map_eq_some_iff.mp hc
          rfl
  | component range listed location =>
      simp only [Statement.moved, accept, Noted.value_bind, Noted.value_pure, component_moved]
      cases (d.component range listed location).value <;> rfl
  | weights axis values location => cases axis <;> rfl
  | ratio | gap | padding | colors | theme => rfl

theorem extend_moved (d : Draft) (stop : Token) (ts : List Token) :
    ((d.moved f).extend (stop.moved f) (ts.map (Token.moved f))).value =
      Failure.carry f (moved f) (d.extend stop ts).value := by
  rw [value_extend, value_extend, Reader.skipNewlines_moved]
  by_cases hnil : Reader.skipNewlines ts = []
  · rw [hnil]
    rfl
  have hmoved : ¬(Reader.skipNewlines ts).map (Token.moved f) = [] := by rwa [List.map_eq_nil_iff]
  rw [if_neg hnil, if_neg hmoved, Statement.moves_reader]
  cases hrun : Statement.reader.run stop (Reader.skipNewlines ts) with
  | error e => rfl
  | ok r =>
      obtain ⟨s, rest⟩ := r
      simp only [Failure.carry, Except.map, Except.mapError, accept_moved]
      cases (d.accept s).value with
      | error e => rfl
      | ok d' =>
          have hshorter : rest.length < ts.length :=
            Nat.lt_of_lt_of_le (Statement.reader.length_lt hrun) (Reader.length_skipNewlines_le ts)
          have hline : LineEnds (stop.moved f) (rest.map (Token.moved f)) ↔ LineEnds stop rest := by
            rw [LineEnds, LineEnds, Reader.front_moved, List.map_eq_nil_iff]
            rfl
          simp only [hline]
          by_cases hend : LineEnds stop rest
          · rw [if_pos hend, if_pos hend]
            exact extend_moved d' stop rest
          · rw [if_neg hend, if_neg hend]
            exact congrArg Except.error (Reader.missing_moved ..)
  termination_by ts.length

theorem checkCount_moved (d : Draft) (axis : Axis) (location : Location) :
    (d.moved f).checkCount axis (f location) = Failure.carry f id (d.checkCount axis location) := by
  have hsettings : (d.moved f).settings = d.settings := rfl
  rw [checkCount, checkCount, hsettings]
  split <;> rfl

theorem finish_moved (d : Draft) : (d.moved f).finish = Failure.carry f id d.finish := by
  have hcols : (d.moved f).checkCount .columns (d.moved f).colWidthsAt =
      Failure.carry f id (d.checkCount .columns d.colWidthsAt) := checkCount_moved d .columns _
  have hrows : (d.moved f).checkCount .rows (d.moved f).rowHeightsAt =
      Failure.carry f id (d.checkCount .rows d.rowHeightsAt) := checkCount_moved d .rows _
  have hsettings : (d.moved f).settings = d.settings := rfl
  rw [finish, finish, hcols, hrows, hsettings]
  cases d.checkCount .columns d.colWidthsAt with
  | error e => rfl
  | ok =>
      cases d.checkCount .rows d.rowHeightsAt with
      | error e => rfl
      | ok =>
          by_cases hnone : d.settings.errors = []
          · simp only [if_pos hnone]
            rfl
          · simp only [if_neg hnone]
            rfl

end Draft

/-- The tokens with their positions moved. -/
def Tokens.moved (f : Location → Location) (ts : Tokens) : Tokens :=
  ⟨ts.list.map (Token.moved f), f ts.stop⟩

namespace Failure

variable {f : Location → Location} {e e' : Failure}

/-- The failures say the same: what has a position says it in the same words of the same stage, wherever it
is, and what has none is the same. -/
inductive SaysLike : Failure → Failure → Prop
  | told {e e' : Failure} {r r' : Report} (h : e.report? = some r) (h' : e'.report? = some r')
      (hstage : r.stage = r'.stage) (hmessage : r.message = r'.message) : SaysLike e e'
  | untold {e : Failure} (h : e.report? = none) : SaysLike e e

/-- The same value, or failures that say the same. -/
inductive EndsLike {α : Type} : Except Failure α → Except Failure α → Prop
  | ok (a : α) : EndsLike (.ok a) (.ok a)
  | error {e e' : Failure} (h : e.SaysLike e') : EndsLike (.error e) (.error e')

/-- A failure that is moved is told in the same words at the place that its position is moved to. -/
theorem report?_moved (e : Failure) :
    (e.moved f).report? = e.report?.map fun r => { r with location := f r.location } := by
  cases e with
  | grammar fault location => cases fault <;> rfl
  | semantic fault location => cases fault <;> rfl
  | lexical | numeral | invalid => rfl

theorem moved_of_report?_eq_none (h : e.report? = none) : e.moved f = e := by
  cases e with
  | numeral | invalid => rfl
  | lexical | grammar | semantic => cases h

theorem saysLike_of_moved (h : e.moved f = e'.moved f) : e.SaysLike e' := by
  have hreports := congrArg report? h
  rw [report?_moved, report?_moved] at hreports
  cases hr : e.report? with
  | none =>
      have hr' : e'.report? = none := by
        rw [hr] at hreports
        exact Option.map_eq_none_iff.mp hreports.symm
      rw [moved_of_report?_eq_none hr, moved_of_report?_eq_none hr'] at h
      exact h ▸ .untold hr
  | some r =>
      rw [hr] at hreports
      obtain ⟨r', hr', hsame⟩ := Option.map_eq_some_iff.mp hreports.symm
      obtain ⟨hstage, hmessage, -⟩ := Report.mk.inj hsame
      exact .told hr hr' hstage.symm hmessage.symm

theorem endsLike_of_carry {α : Type} {x y : Except Failure α} (h : carry f id x = carry f id y) :
    EndsLike x y := by
  cases x with
  | error e =>
      cases y with
      | error e' => exact .error (saysLike_of_moved (Except.error.inj h))
      | ok a => cases h
  | ok a =>
      cases y with
      | error e' => cases h
      | ok b =>
          obtain rfl : a = b := Except.ok.inj h
          exact .ok a

end Failure

namespace Document

variable {f : Location → Location}

/-- The document of tokens at moved positions, or why there is none, moved. -/
theorem ofTokens_moved (hstart : f .start = .start) (ts : Tokens) :
    (ofTokens (ts.moved f)).value = Failure.carry f id (ofTokens ts).value := by
  have hempty : ({} : Draft).moved f = {} := by rw [Draft.moved, hstart]
  have hextend := Draft.extend_moved (f := f) {} ts.last ts.list
  rw [hempty] at hextend
  have hlast : (ts.moved f).last = ts.last.moved f := rfl
  rw [value_ofTokens, value_ofTokens, hlast]
  show ((Draft.extend {} (ts.last.moved f) (ts.list.map (Token.moved f))).value.bind Draft.finish) = _
  rw [hextend]
  cases (Draft.extend {} ts.last ts.list).value with
  | error e => rfl
  | ok d => exact Draft.finish_moved d

/-- Tokens of the same shapes make the same document, or fail for the same reason. -/
theorem endsLike_of_shapes {ts ts' : Tokens} (h : Reader.SameShapes ts.list ts'.list) :
    Failure.EndsLike (ofTokens ts).value (ofTokens ts').value := by
  have hsame : ts.moved (fun _ => .start) = ts'.moved fun _ => .start :=
    congrArg (Tokens.mk · .start) (h.map_moved .start)
  apply Failure.endsLike_of_carry (f := fun _ => .start)
  rw [← ofTokens_moved rfl, ← ofTokens_moved rfl, hsame]

/-- A failure is told where a token stands, or where a text starts. -/
theorem location_of_ofTokens {ts : Tokens} {e : Failure} {r : Report} (h : (ofTokens ts).value = .error e)
    (hr : e.report? = some r) : r.location = .start ∨ ∃ t ∈ ts.all, t.location = r.location := by
  classical
  -- all other positions moved away, the tokens stay where they are, and so does what they fail with
  let f (l : Location) : Location := if ∃ t ∈ ts.all, t.location = l then l else .start
  have hstay : ∀ t ∈ ts.all, f t.location = t.location := fun t ht => if_pos ⟨t, ht, rfl⟩
  have hlist : ts.list.map (Token.moved f) = ts.list := by
    have hself : ∀ t ∈ ts.list, t.moved f = id t := fun t ht =>
      congrArg (Token.mk t.kind t.value) (hstay t (List.mem_append_left _ ht))
    rw [List.map_congr_left hself, List.map_id]
  have hstop : f ts.stop = ts.stop := hstay ts.last (List.mem_append_right _ (List.mem_singleton_self _))
  have hts : ts.moved f = ts := by rw [Tokens.moved, hlist, hstop]
  have hmoved := ofTokens_moved (f := f) (ite_self _) ts
  rw [hts, h] at hmoved
  have hreport := congrArg Failure.report? (Except.error.inj hmoved)
  rw [Failure.report?_moved, hr] at hreport
  have hlocation : r.location = f r.location := congrArg Report.location (Option.some.inj hreport)
  by_cases hmem : ∃ t ∈ ts.all, t.location = r.location
  · exact Or.inr hmem
  · exact Or.inl (hlocation.trans (if_neg hmem))

end Document
end Wireframe
