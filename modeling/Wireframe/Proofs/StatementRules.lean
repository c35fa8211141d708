import Wireframe.Proofs.FloatSigns
import Wireframe.Proofs.ReaderOutcome
import Wireframe.Proofs.TokenShape
import Wireframe.Statement.Grammar

/-! The rules that statements keep by themselves. On tokens that can be read for numbers the reader of a
statement ends in one that keeps the rules of its kind, or in a report (`meets_reader`). -/

namespace Wireframe.Statement

open Reader

/-- What a statement says is right by itself. -/
def IsSound : Statement → Prop
  | ratio width height => 0 < width ∧ 0 < height
  | grid cols rows _ => Settings.inGridLimits cols = true ∧ Settings.inGridLimits rows = true
  | gap pixels | padding pixels => Component.notNegative pixels = true
  | colors _ => True
  | theme name => ∃ t, Theme.named? (some name) = .ok t
  | weights _ values _ => ∀ w ∈ values, Settings.isPositive w = true
  | component range _ _ => range.isWritable = true

/-- Numbers can be read from the token. -/
def Readable (t : Token) : Prop := Token.IsReadable t.kind t.value.toList

variable {t : Token}

theorem reported_terms (hkind : t.kind ∈ Token.termKinds) (ht : Readable t) :
    Reported (fun _ => True) (terms t) := by
  have hruns := ht.runs (List.mem_append_left _ hkind)
  have hfirst : ((t.value.toList).takeWhile Char.isDigit).length ≤ Numeral.maxDigits :=
    hruns _ (List.takeWhile_prefix _).isInfix (List.all_eq_true.mp List.all_takeWhile)
  have hsecond : ((t.value.toList.dropWhile Char.isDigit).drop 1).length ≤ Numeral.maxDigits :=
    hruns _ ((List.drop_suffix _ _).trans (List.dropWhile_suffix _)).isInfix (ht.terms hkind)
  rw [terms]
  simp only [Numeral.read_of_length_le hfirst, Numeral.read_of_length_le hsecond]
  trivial

theorem reported_termsIn {rule : Nat → Bool} {fault : String → SemanticFault}
    (hfault : ∀ text, (fault text).IsSayable) (hkind : t.kind ∈ Token.termKinds) (ht : Readable t) :
    Reported (fun r => rule r.1 = true ∧ rule r.2 = true) (termsIn rule fault t) := by
  have hterms := reported_terms hkind ht
  rw [termsIn]
  cases hr : terms t with
  | error e =>
      rw [hr] at hterms
      exact hterms
  | ok r =>
      simp only
      split
      · next hrule =>
        rw [Bool.and_eq_true] at hrule
        exact hrule
      · exact hfault t.value

theorem reported_ratioTerms (hkind : t.kind ∈ Token.termKinds) (ht : Readable t) :
    Reported (fun r => 0 < r.1 ∧ 0 < r.2) (ratioTerms t) := by
  have hterms : Reported (fun r => decide (0 < r.1) = true ∧ decide (0 < r.2) = true) (ratioTerms t) :=
    reported_termsIn (fun _ => trivial) hkind ht
  simpa only [decide_eq_true_eq] using hterms

theorem reported_gridTerms (hkind : t.kind ∈ Token.termKinds) (ht : Readable t) :
    Reported (fun g => Settings.inGridLimits g.1 = true ∧ Settings.inGridLimits g.2 = true)
      (gridTerms t) :=
  reported_termsIn (fun _ => trivial) hkind ht

theorem reported_themeName :
    Reported (fun name => ∃ theme, Theme.named? (some name) = .ok theme) (themeName t) := by
  rw [themeName]
  split
  · next theme h => exact ⟨theme, h⟩
  · trivial

theorem reported_weight : Reported (fun w => Settings.isPositive w = true) (weight t) := by
  rw [weight]
  split
  · assumption
  · trivial

theorem reported_someWeights {listed : List Float × Token}
    (h : ∀ w ∈ listed.1, Settings.isPositive w = true) :
    Reported (fun ws => ∀ w ∈ ws, Settings.isPositive w = true) (someWeights listed) := by
  rw [someWeights]
  split
  · trivial
  · exact h

theorem reported_rangeOf (hkind : t.kind ∈ Token.cellKinds) (ht : Readable t) :
    Reported (fun range => range.isWritable = true) (rangeOf t) := by
  have hruns := ht.runs (List.mem_append_right _ hkind)
  rw [rangeOf]
  split
  · next range h => exact Range.isWritable_of_read h
  · next e h => exact absurd h (Range.read_ne_numeral (ht.plain hkind) hruns)
  · trivial

variable {T : Token → Prop}

theorem meets_entry {what : String} {value : Reader Token} {P : Token → Prop}
    (h : Meets T value P) : Meets T (entry what value) fun _ => True :=
  meets_oneOf.andThen fun _ _ => meets_token.andThen fun _ _ => h.map fun _ _ => trivial

theorem meets_colorEntry : Meets T colorEntry fun _ => True := meets_entry meets_oneOf

theorem meets_propertyEntry : Meets T propertyEntry fun _ => True :=
  meets_entry (meets_oneOfOr fun _ _ => trivial)

theorem meets_settingValue (key : Token) (s : Setting) :
    Meets Readable (settingValue key s) IsSound := by
  cases s with
  | ratio =>
      refine (meets_token.check fun t h => ?_).map fun _ h => h
      exact reported_ratioTerms (h.1 ▸ by decide) h.2
  | grid =>
      refine meets_token.check fun t h => ?_
      exact (reported_gridTerms (h.1 ▸ by decide) h.2).map fun _ h => h
  | gap => exact meets_token.map fun t _ => Decimal.notNegative_read t.value.toList
  | padding => exact meets_token.map fun t _ => Decimal.notNegative_read t.value.toList
  | colors => exact meets_colorEntry.block.map fun _ _ => trivial
  | theme => exact (meets_oneOf.check fun _ _ => reported_themeName).map fun _ h => h
  | weights axis =>
      refine ((Meets.block ?_).check fun _ h => reported_someWeights h).map fun _ h => h
      exact meets_token.check fun _ _ => reported_weight

theorem meets_componentValue (key : Token) {range : Range} (h : range.isWritable = true) :
    Meets T (componentValue key range) IsSound :=
  meets_propertyEntry.block.afterNewlines.map fun _ _ => h

/-- The range of a component can be written. -/
def Subject.IsSound : Subject → Prop
  | setting _ => True
  | component range => range.isWritable = true

theorem Subject.reported_ofToken (hkind : t.kind ∈ [.identifier, .cellRef, .cellRange])
    (ht : Readable t) : Reported IsSound (ofToken t) := by
  rw [ofToken]
  split
  · split <;> trivial
  · next hcell => exact (reported_rangeOf ((List.mem_cons.mp hkind).resolve_left hcell) ht).map fun _ h => h

theorem Subject.meets_value {subject : Subject} (key : Token) (h : subject.IsSound) :
    Meets Readable (subject.value key) Statement.IsSound := by
  cases subject with
  | setting s => exact meets_settingValue key s
  | component range => exact meets_componentValue key h

/-- A statement that is read keeps its rules, and one that is not is reported. -/
theorem meets_reader : Meets Readable reader IsSound := by
  have hsubject : Meets Readable ((oneOf [.identifier, .cellRef, .cellRange]
      "metadata key or cell reference").check fun t => (Subject.ofToken t).map (t, ·))
      fun r => r.2.IsSound :=
    meets_oneOf.check fun t h => (Subject.reported_ofToken h.1 h.2).map fun _ hs => hs
  exact hsubject.andThen fun r hr => meets_token.andThen fun _ _ => Subject.meets_value r.1 hr

end Wireframe.Statement
