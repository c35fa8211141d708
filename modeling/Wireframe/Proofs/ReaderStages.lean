import Wireframe.Proofs.DocumentPhrases

/-! Stages of failures. What can go wrong in a reader is kept by each way of combining readers, which adds
faults of the grammar only (`Fails.andThen` to `Fails.block`). Whatever a reader of tokens refuses is no fault
of the text as such, so a document fails for a lexical fault exactly where its text has no tokens
(`Document.read_eq_lexical_iff`). -/

namespace Wireframe

/-- The failure is found after the text has been cut into tokens. -/
def Failure.IsLate (e : Failure) : Prop := ∀ fault location, e ≠ .lexical fault location

theorem InOrder.isLate {α : Type} {P : α → Prop} {x : Except Failure α} {e : Failure} (h : InOrder P x)
    (hx : x = .error e) : e.IsLate := by
  rintro fault location rfl
  exact h.of_eq_error hx

namespace Reader

/-- The reader fails in such a way, if at all. -/
def Fails {α : Type} (p : Reader α) (F : Failure → Prop) : Prop := ∀ stop ts e, p.run stop ts = .error e → F e

variable {α β : Type} {p : Reader α} {F : Failure → Prop} {kinds : List Token.Kind} {kind closing : Token.Kind}
  {wanted context : String} {stop : Token} {ts : List Token} {e : Failure}

theorem fails_oneOfOr {failure : Token → List Token → Failure} (hfailure : ∀ stop ts, F (failure stop ts)) :
    (oneOfOr kinds failure).Fails F := by
  intro stop ts e h
  cases ts with
  | nil =>
      cases h
      exact hfailure stop []
  | cons t rest =>
      simp only [oneOfOr] at h
      split at h
      · cases h
      · cases h
        exact hfailure stop _

theorem Fails.andThen {f : α → Reader β} (hp : p.Fails F) (hf : ∀ a, (f a).Fails F) :
    (p.andThen f).Fails F := by
  intro stop ts e h
  rcases andThen_eq_error.mp h with h | ⟨a, mid, -, h⟩
  · exact hp _ _ _ h
  · exact hf a _ _ _ h

theorem Fails.check {f : α → Except Failure β} (hp : p.Fails F) (hf : ∀ a e, f a = .error e → F e) :
    (p.check f).Fails F := by
  intro stop ts e h
  rcases check_eq_error.mp h with h | ⟨a, mid, -, h⟩
  · exact hp _ _ _ h
  · exact hf a e h

theorem Fails.map {f : α → β} (hp : p.Fails F) : (p.map f).Fails F := hp.check fun _ _ h => by cases h

theorem Fails.afterNewlines (hp : p.Fails F) : p.afterNewlines.Fails F :=
  fun stop ts => hp stop (skipNewlines ts)

section Grammar

/-! Readers that combine others fail by themselves only where the grammar is broken. -/

variable (hF : ∀ fault location, F (.grammar fault location))

include hF

theorem fails_oneOf : (oneOf kinds wanted).Fails F := fails_oneOfOr fun _ _ => hF _ _

theorem fails_token : (token kind context).Fails F := fails_oneOf hF

theorem separator_fails (h : separator closing stop ts = .error e) : F e := by
  rw [separator] at h
  split at h
  · split at h
    · cases h
    split at h
    · cases h
    split at h
    · cases h
    · cases h
      exact hF _ _
  · split at h
    · cases h
    · cases h
      exact hF _ _

theorem Fails.items (hp : p.Fails F) (h : items closing p stop ts = .error e) : F e := by
  fun_induction Reader.items closing p stop ts with
  | case1 => cases h
  | case2 ts hopen e' hfails =>
      cases h
      exact hp _ _ _ hfails
  | case3 ts hopen a rest hread e' hfails =>
      cases h
      exact separator_fails hF hfails
  | case4 => cases h
  | case5 ts hopen a rest hread left hsep hlt ih => exact ih (Results.map_eq_error.mp h)

theorem Fails.closed (hp : p.Fails F) : (closed closing context p).Fails F := by
  intro stop ts e h
  simp only [Reader.closed] at h
  split at h
  · next e' hfails =>
    cases h
    exact hp.items hF hfails
  · exact (fails_token hF).map _ _ _ h

theorem Fails.block (hp : p.Fails F) {opening : Token.Kind} {what : String} :
    (block opening closing what p).Fails F :=
  (fails_token hF).andThen fun _ => hp.closed hF

end Grammar
end Reader

namespace Statement

open Reader

section Grammar

variable {F : Failure → Prop} (hF : ∀ fault location, F (.grammar fault location))

include hF

theorem fails_entry {what : String} {value : Reader Token} (h : value.Fails F) : (entry what value).Fails F :=
  (fails_oneOf hF).andThen fun _ => (fails_token hF).andThen fun _ => h.map

/-- What follows the colon of a component says nothing that is refused. -/
theorem fails_componentValue (key : Token) (range : Range) : (componentValue key range).Fails F :=
  ((fails_entry hF (fails_oneOfOr fun _ _ => hF _ _)).block hF).afterNewlines.map

end Grammar

theorem isLate_grammar (fault : GrammarFault) (location : Location) : (Failure.grammar fault location).IsLate :=
  fun _ _ => Failure.noConfusion

theorem isLate_settingValue (key : Token) (s : Setting) : (settingValue key s).Fails Failure.IsLate := by
  have htoken {kind : Token.Kind} {context : String} : (token kind context).Fails Failure.IsLate :=
    fails_token isLate_grammar
  have hone {kinds : List Token.Kind} {wanted : String} : (oneOf kinds wanted).Fails Failure.IsLate :=
    fails_oneOf isLate_grammar
  cases s with
  | ratio => exact (htoken.check fun t _ => (inOrder_ratioTerms t).isLate).map
  | grid => exact htoken.check fun t _ h => (inOrder_termsIn _ _ t).isLate (Results.map_eq_error.mp h)
  | gap => exact htoken.map
  | padding => exact htoken.map
  | colors => exact ((fails_entry isLate_grammar hone).block isLate_grammar).map
  | theme => exact (hone.check fun t _ => (inOrder_themeName t).isLate).map
  | weights axis =>
      refine (((htoken.check fun t _ => (inOrder_weight t).isLate).block isLate_grammar).check
        fun listed e h => ?_).map
      rw [someWeights] at h
      split at h
      · cases h
        exact fun _ _ => Failure.noConfusion
      · cases h

theorem isLate_reader : reader.Fails Failure.IsLate := by
  have hsubject : ((oneOf [.identifier, .cellRef, .cellRange] "metadata key or cell reference").check fun t =>
      (Subject.ofToken t).map (t, ·)).Fails Failure.IsLate :=
    (fails_oneOf isLate_grammar).check fun t _ h =>
      (Subject.inOrder_ofToken t).isLate (Results.map_eq_error.mp h)
  refine hsubject.andThen fun r => (fails_token isLate_grammar).andThen fun _ => ?_
  cases r.2 with
  | setting s => exact isLate_settingValue r.1 s
  | component range => exact fails_componentValue isLate_grammar r.1 range

end Statement

namespace Document

variable {source : String}

theorem isLate_of_read {ts : Tokens} {e : Failure} (h : Tokens.read source = .ok ts)
    (he : (read source).value = .error e) : e.IsLate := by
  rintro fault location rfl
  rw [value_read h] at he
  have hends := Draft.ends_run ts.last ts.list
  rcases Results.bind_eq_error.mp he with he | ⟨d, -, he⟩
  · rw [he] at hends
    obtain ⟨accepted, d, left, -, hunread | ⟨s, rest, -, haccept⟩ | hmissing⟩ := hends
    · exact Statement.isLate_reader _ _ _ hunread _ _ rfl
    · rcases Draft.accept_eq_error haccept with ⟨_, _, h⟩ | ⟨_, h⟩ <;> cases h
    · cases hmissing
  · rcases Draft.finish_eq_error he with ⟨_, _, _, _, h⟩ | ⟨_, h⟩ <;> cases h

/-- A document fails for a lexical fault exactly where its text has no tokens for this fault. -/
theorem read_eq_lexical_iff {fault : LexicalFault} {location : Location} :
    (read source).value = .error (.lexical fault location) ↔ Tokens.read source = .error (fault, location) := by
  cases htokens : Tokens.read source with
  | error found =>
      rw [read, htokens]
      simp [Prod.ext_iff]
  | ok ts => exact iff_of_false (fun h => isLate_of_read htokens h _ _ rfl) (by simp)

end Document
end Wireframe
