import Wireframe.Statement.Reader

/-! What readers end in. A reader meets a condition when, on tokens that all have a property, it either
reads a value with the condition and leaves tokens with the property, or fails with a report. Each
way of combining readers keeps this (`Meets.andThen` to `Meets.block`). -/

namespace Wireframe

/-- The message of the fault has words for all that it names. -/
def SemanticFault.IsSayable : SemanticFault → Prop
  | gridExcludes _ _ range violation =>
    range.isWritable = true ∧ ∃ text, violation.message? = .ok text
  | overlap range other => range.isWritable = true ∧ other.isWritable = true
  | outside violation => ∃ text, violation.message? = .ok text
  | _ => True

/-- The failure is told at a position, in a message that can be written. -/
def Failure.IsReported : Failure → Prop
  | lexical .. | grammar .. => True
  | semantic fault _ => fault.IsSayable
  | numeral _ | invalid _ => False

theorem Failure.IsReported.exists_report {e : Failure} (h : e.IsReported) :
    ∃ r, e.report? = some r := by
  cases e with
  | lexical fault location => exact ⟨_, rfl⟩
  | grammar fault location => exact ⟨_, rfl⟩
  | semantic fault location => exact ⟨_, rfl⟩
  | numeral tooLong => exact h.elim
  | invalid errors => exact h.elim

/-- The result is a value with the condition, or a failure with a report. -/
def Reported {α : Type} (Q : α → Prop) : Except Failure α → Prop
  | .ok a => Q a
  | .error e => e.IsReported

namespace Reported

variable {α β : Type} {P : α → Prop} {Q : β → Prop} {x : Except Failure α}

theorem of_eq_ok {a : α} (h : Reported P x) (hx : x = .ok a) : P a := by
  rw [hx] at h
  exact h

theorem of_eq_error {e : Failure} (h : Reported P x) (hx : x = .error e) : e.IsReported := by
  rw [hx] at h
  exact h

theorem bind {f : α → Except Failure β} (hx : Reported P x) (hf : ∀ a, P a → Reported Q (f a)) :
    Reported Q (x >>= f) := by
  cases x with
  | error e => exact hx
  | ok a => exact hf a hx

theorem imp {P' : α → Prop} (hx : Reported P x) (h : ∀ a, P a → P' a) : Reported P' x := by
  cases x with
  | error e => exact hx
  | ok a => exact h a hx

theorem map {f : α → β} (hx : Reported P x) (hf : ∀ a, P a → Q (f a)) : Reported Q (x.map f) := by
  cases x with
  | error e => exact hx
  | ok a => exact hf a hx

end Reported

namespace Reader

variable {α β : Type} {T : Token → Prop} {P : α → Prop} {Q : β → Prop} {p : Reader α}

/-- A value with the condition, before tokens with the property. -/
def Leaves (T : Token → Prop) (P : α → Prop) (r : α × List Token) : Prop := P r.1 ∧ ∀ t ∈ r.2, T t

/-- On tokens with the property the reader ends in a value with the condition, or in a report. -/
def Meets (T : Token → Prop) (p : Reader α) (P : α → Prop) : Prop :=
  ∀ stop ts, (∀ t ∈ ts, T t) → Reported (Leaves T P) (p.run stop ts)

theorem missing_isReported (wanted : String) (stop : Token) (ts : List Token) :
    (missing wanted stop ts).IsReported :=
  trivial

theorem meets_oneOfOr {kinds : List Token.Kind} {failure : Token → List Token → Failure}
    (hfailure : ∀ stop ts, (failure stop ts).IsReported) :
    Meets T (oneOfOr kinds failure) fun t => t.kind ∈ kinds ∧ T t := by
  intro stop ts hts
  cases ts with
  | nil => exact hfailure stop []
  | cons t rest =>
      obtain ⟨ht, hrest⟩ := List.forall_mem_cons.mp hts
      simp only [oneOfOr]
      split
      · next hkind => exact ⟨⟨hkind, ht⟩, hrest⟩
      · exact hfailure stop _

theorem meets_oneOf {kinds : List Token.Kind} {wanted : String} :
    Meets T (oneOf kinds wanted) fun t => t.kind ∈ kinds ∧ T t :=
  meets_oneOfOr (missing_isReported wanted)

theorem Meets.imp {P' : α → Prop} (hp : Meets T p P) (h : ∀ a, P a → P' a) : Meets T p P' :=
  fun stop ts hts => (hp stop ts hts).imp fun r hr => ⟨h r.1 hr.1, hr.2⟩

theorem meets_token {kind : Token.Kind} {context : String} :
    Meets T (token kind context) fun t => t.kind = kind ∧ T t :=
  meets_oneOf.imp fun _ h => ⟨List.mem_singleton.mp h.1, h.2⟩

theorem Meets.andThen {f : α → Reader β} (hp : Meets T p P) (hf : ∀ a, P a → Meets T (f a) Q) :
    Meets T (p.andThen f) Q := by
  intro stop ts hts
  have hfirst := hp stop ts hts
  simp only [Reader.andThen]
  cases hrun : p.run stop ts with
  | error e => exact hfirst.of_eq_error hrun
  | ok r =>
      obtain ⟨hvalue, hrest⟩ := hfirst.of_eq_ok hrun
      exact hf r.1 hvalue stop r.2 hrest

theorem Meets.check {f : α → Except Failure β} (hp : Meets T p P)
    (hf : ∀ a, P a → Reported Q (f a)) : Meets T (p.check f) Q := by
  intro stop ts hts
  have hfirst := hp stop ts hts
  simp only [Reader.check]
  cases hrun : p.run stop ts with
  | error e => exact hfirst.of_eq_error hrun
  | ok r =>
      obtain ⟨hvalue, hrest⟩ := hfirst.of_eq_ok hrun
      exact (hf r.1 hvalue).map fun b hb => ⟨hb, hrest⟩

theorem Meets.map {f : α → β} (hp : Meets T p P) (hf : ∀ a, P a → Q (f a)) :
    Meets T (p.map f) Q :=
  hp.check hf

theorem mem_of_mem_skipNewlines {t : Token} {ts : List Token} (h : t ∈ skipNewlines ts) : t ∈ ts :=
  (List.dropWhile_suffix _).subset h

theorem Meets.afterNewlines (hp : Meets T p P) : Meets T p.afterNewlines P :=
  fun stop _ hts => hp stop _ fun t ht => hts t (mem_of_mem_skipNewlines ht)

theorem reported_separator (closing : Token.Kind) (stop : Token) {ts : List Token}
    (hts : ∀ t ∈ ts, T t) : Reported (Leaves T fun _ => True) (separator closing stop ts) := by
  have hskipped : ∀ t ∈ skipNewlines ts, T t := fun t ht => hts t (mem_of_mem_skipNewlines ht)
  rw [separator]
  split
  · next t rest heq =>
    rw [heq] at hskipped
    split
    · exact ⟨trivial, (List.forall_mem_cons.mp hskipped).2⟩
    split
    · exact ⟨trivial, hskipped⟩
    split
    · exact ⟨trivial, hskipped⟩
    · exact missing_isReported ("',' or " ++ closing.label) stop ts
  · split
    · exact ⟨trivial, fun _ ht => absurd ht List.not_mem_nil⟩
    · exact missing_isReported ("',' or " ++ closing.label) stop ts

theorem Meets.items (hp : Meets T p P) (closing : Token.Kind) (stop : Token) {ts : List Token}
    (hts : ∀ t ∈ ts, T t) :
    Reported (Leaves T fun as => ∀ a ∈ as, P a) (items closing p stop ts) := by
  have hitem (ts : List Token) (hts : ∀ t ∈ ts, T t) :
      Reported (Leaves T P) (p.run stop (skipNewlines ts)) := hp.afterNewlines stop ts hts
  fun_induction Reader.items closing p stop ts with
  | case1 ts hclosing =>
      exact ⟨fun _ ha => absurd ha List.not_mem_nil, fun t ht => hts t (mem_of_mem_skipNewlines ht)⟩
  | case2 ts hopen e hfails => exact (hitem ts hts).of_eq_error hfails
  | case3 ts hopen a rest hread e hfails =>
      obtain ⟨-, hrest⟩ := (hitem ts hts).of_eq_ok hread
      exact (reported_separator closing stop hrest).of_eq_error hfails
  | case4 ts hopen a rest hread left hsep =>
      obtain ⟨ha, hrest⟩ := (hitem ts hts).of_eq_ok hread
      obtain ⟨-, hleft⟩ := (reported_separator closing stop hrest).of_eq_ok hsep
      exact ⟨List.forall_mem_singleton.mpr ha, hleft⟩
  | case5 ts hopen a rest hread left hsep hlt ih =>
      obtain ⟨ha, hrest⟩ := (hitem ts hts).of_eq_ok hread
      obtain ⟨-, hleft⟩ := (reported_separator closing stop hrest).of_eq_ok hsep
      refine (ih hleft).map fun r hr => ⟨?_, hr.2⟩
      exact List.forall_mem_cons.mpr ⟨ha, hr.1⟩

theorem Meets.closed (hp : Meets T p P) {closing : Token.Kind} {context : String} :
    Meets T (closed closing context p) fun r => ∀ a ∈ r.1, P a := by
  intro stop ts hts
  have hitems := hp.items closing stop hts
  simp only [Reader.closed]
  cases hrun : Reader.items closing p stop ts with
  | error e => exact hitems.of_eq_error hrun
  | ok r =>
      obtain ⟨hvalues, hrest⟩ := hitems.of_eq_ok hrun
      exact (meets_token.map fun t _ => hvalues) stop r.2 hrest

theorem Meets.block (hp : Meets T p P) {opening closing : Token.Kind} {what : String} :
    Meets T (block opening closing what p) fun r => ∀ a ∈ r.1, P a :=
  meets_token.andThen fun _ _ => hp.closed

end Reader
end Wireframe
