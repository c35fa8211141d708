import Mathlib

/-! Steps that may fail, one after another: what is known of the steps when the whole has a value, and
when it fails. -/

namespace Wireframe.Results

variable {ε ε' α β : Type} {x : Except ε α} {f : α → Except ε β} {g : α → β} {k : ε → ε'}

theorem ok_bind (a : α) (f : α → Except ε β) : Except.ok a >>= f = f a := rfl

theorem bind_eq_ok {b : β} : x >>= f = .ok b ↔ ∃ a, x = .ok a ∧ f a = .ok b := by
  cases x with
  | error e => simp [bind, Except.bind]
  | ok a => simp [bind, Except.bind]

theorem bind_eq_error {e : ε} :
    x >>= f = .error e ↔ x = .error e ∨ ∃ a, x = .ok a ∧ f a = .error e := by
  cases x with
  | error e' => simp [bind, Except.bind]
  | ok a => simp [bind, Except.bind]

theorem map_eq_ok {b : β} : x.map g = .ok b ↔ ∃ a, x = .ok a ∧ g a = b := by
  cases x <;> simp [Except.map]

theorem map_eq_error {e : ε} : x.map g = .error e ↔ x = .error e := by
  cases x <;> simp [Except.map]

theorem mapError_eq_ok {a : α} : x.mapError k = .ok a ↔ x = .ok a := by
  cases x <;> simp [Except.mapError]

theorem mapError_bind : (x >>= f).mapError k = x.mapError k >>= fun a => (f a).mapError k := by
  cases x <;> rfl

theorem toOption_eq_some {a : α} : x.toOption = some a ↔ x = .ok a := by
  cases x <;> simp [Except.toOption]

/-- When each step has a value with a property, so has their list. -/
theorem exists_mapM {P : β → Prop} {as : List α} (h : ∀ a ∈ as, ∃ b, f a = .ok b ∧ P b) :
    ∃ bs, as.mapM f = .ok bs ∧ ∀ b ∈ bs, P b := by
  induction as with
  | nil => exact ⟨[], rfl, fun _ hb => absurd hb List.not_mem_nil⟩
  | cons a rest ih =>
      obtain ⟨hfirst, hrest⟩ := List.forall_mem_cons.mp h
      obtain ⟨b, hb, hP⟩ := hfirst
      obtain ⟨bs, hbs, hPs⟩ := ih hrest
      refine ⟨b :: bs, ?_, List.forall_mem_cons.mpr ⟨hP, hPs⟩⟩
      rw [List.mapM_cons, hb, hbs]
      rfl

/-- Each value of a list of steps is the value of one of them. -/
theorem exists_of_mem_mapM {as : List α} {bs : List β} (h : as.mapM f = .ok bs) :
    ∀ b ∈ bs, ∃ a ∈ as, f a = .ok b := by
  induction as generalizing bs with
  | nil =>
      cases h
      exact fun _ hb => absurd hb List.not_mem_nil
  | cons a rest ih =>
      rw [List.mapM_cons] at h
      obtain ⟨b, hb, hrest⟩ := bind_eq_ok.mp h
      obtain ⟨bs, htail, hpure⟩ := bind_eq_ok.mp hrest
      cases hpure
      rw [List.forall_mem_cons]
      refine ⟨⟨a, List.mem_cons_self, hb⟩, fun b' hb' => ?_⟩
      obtain ⟨a', ha', hvalue⟩ := ih htail b' hb'
      exact ⟨a', List.mem_cons_of_mem a ha', hvalue⟩

/-- What the values of the steps come to, when it can be told from what each step is taken on. -/
theorem map_eq_of_mapM_eq_ok {γ : Type} {as : List α} {bs : List β} {h : β → γ} {k : α → γ}
    (hf : ∀ a ∈ as, ∀ b, f a = .ok b → h b = k a) (hbs : as.mapM f = .ok bs) : bs.map h = as.map k := by
  induction as generalizing bs with
  | nil =>
      cases hbs
      rfl
  | cons a rest ih =>
      obtain ⟨hfirst, hrest⟩ := List.forall_mem_cons.mp hf
      rw [List.mapM_cons] at hbs
      obtain ⟨b, hb, hmore⟩ := bind_eq_ok.mp hbs
      obtain ⟨bs, htail, hpure⟩ := bind_eq_ok.mp hmore
      cases hpure
      rw [List.map_cons, List.map_cons, hfirst b hb, ih hrest htail]

end Wireframe.Results
