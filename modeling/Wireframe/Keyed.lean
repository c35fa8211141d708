/-! Lists of values under names, in the order in which the names came first. -/

namespace Wireframe.Keyed

variable {α : Type}

/-- The list with `value` under `key`: in the place that the key has, or at the end. -/
def insert (key : String) (value : α) : List (String × α) → List (String × α)
  | [] => [(key, value)]
  | (k, v) :: rest => if k = key then (k, value) :: rest else (k, v) :: insert key value rest

/-- The entries under their names, a later entry replacing an earlier one of its name. -/
def ofEntries (entries : List (String × α)) : List (String × α) :=
  entries.foldl (fun l e => insert e.1 e.2 l) []

def erase (key : String) (l : List (String × α)) : List (String × α) := l.filter (·.1 ≠ key)

theorem lookup_cons_eq_ite (k : String) (e : String × α) (l : List (String × α)) :
    (e :: l).lookup k = if k = e.1 then some e.2 else l.lookup k := by
  obtain ⟨k', v⟩ := e
  rw [List.lookup_cons]
  by_cases h : k = k'
  · rw [if_pos h, beq_iff_eq.2 h]
  · rw [if_neg h, beq_eq_false_iff_ne.2 h]

theorem lookup_insert (key k : String) (value : α) (l : List (String × α)) :
    (insert key value l).lookup k = if k = key then some value else l.lookup k := by
  induction l with
  | nil => rw [insert, lookup_cons_eq_ite]
  | cons e rest ih =>
    obtain ⟨k', v⟩ := e
    by_cases hk : k' = key
    · subst hk
      simp only [insert, if_true, lookup_cons_eq_ite]
      split <;> rfl
    · simp only [insert, if_neg hk, lookup_cons_eq_ite, ih]
      by_cases h : k = k'
      · rw [if_pos h, if_pos h, if_neg (h ▸ hk)]
      · rw [if_neg h, if_neg h]

end Wireframe.Keyed
