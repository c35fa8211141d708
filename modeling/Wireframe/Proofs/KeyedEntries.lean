import Mathlib
import Wireframe.Keyed

/-! Entries under names. Of entries of one name the last is found (`lookup_ofEntries`), so an entry makes no
difference where its name occurs again behind it (`last?_of_mem`). Entries of different names are kept as they
are (`ofEntries_eq_self`), and their order does not matter for looking them up (`lookup_perm`). -/

namespace Wireframe

namespace Keyed

variable {α β : Type} {key k : String} {value v : α} {l l' : List (String × α)}

theorem insert_of_not_mem (h : key ∉ l.map (·.1)) : insert key value l = l ++ [(key, value)] := by
  induction l with
  | nil => rfl
  | cons e rest ih =>
      rw [List.map_cons, List.mem_cons, not_or] at h
      rw [insert, if_neg (Ne.symm h.1), ih h.2]
      rfl

/-- The value of the last of the entries under the name. -/
def IsLast (entries : List (String × α)) (key : String) (value : α) : Prop :=
  ∃ front back, entries = front ++ (key, value) :: back ∧ ∀ e ∈ back, e.1 ≠ key

theorem isLast_append_singleton {e : String × α} :
    IsLast (l ++ [e]) k v ↔ if k = e.1 then e.2 = v else IsLast l k v := by
  obtain ⟨key, value⟩ := e
  constructor
  · rintro ⟨front, back, hsplit, hback⟩
    rcases List.eq_nil_or_concat back with rfl | ⟨middle, last, rfl⟩
    · obtain ⟨-, heq⟩ := List.append_inj' hsplit rfl
      cases heq
      exact (if_pos rfl).mpr rfl
    · rw [List.concat_eq_append] at hsplit hback
      rw [← List.cons_append, ← List.append_assoc] at hsplit
      obtain ⟨rfl, heq⟩ := List.append_inj' hsplit rfl
      cases heq
      obtain ⟨hmiddle, hlast⟩ := List.forall_mem_append.mp hback
      have hne : k ≠ key := (hlast _ (List.mem_singleton_self _)).symm
      exact (if_neg hne).mpr ⟨front, middle, rfl, hmiddle⟩
  · intro h
    split at h
    · next hk =>
      subst hk h
      exact ⟨l, [], rfl, fun _ he => absurd he List.not_mem_nil⟩
    · next hk =>
      obtain ⟨front, back, rfl, hback⟩ := h
      refine ⟨front, back ++ [(key, value)], List.append_assoc .., List.forall_mem_append.mpr ⟨hback, ?_⟩⟩
      exact List.forall_mem_singleton.mpr (Ne.symm hk)

/-- Of entries of one name the last is found. -/
theorem lookup_ofEntries_eq_some_iff : (ofEntries l).lookup k = some v ↔ IsLast l k v := by
  induction l using List.reverseRecOn with
  | nil =>
      refine ⟨nofun, ?_⟩
      rintro ⟨front, back, hsplit, -⟩
      simp at hsplit
  | append_singleton l e ih =>
      have hstep : ofEntries (l ++ [e]) = insert e.1 e.2 (ofEntries l) := List.foldl_concat ..
      rw [isLast_append_singleton, hstep, lookup_insert]
      split
      · exact Option.some_inj
      · exact ih

/-- The value of the last of the entries under the name, where there is one. -/
def last? (entries : List (String × α)) (key : String) : Option α :=
  (entries.filter (·.1 = key)).getLast?.map (·.2)

theorem last?_append_singleton {e : String × α} :
    last? (l ++ [e]) k = if k = e.1 then some e.2 else last? l k := by
  rw [last?, last?, List.filter_append, List.filter_singleton]
  by_cases hk : e.1 = k
  · rw [if_pos hk.symm, decide_eq_true hk]
    exact congrArg (Option.map Prod.snd) List.getLast?_concat
  · rw [if_neg (Ne.symm hk), decide_eq_false hk]
    exact congrArg (fun l => (List.getLast? l).map Prod.snd) (List.append_nil _)

theorem lookup_ofEntries (l : List (String × α)) (k : String) : (ofEntries l).lookup k = last? l k := by
  induction l using List.reverseRecOn with
  | nil => rfl
  | append_singleton l e ih =>
      have hstep : ofEntries (l ++ [e]) = insert e.1 e.2 (ofEntries l) := List.foldl_concat ..
      rw [last?_append_singleton, hstep, lookup_insert, ih]

/-- An entry behind which its name occurs again is not found. -/
theorem last?_of_mem {front back : List (String × α)} (h : k ∈ back.map (·.1)) (e : String × α) :
    last? (front ++ e :: back) k = last? (front ++ back) k := by
  have hlater : back.filter (·.1 = k) ≠ [] := by
    obtain ⟨e', he', rfl⟩ := List.mem_map.mp h
    exact List.ne_nil_of_mem (List.mem_filter.mpr ⟨he', decide_eq_true rfl⟩)
  rw [← List.singleton_append]
  simp only [last?, List.filter_append]
  rw [List.getLast?_append_of_ne_nil _ (List.append_ne_nil_of_right_ne_nil _ hlater),
    List.getLast?_append_of_ne_nil _ hlater, List.getLast?_append_of_ne_nil _ hlater]

/-- An entry is not found under another name. -/
theorem last?_of_ne {front back : List (String × α)} {e : String × α} (h : e.1 ≠ k) :
    last? (front ++ e :: back) k = last? (front ++ back) k := by
  have hother : (e :: back).filter (·.1 = k) = back.filter (·.1 = k) :=
    List.filter_cons_of_neg (by simpa using h)
  rw [last?, last?, List.filter_append, List.filter_append, hother]

/-- Entries of different names are kept as they are. -/
theorem ofEntries_eq_self (h : (l.map (·.1)).Nodup) : ofEntries l = l := by
  have hfold (l before : List (String × α)) (h : ((before ++ l).map (·.1)).Nodup) :
      l.foldl (fun l e => insert e.1 e.2 l) before = before ++ l := by
    induction l generalizing before with
    | nil => exact (List.append_nil before).symm
    | cons e rest ih =>
        have hnew : e.1 ∉ before.map (·.1) := by
          rw [List.map_append, List.nodup_append] at h
          exact fun hmem => h.2.2 _ hmem _ List.mem_cons_self rfl
        rw [List.foldl_cons, insert_of_not_mem hnew, ih, List.append_assoc]
        · rfl
        · rwa [List.append_assoc]
  exact hfold l [] h

theorem lookup_eq_none (h : k ∉ l.map (·.1)) : l.lookup k = none := by
  induction l with
  | nil => rfl
  | cons e rest ih =>
      rw [List.map_cons, List.mem_cons, not_or] at h
      rw [lookup_cons_eq_ite, if_neg h.1, ih h.2]

theorem lookup_eq_some_iff (h : (l.map (·.1)).Nodup) : l.lookup k = some v ↔ (k, v) ∈ l := by
  induction l with
  | nil => simp
  | cons e rest ih =>
      obtain ⟨hnew, hrest⟩ := List.nodup_cons.mp h
      obtain ⟨key, value⟩ := e
      rw [lookup_cons_eq_ite, List.mem_cons, Prod.mk.injEq]
      by_cases hk : k = key
      · subst hk
        have hnone : (k, v) ∉ rest := fun hmem => hnew (List.mem_map.mpr ⟨(k, v), hmem, rfl⟩)
        simp only [if_true, Option.some.injEq, true_and, hnone, or_false]
        exact eq_comm
      · rw [if_neg hk, ih hrest]
        simp only [hk, false_and, false_or]

/-- The order of entries of different names does not matter for looking them up. -/
theorem lookup_perm (h : l.Perm l') (hnodup : (l.map (·.1)).Nodup) (k : String) :
    l.lookup k = l'.lookup k := by
  have hnodup' : (l'.map (·.1)).Nodup := (h.map _).nodup_iff.mp hnodup
  apply Option.ext
  intro v
  rw [lookup_eq_some_iff hnodup, lookup_eq_some_iff hnodup', h.mem_iff]

theorem map_fst_insert_of_mem (h : key ∈ l.map (·.1)) : (insert key value l).map (·.1) = l.map (·.1) := by
  induction l with
  | nil => exact absurd h List.not_mem_nil
  | cons e rest ih =>
      obtain ⟨k, v⟩ := e
      rw [insert]
      split
      · rfl
      · next hk =>
        have hrest := (List.mem_cons.mp h).resolve_left (Ne.symm hk)
        rw [List.map_cons, List.map_cons, ih hrest]

theorem nodup_insert (h : (l.map (·.1)).Nodup) : ((insert key value l).map (·.1)).Nodup := by
  by_cases hkey : key ∈ l.map (·.1)
  · rw [map_fst_insert_of_mem hkey]
    exact h
  · rw [insert_of_not_mem hkey, List.map_append]
    exact h.append (List.nodup_singleton _) (List.disjoint_singleton.mpr hkey)

theorem nodup_ofEntries (l : List (String × α)) : ((ofEntries l).map (·.1)).Nodup := by
  induction l using List.reverseRecOn with
  | nil => exact List.nodup_nil
  | append_singleton l e ih =>
      have hstep : ofEntries (l ++ [e]) = insert e.1 e.2 (ofEntries l) := List.foldl_concat ..
      rw [hstep]
      exact nodup_insert ih

theorem lookup_filter (P : String → Bool) (l : List (String × α)) (k : String) :
    (l.filter fun e => P e.1).lookup k = if P k then l.lookup k else none := by
  induction l with
  | nil => exact (ite_self _).symm
  | cons e rest ih =>
      rw [List.filter_cons, lookup_cons_eq_ite]
      by_cases hk : k = e.1
      · subst hk
        by_cases hP : P e.1 = true
        · rw [if_pos hP, if_pos hP, lookup_cons_eq_ite, if_pos rfl, if_pos rfl]
        · rw [if_neg hP, ih, if_neg hP, if_neg hP]
      · rw [if_neg hk]
        by_cases hP : P e.1 = true
        · rw [if_pos hP, lookup_cons_eq_ite, if_neg hk, ih]
        · rw [if_neg hP, ih]

theorem lookup_map (f : α → β) (l : List (String × α)) (k : String) :
    (l.map fun e => (e.1, f e.2)).lookup k = (l.lookup k).map f := by
  induction l with
  | nil => rfl
  | cons e rest ih =>
      rw [List.map_cons, lookup_cons_eq_ite, lookup_cons_eq_ite, ih]
      split <;> rfl

theorem insert_map (f : α → β) (key : String) (value : α) (l : List (String × α)) :
    insert key (f value) (l.map fun e => (e.1, f e.2)) = (insert key value l).map fun e => (e.1, f e.2) := by
  induction l with
  | nil => rfl
  | cons e rest ih =>
      obtain ⟨k, v⟩ := e
      rw [List.map_cons, insert, insert, ih]
      split <;> rfl

theorem ofEntries_map (f : α → β) (l : List (String × α)) :
    ofEntries (l.map fun e => (e.1, f e.2)) = (ofEntries l).map fun e => (e.1, f e.2) := by
  induction l using List.reverseRecOn with
  | nil => rfl
  | append_singleton l e ih =>
      rw [List.map_append, ofEntries, List.foldl_append, ofEntries, List.foldl_append]
      exact (congrArg (insert e.1 (f e.2)) ih).trans (insert_map f e.1 e.2 (ofEntries l))

theorem erase_map (f : α → β) (key : String) (l : List (String × α)) :
    erase key (l.map fun e => (e.1, f e.2)) = (erase key l).map fun e => (e.1, f e.2) := List.filter_map

/-- The entries that are there. -/
def present (entries : List (String × Option α)) : List (String × α) :=
  entries.filterMap fun e => e.2.map (e.1, ·)

theorem map_fst_present_sublist (entries : List (String × Option α)) :
    ((present entries).map (·.1)).Sublist (entries.map (·.1)) := by
  induction entries with
  | nil => exact List.Sublist.slnil
  | cons e rest ih =>
      obtain ⟨key, value⟩ := e
      cases value with
      | none => exact ih.cons key
      | some a => exact ih.cons_cons key

theorem lookup_present {entries : List (String × Option α)} (h : (entries.map (·.1)).Nodup) (k : String) :
    (present entries).lookup k = (entries.lookup k).join := by
  induction entries with
  | nil => rfl
  | cons e rest ih =>
      obtain ⟨hnew, hrest⟩ := List.nodup_cons.mp h
      obtain ⟨key, value⟩ := e
      rw [lookup_cons_eq_ite, present, List.filterMap_cons]
      cases value with
      | none =>
          by_cases hk : k = key
          · subst hk
            have hnone := lookup_eq_none hnew
            rw [if_pos rfl]
            show (present rest).lookup k = none
            rw [ih hrest, hnone]
            rfl
          · rw [if_neg hk, ← ih hrest]
            rfl
      | some a =>
          show ((key, a) :: present rest).lookup k = _
          rw [lookup_cons_eq_ite]
          split
          · rfl
          · exact ih hrest

theorem erase_cons_self (h : key ∉ l.map (·.1)) : erase key ((key, value) :: l) = l := by
  rw [erase, List.filter_cons_of_neg (by simp), List.filter_eq_self]
  intro e he
  have hne : e.1 ≠ key := fun heq => h (heq ▸ List.mem_map_of_mem he)
  simpa using hne

end Keyed
end Wireframe
