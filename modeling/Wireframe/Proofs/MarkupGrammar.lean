import Wireframe.Proofs.TextSplit

/-! The grammar of markup, for the part of XML 1.0 that drawings keep to: elements with attributes in
double quotes, properly nested, and text, with five entities for the characters that could be taken for
markup. A text is the markup of one document only (`Document.unique`), so that what its attributes and
texts stand for is determined by it. -/

namespace Wireframe.Markup

/-- The code points of the characters of XML 1.0. -/
def IsChar (n : Nat) : Prop :=
  n = 0x9 ∨ n = 0xA ∨ n = 0xD ∨ (0x20 ≤ n ∧ n ≤ 0xD7FF) ∨ (0xE000 ≤ n ∧ n ≤ 0xFFFD) ∨
    (0x10000 ≤ n ∧ n ≤ 0x10FFFF)

instance (n : Nat) : Decidable (IsChar n) :=
  inferInstanceAs (Decidable (_ ∨ _ ∨ _ ∨ (_ ∧ _) ∨ (_ ∧ _) ∨ (_ ∧ _)))

/-- The code points that no character has: they stand in pairs for others. -/
def IsSurrogate (n : Nat) : Prop := 0xD800 ≤ n ∧ n ≤ 0xDFFF

/-- The text without the characters that XML does not have. -/
def legal (s : String) : String := String.ofList (s.toList.filter fun c => IsChar c.toNat)

/-- The entities, with the characters that they stand for. -/
def entities : List (List Char × Char) :=
  [("&amp;".toList, '&'), ("&lt;".toList, '<'), ("&gt;".toList, '>'), ("&quot;".toList, '"'),
    ("&#x27;".toList, '\'')]

/-- The characters that stand in a value as entities only. -/
def reserved : List Char := ['&', '<', '>', '"']

/-- A character that stands for itself in markup. -/
def isPlain (c : Char) : Bool := IsChar c.toNat ∧ c ∉ reserved

/-- Replacing the entities of the second text gives the first one, and nothing else in the second text
could be taken for markup. -/
inductive Shows : List Char → List Char → Prop
  | nil : Shows [] []
  | plain {c : Char} {value raw : List Char} (hchar : IsChar c.toNat) (hplain : c ∉ reserved)
      (rest : Shows value raw) : Shows (c :: value) (c :: raw)
  | entity {c : Char} {e value raw : List Char} (he : (e, c) ∈ entities) (rest : Shows value raw) :
      Shows (c :: value) (e ++ raw)

def isNameChar (c : Char) : Bool := c.isAlphanum || c == '-'

/-- Names start with a letter. -/
def isName : List Char → Bool
  | [] => false
  | c :: cs => c.isAlpha && cs.all isNameChar

/-- Attributes in front of each of which there is a space. -/
inductive ShowsAttributes : List (String × String) → List Char → Prop
  | nil : ShowsAttributes [] []
  | cons {name value : String} {attributes : List (String × String)} {raw rest : List Char}
      (hname : isName name.toList = true) (hvalue : Shows value.toList raw)
      (hrest : ShowsAttributes attributes rest) :
      ShowsAttributes ((name, value) :: attributes)
        (' ' :: (name.toList ++ '=' :: '"' :: (raw ++ '"' :: rest)))

mutual

/-- An element, with the values of its attributes. -/
inductive Element
  | mk (name : String) (attributes : List (String × String)) (content : Content)

/-- What is between the tags of an element: text, with elements in between. -/
inductive Content
  | text (value : String)
  | child (before : String) (e : Element) (after : Content)

end

mutual

/-- The markup of an element. No attribute is repeated, and the end tag has the name of the start
tag. -/
inductive Element.Shown : Element → List Char → Prop
  | empty {name : String} {attributes : List (String × String)} {head : List Char}
      (hname : isName name.toList = true) (hnodup : (attributes.map (·.1)).Nodup)
      (hattributes : ShowsAttributes attributes head) :
      Element.Shown (.mk name attributes (.text "")) ('<' :: (name.toList ++ (head ++ ['/', '>'])))
  | full {name : String} {attributes : List (String × String)} {content : Content}
      {head inner : List Char} (hname : isName name.toList = true)
      (hnodup : (attributes.map (·.1)).Nodup) (hattributes : ShowsAttributes attributes head)
      (hcontent : Content.Shown content inner) :
      Element.Shown (.mk name attributes content)
        ('<' :: (name.toList ++ (head ++ '>' :: (inner ++ '<' :: '/' :: (name.toList ++ ['>'])))))

/-- The markup of what is between two tags. -/
inductive Content.Shown : Content → List Char → Prop
  | text {value : String} {raw : List Char} (h : Shows value.toList raw) :
      Content.Shown (.text value) raw
  | child {before : String} {e : Element} {after : Content} {raw head tail : List Char}
      (hbefore : Shows before.toList raw) (he : Element.Shown e head)
      (hafter : Content.Shown after tail) : Content.Shown (.child before e after) (raw ++ (head ++ tail))

end

def declaration : String := "<?xml version=\"1.0\" encoding=\"UTF-8\"?>"

/-- The text is a declaration and one element, each with its line end. -/
def IsDocument (root : Element) (text : String) : Prop :=
  ∃ raw, root.Shown raw ∧ text.toList = declaration.toList ++ '\n' :: (raw ++ ['\n'])

mutual

/-- The names of an element and of those in it. -/
def Element.names : Element → List String
  | .mk name _ content => name :: content.names

def Content.names : Content → List String
  | .text _ => []
  | .child _ e after => e.names ++ after.names

end

section Values

variable {c : Char} {e e' value value' raw raw' x y : List Char}

theorem entity_eq_cons (h : (e, c) ∈ entities) : ∃ rest, e = '&' :: rest := by
  have hall : ∀ p ∈ entities, p.1.head? = some '&' := by decide
  obtain ⟨rest, hrest⟩ := List.head?_eq_some_iff.mp (hall (e, c) h)
  exact ⟨rest, hrest⟩

theorem entity_chars (h : (e, c) ∈ entities) : ∀ d ∈ e, d ≠ '<' ∧ d ≠ '"' ∧ IsChar d.toNat := by
  have hall : ∀ p ∈ entities, (p.1.all fun d => d ≠ '<' ∧ d ≠ '"' ∧ IsChar d.toNat) = true := by decide
  intro d hd
  exact of_decide_eq_true (List.all_eq_true.mp (hall (e, c) h) d hd)

theorem shows_entity (h : (e, c) ∈ entities) : Shows [c] e := by
  rw [← List.append_nil e]
  exact .entity h .nil

/-- No entity starts another one. -/
theorem entity_inj {c' : Char} (h : (e, c) ∈ entities) (h' : (e', c') ∈ entities)
    (heq : e ++ x = e' ++ y) : c = c' ∧ x = y := by
  have hall : ∀ p ∈ entities, ∀ q ∈ entities, p.1 <+: q.1 → p = q := by decide
  have hsame : (e, c) = (e', c') := by
    rcases List.append_eq_append_iff.mp heq with ⟨a, ha, -⟩ | ⟨a, ha, -⟩
    · exact hall _ h _ h' ⟨a, ha.symm⟩
    · exact (hall _ h' _ h ⟨a, ha.symm⟩).symm
  cases hsame
  exact ⟨rfl, List.append_cancel_left heq⟩

theorem Shows.chars (h : Shows value raw) : ∀ d ∈ raw, d ≠ '<' ∧ d ≠ '"' ∧ IsChar d.toNat := by
  induction h with
  | nil => exact List.forall_mem_nil _
  | plain hchar hplain _ ih =>
      refine List.forall_mem_cons.mpr ⟨⟨?_, ?_, hchar⟩, ih⟩
      · rintro rfl
        exact hplain (by decide)
      · rintro rfl
        exact hplain (by decide)
  | entity he _ ih => exact List.forall_mem_append.mpr ⟨entity_chars he, ih⟩

theorem Shows.append (h : Shows value raw) (h' : Shows value' raw') :
    Shows (value ++ value') (raw ++ raw') := by
  induction h with
  | nil => exact h'
  | plain hchar hplain _ ih => exact .plain hchar hplain ih
  | entity he _ ih =>
      rw [List.append_assoc]
      exact .entity he ih

/-- A value without a character that is reserved stands as it is. -/
theorem shows_self (h : raw.all isPlain = true) : Shows raw raw := by
  induction raw with
  | nil => exact .nil
  | cons d rest ih =>
      rw [List.all_cons, Bool.and_eq_true] at h
      obtain ⟨hchar, hplain⟩ := of_decide_eq_true h.1
      exact .plain hchar hplain (ih h.2)

/-- A value is determined by its markup. -/
theorem Shows.unique (h : Shows value raw) (h' : Shows value' raw') (heq : raw = raw') :
    value = value' := by
  induction h generalizing value' raw' with
  | nil =>
      cases h' with
      | nil => rfl
      | plain => cases heq
      | entity he =>
          obtain ⟨rest, rfl⟩ := entity_eq_cons he
          cases heq
  | plain _ hplain _ ih =>
      cases h' with
      | nil => cases heq
      | plain _ _ hrest =>
          obtain ⟨rfl, htail⟩ := List.cons_eq_cons.mp heq
          rw [ih hrest htail]
      | entity he =>
          obtain ⟨rest, rfl⟩ := entity_eq_cons he
          obtain ⟨rfl, -⟩ := List.cons_eq_cons.mp heq
          exact absurd (show '&' ∈ reserved by decide) hplain
  | entity he _ ih =>
      cases h' with
      | nil =>
          obtain ⟨rest, rfl⟩ := entity_eq_cons he
          cases heq
      | plain _ hplain =>
          obtain ⟨rest, rfl⟩ := entity_eq_cons he
          obtain ⟨rfl, -⟩ := List.cons_eq_cons.mp heq
          exact absurd (show '&' ∈ reserved by decide) hplain
      | entity he' hrest =>
          obtain ⟨rfl, htail⟩ := entity_inj he he' heq
          rw [ih hrest htail]

/-- Markup of values up to the same stop, which they do not hold. -/
theorem Shows.split {stop : Char} (hstop : stop = '<' ∨ stop = '"') (h : Shows value raw)
    (h' : Shows value' raw') (heq : raw ++ stop :: x = raw' ++ stop :: y) :
    value = value' ∧ x = y := by
  have hfree {v r : List Char} (hr : Shows v r) : ∀ k ∈ r, k ≠ stop := by
    intro k hk
    obtain ⟨hlt, hquote, -⟩ := hr.chars k hk
    rcases hstop with rfl | rfl
    · exact hlt
    · exact hquote
  obtain ⟨hraw, hrest⟩ := Text.append_inj_of_stop (hfree h) (hfree h') (fun hne => hne rfl)
    (fun hne => hne rfl) heq
  exact ⟨h.unique h' hraw, (List.cons_eq_cons.mp hrest).2⟩

end Values

section Tags

variable {name name' value value' : String} {attributes attributes' : List (String × String)}
  {raw raw' x y : List Char} {c d : Char}

theorem isNameChar_of_isName {cs : List Char} (h : isName cs = true) :
    ∀ k ∈ cs, isNameChar k = true := by
  cases cs with
  | nil => cases h
  | cons k cs =>
      rw [isName, Bool.and_eq_true] at h
      refine List.forall_mem_cons.mpr ⟨?_, List.all_eq_true.mp h.2⟩
      rw [isNameChar, Char.isAlphanum, h.1]
      rfl

theorem isChar_of_isNameChar (h : isNameChar c = true) : IsChar c.toNat := by
  have hrange : 0x20 ≤ c.toNat ∧ c.toNat ≤ 0xD7FF := by
    simp only [isNameChar, Char.isAlphanum, Char.isAlpha, Char.isUpper, Char.isLower, Char.isDigit,
      Bool.or_eq_true, Bool.and_eq_true, decide_eq_true_eq, beq_iff_eq, ge_iff_le,
      UInt32.le_iff_toNat_le, Char.toNat_val, Char.reduceToNat] at h
    rcases h with ((h | h) | h) | rfl
    · omega
    · omega
    · omega
    · decide
  exact Or.inr (Or.inr (Or.inr (Or.inl hrange)))

theorem isPlain_of_isNameChar (h : isNameChar c = true) : isPlain c = true := by
  have hall : (reserved.all fun k => !isNameChar k) = true := by decide
  refine decide_eq_true ⟨isChar_of_isNameChar h, fun hc => ?_⟩
  have hnot := List.all_eq_true.mp hall c hc
  rw [h] at hnot
  cases hnot

theorem isChar_of_isName {cs : List Char} (h : isName cs = true) : ∀ k ∈ cs, IsChar k.toNat :=
  fun k hk => isChar_of_isNameChar (isNameChar_of_isName h k hk)

theorem name_split (hname : isName name.toList = true) (hname' : isName name'.toList = true)
    (hc : isNameChar c = false) (hd : isNameChar d = false)
    (heq : name.toList ++ c :: x = name'.toList ++ d :: y) : name = name' ∧ c :: x = d :: y := by
  obtain ⟨hsame, hrest⟩ := Text.append_inj_of_stop (isNameChar_of_isName hname)
    (isNameChar_of_isName hname') (by rw [hc]; exact Bool.false_ne_true)
    (by rw [hd]; exact Bool.false_ne_true) heq
  exact ⟨String.toList_inj.mp hsame, hrest⟩

/-- Attributes up to characters with which none starts. -/
theorem ShowsAttributes.split (h : ShowsAttributes attributes raw)
    (h' : ShowsAttributes attributes' raw') (hc : c ≠ ' ') (hd : d ≠ ' ')
    (heq : raw ++ c :: x = raw' ++ d :: y) : attributes = attributes' ∧ c :: x = d :: y := by
  induction h generalizing attributes' raw' with
  | nil =>
      cases h' with
      | nil => exact ⟨rfl, heq⟩
      | cons => exact absurd (List.cons_eq_cons.mp heq).1 hc
  | cons hname hvalue _ ih =>
      cases h' with
      | nil => exact absurd (List.cons_eq_cons.mp heq).1.symm hd
      | cons hname' hvalue' hrest' =>
          simp only [List.cons_append, List.append_assoc] at heq
          obtain ⟨rfl, hafter⟩ := name_split hname hname' rfl rfl (List.cons_eq_cons.mp heq).2
          have hquoted := (List.cons_eq_cons.mp (List.cons_eq_cons.mp hafter).2).2
          obtain ⟨hsame, hrest⟩ := hvalue.split (Or.inr rfl) hvalue' hquoted
          obtain ⟨rfl, htail⟩ := ih hrest' hrest
          rw [String.toList_inj.mp hsame]
          exact ⟨rfl, htail⟩

theorem ShowsAttributes.exists_cons (h : ShowsAttributes attributes raw)
    (hc : isNameChar c = false) (x : List Char) :
    ∃ k rest, raw ++ c :: x = k :: rest ∧ isNameChar k = false := by
  cases h with
  | nil => exact ⟨c, x, rfl, hc⟩
  | cons => exact ⟨' ', _, rfl, rfl⟩

/-- A name with attributes up to the end of the tag. -/
theorem tag_split (hname : isName name.toList = true) (h : ShowsAttributes attributes raw)
    (hname' : isName name'.toList = true) (h' : ShowsAttributes attributes' raw')
    (hc : c = '/' ∨ c = '>') (hd : d = '/' ∨ d = '>')
    (heq : name.toList ++ (raw ++ c :: x) = name'.toList ++ (raw' ++ d :: y)) :
    name = name' ∧ attributes = attributes' ∧ c :: x = d :: y := by
  have hend {k : Char} (hk : k = '/' ∨ k = '>') : isNameChar k = false ∧ k ≠ ' ' := by
    rcases hk with rfl | rfl <;> decide
  obtain ⟨k, rest, hk, hkchar⟩ := h.exists_cons (hend hc).1 x
  obtain ⟨k', rest', hk', hkchar'⟩ := h'.exists_cons (hend hd).1 y
  rw [hk, hk'] at heq
  obtain ⟨rfl, hafter⟩ := name_split hname hname' hkchar hkchar' heq
  rw [← hk, ← hk'] at hafter
  obtain ⟨rfl, hrest⟩ := h.split h' (hend hc).2 (hend hd).2 hafter
  exact ⟨rfl, rfl, hrest⟩

/-- An element starts with the first letter of its name, and not like an end tag. -/
theorem Element.Shown.exists_cons {e : Element} (h : e.Shown raw) :
    ∃ k rest, raw = '<' :: k :: rest ∧ k ≠ '/' := by
  have hletter {cs : List Char} (hcs : isName cs = true) : ∃ k rest, cs = k :: rest ∧ k ≠ '/' := by
    cases cs with
    | nil => cases hcs
    | cons k cs =>
        refine ⟨k, cs, rfl, ?_⟩
        rintro rfl
        cases hcs
  cases h with
  | empty hname =>
      obtain ⟨k, rest, hk, hne⟩ := hletter hname
      rw [hk]
      exact ⟨k, _, rfl, hne⟩
  | full hname =>
      obtain ⟨k, rest, hk, hne⟩ := hletter hname
      rw [hk]
      exact ⟨k, _, rfl, hne⟩

mutual

theorem Element.shown_unique (e : Element) {e' : Element} {raw raw' x y : List Char}
    (h : e.Shown raw) (h' : e'.Shown raw') (heq : raw ++ x = raw' ++ y) : e = e' ∧ x = y := by
  -- the two kinds of tag are the same up to their ends, which tell them apart
  cases h with
  | empty hname _ hattributes =>
      cases h' with
      | empty hname' _ hattributes' =>
          simp only [List.cons_append, List.append_assoc, List.nil_append] at heq
          obtain ⟨rfl, rfl, hend⟩ := tag_split hname hattributes hname' hattributes' (Or.inl rfl)
            (Or.inl rfl) (List.cons_eq_cons.mp heq).2
          exact ⟨rfl, (List.cons_eq_cons.mp (List.cons_eq_cons.mp hend).2).2⟩
      | full hname' _ hattributes' =>
          simp only [List.cons_append, List.append_assoc, List.nil_append] at heq
          obtain ⟨-, -, hend⟩ := tag_split hname hattributes hname' hattributes' (Or.inl rfl)
            (Or.inr rfl) (List.cons_eq_cons.mp heq).2
          cases (List.cons_eq_cons.mp hend).1
  | @full _ _ content _ _ hname _ hattributes hcontent =>
      cases h' with
      | empty hname' _ hattributes' =>
          simp only [List.cons_append, List.append_assoc, List.nil_append] at heq
          obtain ⟨-, -, hend⟩ := tag_split hname hattributes hname' hattributes' (Or.inr rfl)
            (Or.inl rfl) (List.cons_eq_cons.mp heq).2
          cases (List.cons_eq_cons.mp hend).1
      | full hname' _ hattributes' hcontent' =>
          simp only [List.cons_append, List.append_assoc, List.nil_append] at heq
          obtain ⟨rfl, rfl, hend⟩ := tag_split hname hattributes hname' hattributes' (Or.inr rfl)
            (Or.inr rfl) (List.cons_eq_cons.mp heq).2
          obtain ⟨rfl, hclose⟩ := Content.shown_unique content hcontent hcontent'
            (List.cons_eq_cons.mp hend).2
          exact ⟨rfl, (List.cons_eq_cons.mp (List.append_cancel_left hclose)).2⟩

theorem Content.shown_unique (content : Content) {content' : Content} {raw raw' x y : List Char}
    (h : content.Shown raw) (h' : content'.Shown raw')
    (heq : raw ++ '<' :: '/' :: x = raw' ++ '<' :: '/' :: y) : content = content' ∧ x = y := by
  -- text ends at the first '<'; what follows it is an end tag or the name of an element
  cases h with
  | text hvalue =>
      cases h' with
      | text hvalue' =>
          obtain ⟨hsame, hrest⟩ := hvalue.split (Or.inl rfl) hvalue' heq
          rw [String.toList_inj.mp hsame]
          exact ⟨rfl, (List.cons_eq_cons.mp hrest).2⟩
      | child hbefore' he' =>
          obtain ⟨k, rest, rfl, hk⟩ := he'.exists_cons
          simp only [List.cons_append, List.append_assoc] at heq
          obtain ⟨-, hrest⟩ := hvalue.split (Or.inl rfl) hbefore' heq
          exact absurd (List.cons_eq_cons.mp hrest).1.symm hk
  | @child _ e after _ head tail hbefore he hafter =>
      obtain ⟨k, rest, hhead, hk⟩ := he.exists_cons
      cases h' with
      | text hvalue' =>
          simp only [hhead, List.cons_append, List.append_assoc] at heq
          obtain ⟨-, hrest⟩ := hbefore.split (Or.inl rfl) hvalue' heq
          exact absurd (List.cons_eq_cons.mp hrest).1 hk
      | @child _ _ _ _ head' tail' hbefore' he' hafter' =>
          obtain ⟨k', rest', hhead', -⟩ := he'.exists_cons
          have hsplit := heq
          simp only [hhead, hhead', List.cons_append, List.append_assoc] at hsplit
          obtain ⟨hsame, hrest⟩ := hbefore.split (Or.inl rfl) hbefore' hsplit
          have helements : head ++ (tail ++ '<' :: '/' :: x) = head' ++ (tail' ++ '<' :: '/' :: y) := by
            rw [hhead, hhead']
            exact congrArg ('<' :: ·) hrest
          obtain ⟨rfl, hafters⟩ := Element.shown_unique e he he' helements
          obtain ⟨rfl, hend⟩ := Content.shown_unique after hafter hafter' hafters
          rw [String.toList_inj.mp hsame]
          exact ⟨rfl, hend⟩

end

theorem ShowsAttributes.isChar (h : ShowsAttributes attributes raw) : ∀ k ∈ raw, IsChar k.toNat := by
  induction h with
  | nil => exact List.forall_mem_nil _
  | cons hname hvalue _ ih =>
      simp only [List.forall_mem_cons, List.forall_mem_append]
      refine ⟨by decide, isChar_of_isName hname, by decide, by decide, ?_, by decide, ih⟩
      exact fun k hk => (hvalue.chars k hk).2.2

mutual

theorem Element.isChar_of_shown (e : Element) {raw : List Char} (h : e.Shown raw) :
    ∀ k ∈ raw, IsChar k.toNat := by
  cases h with
  | empty hname _ hattributes =>
      simp only [List.forall_mem_cons, List.forall_mem_append]
      exact ⟨by decide, isChar_of_isName hname, hattributes.isChar, by decide, by decide,
        List.forall_mem_nil _⟩
  | @full _ _ content _ _ hname _ hattributes hcontent =>
      have hinner := Content.isChar_of_shown content hcontent
      have hletters := isChar_of_isName hname
      simp only [List.forall_mem_cons, List.forall_mem_append]
      exact ⟨by decide, hletters, hattributes.isChar, by decide, hinner, by decide, by decide,
        hletters, by decide, List.forall_mem_nil _⟩

theorem Content.isChar_of_shown (content : Content) {raw : List Char} (h : content.Shown raw) :
    ∀ k ∈ raw, IsChar k.toNat := by
  cases h with
  | text hvalue => exact fun k hk => (hvalue.chars k hk).2.2
  | @child _ e after _ _ _ hbefore he hafter =>
      have hhead := Element.isChar_of_shown e he
      have htail := Content.isChar_of_shown after hafter
      simp only [List.forall_mem_append]
      exact ⟨fun k hk => (hbefore.chars k hk).2.2, hhead, htail⟩

end

end Tags

namespace IsDocument

variable {root root' : Element} {text : String}

theorem of_shown (h : root.Shown text.toList) :
    IsDocument root (declaration ++ "\n" ++ text ++ "\n") := by
  refine ⟨text.toList, h, ?_⟩
  rw [String.toList_append, String.toList_append, String.toList_append, List.append_assoc,
    List.append_assoc]
  rfl

/-- A text is the markup of one document only. -/
theorem unique (h : IsDocument root text) (h' : IsDocument root' text) : root = root' := by
  obtain ⟨raw, hshown, htext⟩ := h
  obtain ⟨raw', hshown', htext'⟩ := h'
  have hsame := List.append_cancel_left (htext.symm.trans htext')
  exact (Element.shown_unique root hshown hshown' (List.cons_eq_cons.mp hsame).2).1

theorem isChar (h : IsDocument root text) : ∀ k ∈ text.toList, IsChar k.toNat := by
  obtain ⟨raw, hshown, htext⟩ := h
  have hdeclaration : (declaration.toList.all fun k => IsChar k.toNat) = true := by decide
  rw [htext]
  simp only [List.forall_mem_cons, List.forall_mem_append]
  refine ⟨fun k hk => ?_, by decide, Element.isChar_of_shown root hshown, by decide,
    List.forall_mem_nil _⟩
  exact of_decide_eq_true (List.all_eq_true.mp hdeclaration k hk)

end IsDocument
end Wireframe.Markup
