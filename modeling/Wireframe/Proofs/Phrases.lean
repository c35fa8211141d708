import Mathlib
import Wireframe.Statement.Basic

/-! The phrases of a document: sequences of tokens, as languages over tokens. They say what may follow
what, apart from how it is read: a statement of each kind, the lists in braces and brackets with the
separators between their items, and a document as statements with ends of line between them. -/

namespace Wireframe.Phrase

open scoped Computability

/-- One token of one of the kinds. -/
def oneOf (kinds : List Token.Kind) : Language Token := {ts | ∃ t, t.kind ∈ kinds ∧ ts = [t]}

def token (kind : Token.Kind) : Language Token := oneOf [kind]

def optional (l : Language Token) : Language Token := 1 + l

/-- An end of line, or nothing. -/
def newline? : Language Token := optional (token .newline)

/-- What stands between two items of a list: a comma, with an end of line on either side of it or
without, or an end of line alone. -/
def separator : Language Token := newline? * token .comma * newline? + token .newline

/-- One item or more, with a separator between each two of them. -/
def separated (sep item : Language Token) : Language Token := item * (sep * item)∗

/-- The items of a list, with a separator after the last one or without. -/
def items (item : Language Token) : Language Token := separated separator item * optional separator

def list (item : Language Token) : Language Token :=
  newline? * optional (items item) * newline?

/-- Words in the shape of a cell are names too. -/
def name : Language Token := oneOf [.identifier, .cellRef]

/-- A name, a colon and a token of one of the kinds. -/
def entry (values : List Token.Kind) : Language Token := name * token .colon * oneOf values

def colorEntry : Language Token := entry [.hexColor, .string, .identifier]

def propertyEntry : Language Token :=
  entry [.string, .identifier, .cellRef, .number, .hexColor, .themeRef]

/-- The key of a setting, in lower case; the weights of an axis have two. -/
def settingKeys : Setting → List String
  | .ratio => ["ratio"]
  | .grid => ["grid"]
  | .gap => ["gap"]
  | .padding => ["padding"]
  | .colors => ["colors"]
  | .theme => ["theme"]
  | .weights .columns => ["col-widths", "colwidths"]
  | .weights .rows => ["row-heights", "rowheights"]

def lowercase (s : String) : String := String.ofList (s.toList.map Char.toLower)

/-- The key of the setting, in any case. -/
def settingKey (s : Setting) : Language Token :=
  {ts | ∃ t, t.kind = .identifier ∧ lowercase t.value ∈ settingKeys s ∧ ts = [t]}

def settingValue : Setting → Language Token
  | .ratio => token .ratio
  | .grid => token .grid
  | .gap | .padding => token .number
  | .colors => token .leftBrace * list colorEntry * token .rightBrace
  | .theme => oneOf [.identifier, .string]
  | .weights _ => token .leftBracket * list (token .number) * token .rightBracket

def setting (s : Setting) : Language Token := settingKey s * token .colon * settingValue s

/-- What follows the colon of a component: its properties, on the same line or from the next one on. -/
def componentValue : Language Token :=
  newline? * (token .leftBrace * list propertyEntry * token .rightBrace)

def component : Language Token := oneOf [.cellRef, .cellRange] * token .colon * componentValue

def statement : Language Token := (⨆ s, setting s) + component

def statements : Language Token := separated (token .newline) statement

def document : Language Token := newline? * optional statements * newline?

section Membership

variable {l item : Language Token} {t : Token} {ts us vs : List Token} {kind : Token.Kind}
  {kinds : List Token.Kind}

theorem mem_oneOf : ts ∈ oneOf kinds ↔ ∃ t, t.kind ∈ kinds ∧ ts = [t] := Iff.rfl

theorem singleton_mem_oneOf : [t] ∈ oneOf kinds ↔ t.kind ∈ kinds := by
  rw [mem_oneOf]
  constructor
  · rintro ⟨u, hu, heq⟩
    cases heq
    exact hu
  · intro h
    exact ⟨t, h, rfl⟩

theorem mem_token : ts ∈ token kind ↔ ∃ t, t.kind = kind ∧ ts = [t] := by
  simp only [token, mem_oneOf, List.mem_singleton]

theorem singleton_mem_token : [t] ∈ token kind ↔ t.kind = kind := by
  rw [token, singleton_mem_oneOf, List.mem_singleton]

theorem mem_optional : ts ∈ optional l ↔ ts = [] ∨ ts ∈ l := by
  rw [optional, Language.mem_add, Language.mem_one]

theorem nil_mem_optional : [] ∈ optional l := mem_optional.mpr (Or.inl rfl)

theorem mem_optional_of_mem (h : ts ∈ l) : ts ∈ optional l := mem_optional.mpr (Or.inr h)

theorem mem_newline? : ts ∈ newline? ↔ ts = [] ∨ ∃ t, t.kind = .newline ∧ ts = [t] := by
  rw [newline?, mem_optional, mem_token]

theorem mem_mul (ha : us ∈ l) (hb : vs ∈ item) : us ++ vs ∈ l * item := Language.append_mem_mul ha hb

theorem mem_separated_of_mem (h : ts ∈ item) : ts ∈ separated l item := by
  have hone := mem_mul h (Language.nil_mem_kstar (l * item))
  rwa [List.append_nil] at hone

/-- One more item in front of others. -/
theorem mem_separated_cons (h : ts ∈ item) (hs : us ∈ l) (hrest : vs ∈ separated l item) :
    ts ++ (us ++ vs) ∈ separated l item := by
  obtain ⟨first, hfirst, more, hmore, rfl⟩ := hrest
  have hcons : us ++ first ++ more ∈ (l * item)∗ := by
    rw [← Language.one_add_self_mul_kstar_eq_kstar]
    exact Or.inr (mem_mul (mem_mul hs hfirst) hmore)
  have hall := mem_mul h hcons
  rwa [List.append_assoc] at hall

/-- What holds of single items and is kept by one more item in front holds of all their rows. -/
theorem separated_induction {C : List Token → Prop} (one : ∀ ts ∈ item, C ts)
    (cons : ∀ ts ∈ item, ∀ us ∈ l, ∀ vs ∈ separated l item, C vs → C (ts ++ (us ++ vs)))
    (h : ts ∈ separated l item) : C ts := by
  obtain ⟨first, hfirst, more, hmore, rfl⟩ := h
  obtain ⟨words, rfl, hwords⟩ := Language.mem_kstar.mp hmore
  clear hmore
  induction words generalizing first with
  | nil => simpa only [List.flatten_nil, List.append_nil] using one first hfirst
  | cons word words ih =>
      obtain ⟨⟨sep, hsep, next, hnext, rfl⟩, htail⟩ := List.forall_mem_cons.mp hwords
      have hrest : next ++ words.flatten ∈ separated l item :=
        mem_mul hnext (Language.join_mem_kstar htail)
      have hall := cons first hfirst sep hsep _ hrest (ih next hnext htail)
      simpa only [List.flatten_cons, List.append_assoc] using hall

theorem mem_list (hfirst : ts ∈ newline?) (hitems : us ∈ optional (items item)) (hlast : vs ∈ newline?) :
    ts ++ us ++ vs ∈ list item :=
  mem_mul (mem_mul hfirst hitems) hlast

theorem mem_statement :
    ts ∈ statement ↔ (∃ s, ts ∈ setting s) ∨ ts ∈ component := by
  rw [statement, Language.mem_add, Language.mem_iSup]

/-- Each word starts with a token of none of the kinds. -/
def StartsOff (kinds : List Token.Kind) (l : Language Token) : Prop :=
  ∀ ts ∈ l, ∃ t us, ts = t :: us ∧ t.kind ∉ kinds

theorem startsOff_oneOf {others : List Token.Kind} (h : ∀ kind ∈ kinds, kind ∉ others) :
    StartsOff others (oneOf kinds) := by
  rintro ts ⟨t, ht, rfl⟩
  exact ⟨t, [], rfl, h t.kind ht⟩

theorem StartsOff.mul (h : StartsOff kinds l) (m : Language Token) : StartsOff kinds (l * m) := by
  rintro ts ⟨us, hus, vs, -, rfl⟩
  obtain ⟨t, rest, rfl, ht⟩ := h us hus
  exact ⟨t, rest ++ vs, rfl, ht⟩

theorem startsOff_entry {values others : List Token.Kind}
    (h : ∀ kind ∈ [Token.Kind.identifier, .cellRef], kind ∉ others) : StartsOff others (entry values) :=
  ((startsOff_oneOf h).mul _).mul _

end Membership

section Lines

/-- The words stand one after another, each on lines of its own. -/
inductive IsLines : List (List Token) → List Token → Prop
  | none {line : List Token} (hline : ∀ t ∈ line, t.kind = .newline) : IsLines [] line
  | next {line word rest : List Token} {words : List (List Token)} (hline : ∀ t ∈ line, t.kind = .newline)
      (hend : ∀ t ∈ rest.head?, t.kind = .newline) :
      IsLines words rest → IsLines (word :: words) (line ++ (word ++ rest))

variable {words more : List (List Token)} {ts us line : List Token}

theorem IsLines.after (hline : ∀ t ∈ line, t.kind = .newline) (h : IsLines words ts) :
    IsLines words (line ++ ts) := by
  cases h with
  | none hmore => exact .none (List.forall_mem_append.mpr ⟨hline, hmore⟩)
  | next hmore hend hrest =>
      rw [← List.append_assoc]
      exact .next (List.forall_mem_append.mpr ⟨hline, hmore⟩) hend hrest

/-- Other words may stand behind the words, from the next line on. -/
theorem IsLines.append (h : IsLines words ts) (hend : words = [] ∨ ∀ t ∈ us.head?, t.kind = .newline)
    (hmore : IsLines more us) : IsLines (words ++ more) (ts ++ us) := by
  induction h with
  | none hline => exact hmore.after hline
  | @next line word rest words hline hnext hrest ih =>
      have hus := hend.resolve_left (List.cons_ne_nil _ _)
      rw [List.append_assoc, List.append_assoc]
      refine .next hline ?_ (ih (Or.inr hus))
      cases rest with
      | nil => exact hus
      | cons t rest => exact hnext

end Lines

/-- A key belongs to the setting that it is looked up as. -/
theorem ofKey?_eq_some_iff {key : String} {s : Setting} :
    Setting.ofKey? key = some s ↔ lowercase key ∈ settingKeys s := by
  have hkeys : ∀ e ∈ Setting.keys, e.1 ∈ settingKeys e.2 := by decide
  have hsettings : ∀ k ∈ settingKeys s, Setting.keys.lookup k = some s := by
    cases s with
    | weights axis => cases axis <;> decide
    | ratio | grid | gap | padding | colors | theme => decide
  rw [Setting.ofKey?, ← lowercase]
  constructor
  · intro h
    obtain ⟨before, after, heq, -⟩ := List.lookup_eq_some_iff.mp h
    refine hkeys (lowercase key, s) ?_
    rw [heq]
    exact List.mem_append_right _ List.mem_cons_self
  · exact hsettings _

end Wireframe.Phrase
