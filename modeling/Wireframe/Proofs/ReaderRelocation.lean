import Wireframe.Proofs.PhraseReaders

/-! Readers and moved positions. When the positions of tokens are moved by any map, what is read off them is
what was read before with its positions moved, and where nothing was read the failure is the one before with
its positions moved (`Reader.Moves`). Each way of combining readers keeps this (`Moves.andThen` to
`Moves.block`), so it holds of the reader of a statement (`Statement.moves_reader`). -/

namespace Wireframe

/-- The token at the place that its position is moved to. -/
def Token.moved (f : Location → Location) (t : Token) : Token := { t with location := f t.location }

def GrammarFault.moved (f : Location → Location) : GrammarFault → GrammarFault
  | expected wanted got => expected wanted (got.moved f)
  | badValue got => badValue (got.moved f)

def SemanticFault.moved (f : Location → Location) : SemanticFault → SemanticFault
  | padding got => padding (got.moved f)
  | fault => fault

def Failure.moved (f : Location → Location) : Failure → Failure
  | lexical fault location => lexical fault (f location)
  | grammar fault location => grammar (fault.moved f) (f location)
  | semantic fault location => semantic (fault.moved f) (f location)
  | numeral tooLong => numeral tooLong
  | invalid errors => invalid errors

/-- An entry with the position of its value moved. -/
def Token.movedEntry (f : Location → Location) (e : String × Token) : String × Token := (e.1, e.2.moved f)

def Statement.moved (f : Location → Location) : Statement → Statement
  | grid cols rows location => grid cols rows (f location)
  | weights axis values location => weights axis values (f location)
  | component range entries location => component range (entries.map (Token.movedEntry f)) (f location)
  | s => s

/-- The outcome with the positions of a failure moved, and the value by a map of its own. -/
def Failure.carry {α β : Type} (f : Location → Location) (g : α → β) (x : Except Failure α) :
    Except Failure β :=
  (x.map g).mapError (Failure.moved f)

namespace Reader

variable {α α' β β' : Type} {f : Location → Location} {g : α → α'} {h : β → β'} {p : Reader α}
  {q : Reader α'}

/-- The second reader makes of tokens at moved positions what the first one makes of them where they are,
moved. -/
def Moves (f : Location → Location) (g : α → α') (p : Reader α) (q : Reader α') : Prop :=
  ∀ stop ts, q.run (stop.moved f) (ts.map (Token.moved f)) =
    Failure.carry f (fun r => (g r.1, r.2.map (Token.moved f))) (p.run stop ts)

theorem front_moved (stop : Token) (ts : List Token) :
    front (stop.moved f) (ts.map (Token.moved f)) = (front stop ts).moved f := by
  cases ts <;> rfl

theorem missing_moved (wanted : String) (stop : Token) (ts : List Token) :
    missing wanted (stop.moved f) (ts.map (Token.moved f)) = (missing wanted stop ts).moved f := by
  rw [missing, front_moved]
  rfl

theorem skipNewlines_moved (ts : List Token) :
    skipNewlines (ts.map (Token.moved f)) = (skipNewlines ts).map (Token.moved f) :=
  List.dropWhile_map ..

theorem moves_oneOfOr {kinds : List Token.Kind} {failure : Token → List Token → Failure}
    (hfailure : ∀ stop ts, failure (stop.moved f) (ts.map (Token.moved f)) = (failure stop ts).moved f) :
    Moves f (Token.moved f) (oneOfOr kinds failure) (oneOfOr kinds failure) := by
  intro stop ts
  cases ts with
  | nil => exact congrArg Except.error (hfailure stop [])
  | cons t rest =>
      have hkind : (t.moved f).kind = t.kind := rfl
      simp only [oneOfOr, List.map_cons, hkind]
      split
      · rfl
      · exact congrArg Except.error (hfailure stop (t :: rest))

theorem moves_oneOf {kinds : List Token.Kind} {wanted : String} :
    Moves f (Token.moved f) (oneOf kinds wanted) (oneOf kinds wanted) :=
  moves_oneOfOr (missing_moved wanted)

theorem moves_token {kind : Token.Kind} {context : String} :
    Moves f (Token.moved f) (token kind context) (token kind context) :=
  moves_oneOf

theorem Moves.andThen {k : α → Reader β} {k' : α' → Reader β'} (hp : Moves f g p q)
    (hk : ∀ a, Moves f h (k a) (k' (g a))) : Moves f h (p.andThen k) (q.andThen k') := by
  intro stop ts
  simp only [Reader.andThen, hp stop ts]
  cases p.run stop ts with
  | error e => rfl
  | ok r => exact hk r.1 stop r.2

theorem Moves.check {k : α → Except Failure β} {k' : α' → Except Failure β'} (hp : Moves f g p q)
    (hk : ∀ a, k' (g a) = Failure.carry f h (k a)) : Moves f h (p.check k) (q.check k') := by
  intro stop ts
  simp only [Reader.check, hp stop ts]
  cases p.run stop ts with
  | error e => rfl
  | ok r =>
      simp only [Failure.carry, Except.map, Except.mapError, hk]
      cases k r.1 <;> rfl

theorem Moves.map {k : α → β} {k' : α' → β'} (hp : Moves f g p q) (hk : ∀ a, k' (g a) = h (k a)) :
    Moves f h (p.map k) (q.map k') :=
  hp.check fun a => congrArg Except.ok (hk a)

theorem Moves.afterNewlines (hp : Moves f g p q) : Moves f g p.afterNewlines q.afterNewlines := by
  intro stop ts
  simp only [Reader.afterNewlines, skipNewlines_moved]
  exact hp stop (skipNewlines ts)

section Lists

variable {closing : Token.Kind}

theorem separator_moved (stop : Token) (ts : List Token) :
    separator closing (stop.moved f) (ts.map (Token.moved f)) =
      Failure.carry f (fun r => (r.1, r.2.map (Token.moved f))) (separator closing stop ts) := by
  rw [separator, separator, skipNewlines_moved, List.length_map, missing_moved]
  cases skipNewlines ts with
  | nil =>
      simp only [List.map_nil]
      split <;> rfl
  | cons t rest =>
      have hkind : (t.moved f).kind = t.kind := rfl
      simp only [List.map_cons, hkind, List.length_cons, List.length_map]
      split
      · rfl
      split
      · rfl
      split <;> rfl

theorem Moves.items (hp : Moves f g p q) (stop : Token) (ts : List Token) :
    items closing q (stop.moved f) (ts.map (Token.moved f)) =
      Failure.carry f (fun r => (r.1.map g, r.2.map (Token.moved f))) (items closing p stop ts) := by
  have hfront (ts : List Token) :
      (front (stop.moved f) ((skipNewlines ts).map (Token.moved f))).kind =
        (front stop (skipNewlines ts)).kind := by
    rw [front_moved]
    rfl
  fun_induction Reader.items closing p stop ts with
  | case1 ts hclosing =>
      rw [items_eq, skipNewlines_moved, if_pos ((hfront ts).trans hclosing)]
      rfl
  | case2 ts hopen e hfails =>
      rw [items_eq, skipNewlines_moved, hfront, if_neg hopen, hp, hfails]
      rfl
  | case3 ts hopen a mid hread e hfails =>
      rw [items_eq, skipNewlines_moved, hfront, if_neg hopen, hp, hread]
      simp only [Failure.carry, Except.map, Except.mapError, separator_moved, hfails]
  | case4 ts hopen a mid hread left hsep =>
      rw [items_eq, skipNewlines_moved, hfront, if_neg hopen, hp, hread]
      simp only [Failure.carry, Except.map, Except.mapError, separator_moved, hsep, List.map_cons,
        List.map_nil]
  | case5 ts hopen a mid hread left hsep hlt ih =>
      rw [items_eq, skipNewlines_moved, hfront, if_neg hopen, hp, hread]
      simp only [Failure.carry, Except.map, Except.mapError, separator_moved, hsep] at ih ⊢
      rw [ih]
      cases Reader.items closing p stop left <;> rfl

theorem Moves.block (hp : Moves f g p q) {opening : Token.Kind} {what : String} :
    Moves f (fun r => (r.1.map g, r.2.moved f)) (block opening closing what p)
      (block opening closing what q) := by
  refine moves_token.andThen fun _ stop ts => ?_
  simp only [closed, hp.items]
  cases Reader.items closing p stop ts with
  | error e => rfl
  | ok r =>
      have hlast : Moves f (fun l : List α × Token => (l.1.map g, l.2.moved f))
          ((token closing ("to close " ++ what)).map fun t => (r.1, t))
          ((token closing ("to close " ++ what)).map fun t => (r.1.map g, t)) :=
        moves_token.map fun _ => rfl
      exact hlast stop r.2

end Lists
end Reader

namespace Statement

open Reader

variable {f : Location → Location}

theorem moves_colonAfter (key : Token) :
    Moves f (Token.moved f) (colonAfter key) (colonAfter (key.moved f)) := moves_token

theorem moves_entry {what : String} {value : Reader Token} (h : Moves f (Token.moved f) value value) :
    Moves f (Token.movedEntry f) (entry what value) (entry what value) :=
  moves_oneOf.andThen fun name => (moves_colonAfter name).andThen fun _ => h.map fun _ => rfl

theorem moves_propertyValue : Moves f (Token.moved f) propertyValue propertyValue :=
  moves_oneOfOr fun stop ts => by
    rw [front_moved]
    rfl

theorem termsIn_moved (rule : Nat → Bool) (fault : String → SemanticFault)
    (hfault : ∀ text, (fault text).moved f = fault text) (t : Token) :
    termsIn rule fault (t.moved f) = Failure.carry f id (termsIn rule fault t) := by
  have hterms : terms (t.moved f) = Failure.carry f id (terms t) := by
    have hsame : terms (t.moved f) = terms t := rfl
    rw [hsame, terms]
    split
    · rfl
    · split <;> rfl
  rw [termsIn, hterms, termsIn]
  cases terms t with
  | error e => rfl
  | ok r =>
      simp only [Failure.carry, Except.map, Except.mapError, id]
      split
      · rfl
      · have hmoved : (Failure.semantic (fault t.value) t.location).moved f =
            .semantic (fault t.value) (f t.location) := by rw [Failure.moved, hfault]
        exact congrArg Except.error hmoved.symm

theorem themeName_moved (t : Token) : themeName (t.moved f) = Failure.carry f id (themeName t) := by
  have hvalue : (t.moved f).value = t.value := rfl
  rw [themeName, themeName, hvalue]
  split <;> rfl

theorem weight_moved (t : Token) : weight (t.moved f) = Failure.carry f id (weight t) := by
  have hdecimal : decimal (t.moved f) = decimal t := rfl
  rw [weight, weight, hdecimal]
  split <;> rfl

theorem someWeights_moved (listed : List Float × Token) :
    someWeights (listed.1, listed.2.moved f) = Failure.carry f id (someWeights listed) := by
  rw [someWeights, someWeights]
  split <;> rfl

theorem rangeOf_moved (t : Token) : rangeOf (t.moved f) = Failure.carry f id (rangeOf t) := by
  have hvalue : (t.moved f).value = t.value := rfl
  rw [rangeOf, rangeOf, hvalue]
  split <;> rfl

theorem moves_settingValue (key : Token) (s : Setting) :
    Moves f (Statement.moved f) (settingValue key s) (settingValue (key.moved f) s) := by
  cases s with
  | ratio => exact (moves_token.check (termsIn_moved _ _ fun _ => rfl)).map fun _ => rfl
  | grid =>
      refine moves_token.check fun t => ?_
      simp only [gridTerms, termsIn_moved _ .gridLimits (fun _ => rfl) t]
      cases termsIn (Settings.inGridLimits ·) .gridLimits t <;> rfl
  | gap | padding => exact moves_token.map fun _ => rfl
  | colors =>
      refine (moves_entry moves_oneOf).block.map fun listed => ?_
      simp only [List.map_map]
      rfl
  | theme => exact (moves_oneOf.check themeName_moved).map fun _ => rfl
  | weights axis =>
      have hweights : Moves f id ((block .leftBracket .rightBracket "weight list"
            ((token .number "in weight list").check weight)).check someWeights)
          ((block .leftBracket .rightBracket "weight list"
            ((token .number "in weight list").check weight)).check someWeights) := by
        refine (moves_token.check weight_moved).block.check fun listed => ?_
        rw [List.map_id]
        exact someWeights_moved listed
      exact hweights.map fun _ => rfl

theorem moves_componentValue (key : Token) (range : Range) :
    Moves f (Statement.moved f) (componentValue key range) (componentValue (key.moved f) range) :=
  (moves_entry moves_propertyValue).block.afterNewlines.map fun _ => rfl

theorem Subject.ofToken_moved (t : Token) :
    Subject.ofToken (t.moved f) = Failure.carry f id (Subject.ofToken t) := by
  have hkind : (t.moved f).kind = t.kind := rfl
  have hvalue : (t.moved f).value = t.value := rfl
  rw [Subject.ofToken, Subject.ofToken, hkind, hvalue, rangeOf_moved]
  split
  · split <;> rfl
  · cases rangeOf t <;> rfl

/-- A statement at moved positions is read as the statement that it was, moved. -/
theorem moves_reader : Moves f (Statement.moved f) reader reader := by
  have hfirst : Moves f (fun r : Token × Subject => (r.1.moved f, r.2))
      ((oneOf [.identifier, .cellRef, .cellRange] "metadata key or cell reference").check fun t =>
        (Subject.ofToken t).map (t, ·))
      ((oneOf [.identifier, .cellRef, .cellRange] "metadata key or cell reference").check fun t =>
        (Subject.ofToken t).map (t, ·)) := by
    refine moves_oneOf.check fun t => ?_
    rw [Subject.ofToken_moved]
    cases Subject.ofToken t <;> rfl
  refine hfirst.andThen fun (key, subject) => (moves_colonAfter key).andThen fun _ => ?_
  cases subject with
  | setting s => exact moves_settingValue key s
  | component range => exact moves_componentValue key range

end Statement
end Wireframe
