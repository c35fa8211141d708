import Wireframe.Proofs.Phrases
import Wireframe.Proofs.StatementRules

/-! Readers and phrases. A reader follows a language of token sequences when whatever it takes is a
word of the language, and when on a word of the language it takes exactly this word, or refuses what
the word says. Each way of combining readers keeps this (`Follows.andThen` to `Follows.block`), and the
reader of a statement follows the phrases of statements (`Statement.follows_reader`). -/

namespace Wireframe

/-- A rule is broken or a number is too long; the tokens are in their order. -/
def Failure.IsRefusal : Failure → Prop
  | semantic .. | numeral _ => True
  | lexical .. | grammar .. | invalid _ => False

/-- The result is a value with the condition, or a refusal. -/
def InOrder {α : Type} (Q : α → Prop) : Except Failure α → Prop
  | .ok a => Q a
  | .error e => e.IsRefusal

namespace InOrder

variable {α β : Type} {P : α → Prop} {Q : β → Prop} {x : Except Failure α}

theorem of_eq_ok {a : α} (h : InOrder P x) (hx : x = .ok a) : P a := by
  rw [hx] at h
  exact h

theorem of_eq_error {e : Failure} (h : InOrder P x) (hx : x = .error e) : e.IsRefusal := by
  rw [hx] at h
  exact h

theorem map {f : α → β} (hx : InOrder P x) (hf : ∀ a, P a → Q (f a)) : InOrder Q (x.map f) := by
  cases x with
  | error e => exact hx
  | ok a => exact hf a hx

end InOrder

namespace Reader

/-- No end of line follows another. -/
def LineEndsOnce (ts : List Token) : Prop :=
  ts.IsChain fun t u => ¬ (t.kind = .newline ∧ u.kind = .newline)

/-- The reader takes words of the language only, and where a word of it stands in front the reader
takes this word or refuses it. -/
structure Follows {α : Type} (p : Reader α) (l : Language Token) (P : α → Prop) : Prop where
  sound : ∀ {stop ts a rest}, LineEndsOnce ts → p.run stop ts = .ok (a, rest) →
    P a ∧ ∃ word ∈ l, word ++ rest = ts
  complete : ∀ stop rest, ∀ word ∈ l,
    InOrder (fun r => P r.1 ∧ r.2 = rest) (p.run stop (word ++ rest))

variable {α β : Type} {l m : Language Token} {P : α → Prop} {Q : β → Prop} {p : Reader α}
  {stop t u : Token} {ts us rest word : List Token} {e : Failure}

theorem LineEndsOnce.right (h : LineEndsOnce (us ++ ts)) : LineEndsOnce ts :=
  List.IsChain.right_of_append h

theorem skipNewlines_cons_of_ne (h : t.kind ≠ .newline) : skipNewlines (t :: ts) = t :: ts :=
  List.dropWhile_cons_of_neg (by simpa using h)

theorem skipNewlines_newline?_append (h : word ∈ Phrase.newline?) :
    skipNewlines (word ++ ts) = skipNewlines ts := by
  rcases Phrase.mem_newline?.mp h with rfl | ⟨t, ht, rfl⟩
  · rfl
  · exact List.dropWhile_cons_of_pos (by simpa using ht)

theorem kind_of_skipNewlines (h : skipNewlines ts = t :: us) : t.kind ≠ .newline := by
  intro hkind
  have hhead := List.head?_dropWhile_not (fun u : Token => decide (u.kind = .newline)) ts
  rw [skipNewlines] at h
  rw [h] at hhead
  simp [hkind] at hhead

/-- What is skipped is an end of line or nothing, since none follows another. -/
theorem exists_skipNewlines (h : LineEndsOnce ts) :
    ∃ word ∈ Phrase.newline?, word ++ skipNewlines ts = ts := by
  cases ts with
  | nil => exact ⟨[], Phrase.nil_mem_optional, rfl⟩
  | cons t ts =>
      by_cases ht : t.kind = .newline
      · refine ⟨[t], Phrase.mem_newline?.mpr (Or.inr ⟨t, ht, rfl⟩), ?_⟩
        have hskip : skipNewlines (t :: ts) = skipNewlines ts :=
          List.dropWhile_cons_of_pos (by simpa using ht)
        rw [hskip]
        cases ts with
        | nil => rfl
        | cons u us =>
            have hu : u.kind ≠ .newline := fun hu => (List.isChain_cons_cons.mp h).1 ⟨ht, hu⟩
            rw [skipNewlines_cons_of_ne hu]
            rfl
      · exact ⟨[], Phrase.nil_mem_optional, by rw [skipNewlines_cons_of_ne ht]; rfl⟩

theorem follows_oneOfOr {kinds : List Token.Kind} {failure : Token → List Token → Failure} :
    Follows (oneOfOr kinds failure) (Phrase.oneOf kinds) fun t => t.kind ∈ kinds where
  sound {stop ts a rest} _ h := by
    cases ts with
    | nil => cases h
    | cons t ts =>
        simp only [oneOfOr] at h
        split at h
        · next hkind =>
          cases h
          exact ⟨hkind, [_], Phrase.singleton_mem_oneOf.mpr hkind, rfl⟩
        · cases h
  complete stop rest word hword := by
    obtain ⟨t, hkind, rfl⟩ := hword
    simp only [oneOfOr, List.singleton_append, if_pos hkind]
    exact ⟨hkind, rfl⟩

theorem Follows.imp {P' : α → Prop} (hp : Follows p l P) (h : ∀ a, P a → P' a) : Follows p l P' where
  sound hts hrun := (hp.sound hts hrun).imp_left (h _)
  complete stop rest word hword := by
    have hread := hp.complete stop rest word hword
    cases hrun : p.run stop (word ++ rest) with
    | error e => exact hread.of_eq_error hrun
    | ok r => exact (hread.of_eq_ok hrun).imp_left (h _)

theorem follows_oneOf {kinds : List Token.Kind} {wanted : String} :
    Follows (oneOf kinds wanted) (Phrase.oneOf kinds) fun t => t.kind ∈ kinds :=
  follows_oneOfOr

theorem follows_token {kind : Token.Kind} {context : String} :
    Follows (token kind context) (Phrase.token kind) fun t => t.kind ∈ [kind] :=
  follows_oneOf

theorem andThen_eq_ok {f : α → Reader β} {b : β} :
    (p.andThen f).run stop ts = .ok (b, rest) ↔
      ∃ a mid, p.run stop ts = .ok (a, mid) ∧ (f a).run stop mid = .ok (b, rest) := by
  simp only [Reader.andThen]
  rcases p.run stop ts with e' | ⟨a, mid⟩ <;> simp

theorem andThen_eq_error {f : α → Reader β} :
    (p.andThen f).run stop ts = .error e ↔
      p.run stop ts = .error e ∨ ∃ a mid, p.run stop ts = .ok (a, mid) ∧ (f a).run stop mid = .error e := by
  simp only [Reader.andThen]
  rcases p.run stop ts with e' | ⟨a, mid⟩ <;> simp

theorem check_eq_ok {f : α → Except Failure β} {b : β} :
    (p.check f).run stop ts = .ok (b, rest) ↔ ∃ a, p.run stop ts = .ok (a, rest) ∧ f a = .ok b := by
  simp only [Reader.check]
  rcases p.run stop ts with e' | ⟨a, mid⟩
  · simp
  · simp [Results.map_eq_ok, and_comm]

theorem check_eq_error {f : α → Except Failure β} :
    (p.check f).run stop ts = .error e ↔
      p.run stop ts = .error e ∨ ∃ a mid, p.run stop ts = .ok (a, mid) ∧ f a = .error e := by
  simp only [Reader.check]
  rcases p.run stop ts with e' | ⟨a, mid⟩
  · simp
  · simp [Results.map_eq_error]

theorem Follows.andThen {f : α → Reader β} (hp : Follows p l P) (hf : ∀ a, P a → Follows (f a) m Q) :
    Follows (p.andThen f) (l * m) Q where
  sound {stop ts b rest} hts h := by
    obtain ⟨a, mid, hrun, hmid⟩ := andThen_eq_ok.mp h
    obtain ⟨ha, first, hfirst, rfl⟩ := hp.sound hts hrun
    obtain ⟨hb, second, hsecond, rfl⟩ := (hf a ha).sound hts.right hmid
    exact ⟨hb, first ++ second, Phrase.mem_mul hfirst hsecond, List.append_assoc ..⟩
  complete stop rest word hword := by
    obtain ⟨first, hfirst, second, hsecond, rfl⟩ := hword
    have hread := hp.complete stop (second ++ rest) first hfirst
    simp only [Reader.andThen, List.append_assoc]
    cases hrun : p.run stop (first ++ (second ++ rest)) with
    | error e => exact hread.of_eq_error hrun
    | ok r =>
        obtain ⟨a, mid⟩ := r
        obtain ⟨ha, rfl⟩ := hread.of_eq_ok hrun
        exact (hf a ha).complete stop rest second hsecond

theorem Follows.check {f : α → Except Failure β} (hp : Follows p l P)
    (hf : ∀ a, P a → InOrder Q (f a)) : Follows (p.check f) l Q where
  sound {stop ts b rest} hts h := by
    obtain ⟨a, hrun, hb⟩ := check_eq_ok.mp h
    obtain ⟨ha, hword⟩ := hp.sound hts hrun
    exact ⟨(hf a ha).of_eq_ok hb, hword⟩
  complete stop rest word hword := by
    have hread := hp.complete stop rest word hword
    simp only [Reader.check]
    cases hrun : p.run stop (word ++ rest) with
    | error e => exact hread.of_eq_error hrun
    | ok r =>
        obtain ⟨a, mid⟩ := r
        obtain ⟨ha, hmid⟩ := hread.of_eq_ok hrun
        exact (hf a ha).map fun b hb => ⟨hb, hmid⟩

theorem Follows.map {f : α → β} (hp : Follows p l P) (hf : ∀ a, P a → Q (f a)) :
    Follows (p.map f) l Q :=
  hp.check hf

theorem Follows.afterNewlines (hp : Follows p l P) (hl : Phrase.StartsOff [.newline] l) :
    Follows p.afterNewlines (Phrase.newline? * l) P where
  sound {stop ts a rest} hts h := by
    obtain ⟨skipped, hskipped, heq⟩ := exists_skipNewlines hts
    rw [← heq] at hts
    obtain ⟨ha, word, hword, hrest⟩ := hp.sound hts.right h
    refine ⟨ha, skipped ++ word, Phrase.mem_mul hskipped hword, ?_⟩
    rw [List.append_assoc, hrest, heq]
  complete stop rest word hword := by
    obtain ⟨skipped, hskipped, word, hword, rfl⟩ := hword
    obtain ⟨t, us, rfl, ht⟩ := hl word hword
    simp only [Reader.afterNewlines, List.append_assoc, skipNewlines_newline?_append hskipped]
    rw [List.cons_append, skipNewlines_cons_of_ne (List.ne_of_not_mem_cons ht), ← List.cons_append]
    exact hp.complete stop rest _ hword

section Lists

variable {closing : Token.Kind}

theorem separator_of_comma (hskipped : word ∈ Phrase.newline?) (ht : t.kind = .comma) :
    separator closing stop (word ++ t :: ts) = .ok (true, ts) := by
  have hskip : skipNewlines (word ++ t :: ts) = t :: ts := by
    rw [skipNewlines_newline?_append hskipped, skipNewlines_cons_of_ne (by simp [ht])]
  simp only [separator, hskip, if_pos ht]

theorem separator_of_closing (hskipped : skipNewlines ts = t :: us) (ht : t.kind = closing)
    (hcomma : closing ≠ .comma) : separator closing stop ts = .ok (false, t :: us) := by
  simp only [separator, hskipped, if_neg (ht ▸ hcomma), if_pos ht]

theorem separator_of_newline (ht : t.kind = .newline) (hu : u.kind ∉ [.newline, .comma, closing]) :
    separator closing stop (t :: u :: us) = .ok (true, u :: us) := by
  simp only [List.mem_cons, List.not_mem_nil, or_false, not_or] at hu
  have hskip : skipNewlines (t :: u :: us) = u :: us := by
    rw [skipNewlines, List.dropWhile_cons_of_pos (by simpa using ht)]
    exact skipNewlines_cons_of_ne hu.1
  simp only [separator, hskip, if_neg hu.2.1, if_neg hu.2.2, List.length_cons, Nat.lt_add_one, if_true]

/-- What stands between two items is a separator, together with the end of line that may stand after
it. -/
theorem separator_sound {b : Bool} (hts : LineEndsOnce ts) (h : separator closing stop ts = .ok (b, rest)) :
    ∃ front, front ++ rest = ts ∧
      if b then ∀ next ∈ Phrase.newline?, next <+: rest → front ++ next ∈ Phrase.separator
      else front ∈ Phrase.newline? := by
  obtain ⟨skipped, hskipped, heq⟩ := exists_skipNewlines hts
  -- an end of line that has been skipped is the whole separator, as no other follows it
  have halone (hlt : (skipNewlines ts).length < ts.length) {next : List Token}
      (hnext : next ∈ Phrase.newline?) (hbegins : next <+: skipNewlines ts) :
      skipped ++ next ∈ Phrase.separator := by
    rcases Phrase.mem_newline?.mp hskipped with rfl | hnewline
    · rw [List.nil_append] at heq
      exact absurd (congrArg List.length heq) (Nat.ne_of_lt hlt)
    · rcases Phrase.mem_newline?.mp hnext with rfl | ⟨t, ht, rfl⟩
      · rw [List.append_nil]
        exact Or.inr (Phrase.mem_token.mpr hnewline)
      · obtain ⟨us, hus⟩ := hbegins
        exact absurd ht (kind_of_skipNewlines hus.symm)
  unfold separator at h
  split at h
  · next t us hskip =>
    split at h
    · next ht =>
      cases h
      refine ⟨skipped ++ [t], ?_, fun next hnext _ => ?_⟩
      · rw [List.append_assoc, List.singleton_append, ← hskip, heq]
      · exact Or.inl (Phrase.mem_mul (Phrase.mem_mul hskipped (Phrase.singleton_mem_token.mpr ht)) hnext)
    split at h
    · cases h
      exact ⟨skipped, hskip ▸ heq, hskipped⟩
    split at h
    · next hlt =>
      cases h
      rw [← hskip] at hlt ⊢
      exact ⟨skipped, heq, fun next => halone hlt⟩
    · cases h
  · next hskip =>
    split at h
    · next hpos =>
      cases h
      have hlt : (skipNewlines ts).length < ts.length := by rwa [hskip]
      rw [← hskip]
      exact ⟨skipped, heq, fun next => halone hlt⟩
    · cases h

theorem Follows.sound_items (hp : Follows p l P) (hts : LineEndsOnce ts) {as : List α}
    (h : items closing p stop ts = .ok (as, rest)) :
    (∀ a ∈ as, P a) ∧
      ∃ first ∈ Phrase.newline?, ∃ body ∈ Phrase.optional (Phrase.items l), first ++ body ++ rest = ts := by
  fun_induction items closing p stop ts generalizing as rest with
  | case1 ts _ =>
      cases h
      obtain ⟨first, hfirst, heq⟩ := exists_skipNewlines hts
      refine ⟨fun _ ha => absurd ha List.not_mem_nil, first, hfirst, [], Phrase.nil_mem_optional, ?_⟩
      rw [List.append_nil, heq]
  | case2 => cases h
  | case3 => cases h
  | case4 ts _ a mid hread left hsep =>
      cases h
      obtain ⟨first, hfirst, heq⟩ := exists_skipNewlines hts
      have hskipped : LineEndsOnce (skipNewlines ts) := (heq ▸ hts).right
      obtain ⟨ha, word, hword, hmid⟩ := hp.sound hskipped hread
      obtain ⟨last, hlast, hend⟩ := separator_sound (hmid ▸ hskipped).right hsep
      refine ⟨List.forall_mem_singleton.mpr ha, first, hfirst, word ++ last, ?_, ?_⟩
      · refine Phrase.mem_optional_of_mem ?_
        rcases Phrase.mem_newline?.mp hend with rfl | hnewline
        · exact Phrase.mem_mul (Phrase.mem_separated_of_mem hword) Phrase.nil_mem_optional
        · exact Phrase.mem_mul (Phrase.mem_separated_of_mem hword)
            (Phrase.mem_optional_of_mem (Or.inr (Phrase.mem_token.mpr hnewline)))
      · rw [List.append_assoc, List.append_assoc, hlast, hmid, heq]
  | case5 ts _ a mid hread left hsep hlt ih =>
      obtain ⟨first, hfirst, heq⟩ := exists_skipNewlines hts
      have hskipped : LineEndsOnce (skipNewlines ts) := (heq ▸ hts).right
      obtain ⟨ha, word, hword, hmid⟩ := hp.sound hskipped hread
      have hmiddle : LineEndsOnce mid := (hmid ▸ hskipped).right
      obtain ⟨front, hfront, hseparates⟩ := separator_sound hmiddle hsep
      simp only [if_true] at hseparates
      obtain ⟨⟨others, last⟩, hrest, hpair⟩ := Results.map_eq_ok.mp h
      cases hpair
      obtain ⟨hothers, next, hnext, body, hbody, hleft⟩ := ih (hfront ▸ hmiddle).right hrest
      have hbegins : next <+: left := ⟨body ++ rest, by rw [← hleft, List.append_assoc]⟩
      have hsep := hseparates next hnext hbegins
      refine ⟨List.forall_mem_cons.mpr ⟨ha, hothers⟩, first, hfirst, word ++ (front ++ next ++ body), ?_, ?_⟩
      · refine Phrase.mem_optional_of_mem ?_
        rcases Phrase.mem_optional.mp hbody with rfl | ⟨more, hmore, final, hfinal, rfl⟩
        · rw [List.append_nil]
          exact Phrase.mem_mul (Phrase.mem_separated_of_mem hword) (Phrase.mem_optional_of_mem hsep)
        · have hall := Phrase.mem_mul (Phrase.mem_separated_cons hword hsep hmore) hfinal
          rw [Phrase.items]
          simpa only [List.append_assoc] using hall
      · simp only [List.append_assoc] at hleft ⊢
        rw [hleft, hfront, hmid, heq]

theorem items_eq (closing : Token.Kind) (p : Reader α) (stop : Token) (ts : List Token) :
    items closing p stop ts =
      if (front stop (skipNewlines ts)).kind = closing then .ok ([], skipNewlines ts)
      else match p.run stop (skipNewlines ts) with
        | .error e => .error e
        | .ok (a, rest) => match separator closing stop rest with
          | .error e => .error e
          | .ok (false, left) => .ok ([a], left)
          | .ok (true, left) => (items closing p stop left).map fun r => (a :: r.1, r.2) := by
  rw [items]
  split
  · rfl
  · split
    · next h => simp only [h]
    · next h =>
      simp only [h]
      split
      · next hs => simp only [hs]
      · next hs => simp only [hs]
      · next hs => simp only [hs]

theorem items_of_closing (hskipped : skipNewlines ts = t :: us) (ht : t.kind = closing) :
    items closing p stop ts = .ok ([], t :: us) := by
  rw [items_eq, hskipped]
  exact if_pos ht

/-- After an item that is read, a separator, and what the rest of the list is read as. -/
theorem Follows.items_cons (hp : Follows p l P) (hl : Phrase.StartsOff [.newline, .comma, closing] l)
    {first : List Token} (hfirst : first ∈ Phrase.newline?) (hword : word ∈ l)
    (hsep : (∃ left, separator closing stop ts = .ok (true, left) ∧
        InOrder (fun r => (∀ a ∈ r.1, P a) ∧ r.2 = rest) (items closing p stop left)) ∨
      separator closing stop ts = .ok (false, rest)) :
    InOrder (fun r => (∀ a ∈ r.1, P a) ∧ r.2 = rest) (items closing p stop (first ++ (word ++ ts))) := by
  have hread := hp.complete stop ts word hword
  have hskip : skipNewlines (first ++ (word ++ ts)) = word ++ ts := by
    obtain ⟨t, us, rfl, ht⟩ := hl word hword
    rw [skipNewlines_newline?_append hfirst]
    exact skipNewlines_cons_of_ne (List.ne_of_not_mem_cons ht)
  have hopen : ¬ (front stop (word ++ ts)).kind = closing := by
    obtain ⟨t, us, rfl, ht⟩ := hl word hword
    simp only [List.mem_cons, List.not_mem_nil, or_false, not_or] at ht
    exact ht.2.2
  rw [items_eq, hskip, if_neg hopen]
  cases hrun : p.run stop (word ++ ts) with
  | error e => exact hread.of_eq_error hrun
  | ok r =>
      obtain ⟨a, mid⟩ := r
      obtain ⟨ha, rfl⟩ := hread.of_eq_ok hrun
      rcases hsep with ⟨left, htrue, hleft⟩ | hfalse
      · simp only [htrue]
        exact hleft.map fun r hr => ⟨List.forall_mem_cons.mpr ⟨ha, hr.1⟩, hr.2⟩
      · simp only [hfalse]
        exact ⟨List.forall_mem_singleton.mpr ha, rfl⟩

variable {close : Token}

/-- The rest of a list after its last item: a separator or none, and the end of line before the closing
token. -/
theorem Follows.items_last (hp : Follows p l P) (hl : Phrase.StartsOff [.newline, .comma, closing] l)
    (hclosing : closing ∉ [.newline, .comma]) (hclose : close.kind = closing) {first final last : List Token}
    (hfirst : first ∈ Phrase.newline?) (hword : word ∈ l) (hfinal : final ∈ Phrase.optional Phrase.separator)
    (hlast : last ∈ Phrase.newline?) :
    InOrder (fun r => (∀ a ∈ r.1, P a) ∧ r.2 = close :: rest)
      (items closing p stop (first ++ (word ++ (final ++ (last ++ close :: rest))))) := by
  simp only [List.mem_cons, List.not_mem_nil, or_false, not_or] at hclosing
  have hskip : skipNewlines (last ++ close :: rest) = close :: rest := by
    rw [skipNewlines_newline?_append hlast, skipNewlines_cons_of_ne (hclose ▸ hclosing.1)]
  refine hp.items_cons hl hfirst hword ?_
  rcases Phrase.mem_optional.mp hfinal with rfl | hsep | hnewline
  · exact Or.inr (separator_of_closing hskip hclose hclosing.2)
  · obtain ⟨_, ⟨before, hbefore, _, ⟨comma, hcomma, rfl⟩, rfl⟩, after, hafter, rfl⟩ := hsep
    refine Or.inl ⟨after ++ (last ++ close :: rest), ?_, ?_⟩
    · simp only [List.append_assoc, List.singleton_append]
      exact separator_of_comma hbefore (List.mem_singleton.mp hcomma)
    · have hboth : skipNewlines (after ++ (last ++ close :: rest)) = close :: rest := by
        rw [skipNewlines_newline?_append hafter, hskip]
      rw [items_of_closing hboth hclose]
      exact ⟨fun _ ha => absurd ha List.not_mem_nil, rfl⟩
  · have hboth : skipNewlines (final ++ (last ++ close :: rest)) = close :: rest := by
      rw [skipNewlines_newline?_append (Phrase.mem_optional_of_mem hnewline), hskip]
    exact Or.inr (separator_of_closing hboth hclose hclosing.2)

theorem Follows.complete_items (hp : Follows p l P) (hl : Phrase.StartsOff [.newline, .comma, closing] l)
    (hclosing : closing ∉ [.newline, .comma]) (hclose : close.kind = closing)
    (hword : word ∈ Phrase.list l) :
    InOrder (fun r => (∀ a ∈ r.1, P a) ∧ r.2 = close :: rest)
      (items closing p stop (word ++ close :: rest)) := by
  obtain ⟨_, ⟨first, hfirst, body, hbody, rfl⟩, last, hlast, rfl⟩ := hword
  rcases Phrase.mem_optional.mp hbody with rfl | ⟨row, hrow, final, hfinal, rfl⟩
  · have hskip : skipNewlines (first ++ (last ++ close :: rest)) = close :: rest := by
      simp only [List.mem_cons, List.not_mem_nil, or_false, not_or] at hclosing
      rw [skipNewlines_newline?_append hfirst, skipNewlines_newline?_append hlast,
        skipNewlines_cons_of_ne (hclose ▸ hclosing.1)]
    simp only [List.append_nil, List.append_assoc]
    rw [items_of_closing hskip hclose]
    exact ⟨fun _ ha => absurd ha List.not_mem_nil, rfl⟩
  · simp only [List.append_assoc]
    clear hbody
    -- induction on the items of the list, with the ends of line in front of it left general
    revert first
    refine Phrase.separated_induction (C := fun row => ∀ first ∈ Phrase.newline?,
      InOrder (fun r => (∀ a ∈ r.1, P a) ∧ r.2 = close :: rest)
        (items closing p stop (first ++ (row ++ (final ++ (last ++ close :: rest)))))) ?_ ?_ hrow
    · intro word hword first hfirst
      exact hp.items_last hl hclosing hclose hfirst hword hfinal hlast
    · intro word hword sep hsep more hmore ih first hfirst
      simp only [List.append_assoc]
      refine hp.items_cons hl hfirst hword (Or.inl ?_)
      rcases hsep with hcomma | ⟨newline, hnewline, rfl⟩
      · obtain ⟨_, ⟨before, hbefore, _, ⟨comma, hcomma, rfl⟩, rfl⟩, after, hafter, rfl⟩ := hcomma
        refine ⟨after ++ (more ++ (final ++ (last ++ close :: rest))), ?_, ih after hafter⟩
        simp only [List.append_assoc, List.singleton_append]
        exact separator_of_comma hbefore (List.mem_singleton.mp hcomma)
      · refine ⟨more ++ (final ++ (last ++ close :: rest)), ?_, ih [] Phrase.nil_mem_optional⟩
        obtain ⟨next, hnext, others, -, rfl⟩ := hmore
        obtain ⟨t, us, rfl, ht⟩ := hl next hnext
        exact separator_of_newline (List.mem_singleton.mp hnewline) ht

theorem Follows.closed (hp : Follows p l P) (hl : Phrase.StartsOff [.newline, .comma, closing] l)
    (hclosing : closing ∉ [.newline, .comma]) {context : String} :
    Follows (closed closing context p) (Phrase.list l * Phrase.token closing)
      fun r => ∀ a ∈ r.1, P a where
  sound {stop ts r rest} hts h := by
    simp only [Reader.closed] at h
    cases hrun : items closing p stop ts with
    | error e => simp [hrun] at h
    | ok found =>
        obtain ⟨as, mid⟩ := found
        simp only [hrun] at h
        obtain ⟨has, first, hfirst, body, hbody, rfl⟩ := hp.sound_items hts hrun
        have hlast : Follows ((token closing context).map fun t => (as, t)) (Phrase.token closing)
            fun r => r.1 = as := follows_token.map fun _ _ => rfl
        obtain ⟨rfl, word, hword, rfl⟩ := hlast.sound hts.right h
        refine ⟨has, first ++ body ++ [] ++ word, Phrase.mem_mul ?_ hword, ?_⟩
        · exact Phrase.mem_list hfirst hbody Phrase.nil_mem_optional
        · simp only [List.append_assoc, List.nil_append]
  complete stop rest word hword := by
    obtain ⟨listed, hlisted, _, ⟨close, hclose, rfl⟩, rfl⟩ := hword
    have hitems : InOrder (fun r => (∀ a ∈ r.1, P a) ∧ r.2 = close :: rest)
        (items closing p stop (listed ++ close :: rest)) :=
      hp.complete_items hl hclosing (List.mem_singleton.mp hclose) hlisted
    simp only [Reader.closed, List.append_assoc, List.singleton_append]
    cases hrun : items closing p stop (listed ++ close :: rest) with
    | error e => exact hitems.of_eq_error hrun
    | ok found =>
        obtain ⟨as, mid⟩ := found
        obtain ⟨has, rfl⟩ := hitems.of_eq_ok hrun
        have hlast : Follows ((token closing context).map fun t => (as, t)) (Phrase.token closing)
            fun r => ∀ a ∈ r.1, P a := follows_token.map fun _ _ => has
        exact hlast.complete stop rest [close] ⟨close, hclose, rfl⟩

theorem Follows.block (hp : Follows p l P) (hl : Phrase.StartsOff [.newline, .comma, closing] l)
    (hclosing : closing ∉ [.newline, .comma]) {opening : Token.Kind} {what : String} :
    Follows (block opening closing what p)
      (Phrase.token opening * (Phrase.list l * Phrase.token closing)) fun r => ∀ a ∈ r.1, P a :=
  follows_token.andThen fun _ _ => hp.closed hl hclosing

end Lists
end Reader

namespace Statement

open Reader

variable {t : Token}

theorem inOrder_terms (t : Token) : InOrder (fun _ => True) (terms t) := by
  rw [terms]
  split
  · trivial
  · split <;> trivial

theorem inOrder_termsIn (rule : Nat → Bool) (fault : String → SemanticFault) (t : Token) :
    InOrder (fun r => rule r.1 = true ∧ rule r.2 = true) (termsIn rule fault t) := by
  have hterms := inOrder_terms t
  rw [termsIn]
  cases hr : terms t with
  | error e => exact hterms.of_eq_error hr
  | ok r =>
      simp only
      split
      · next hrule =>
        rw [Bool.and_eq_true] at hrule
        exact hrule
      · trivial

theorem inOrder_ratioTerms (t : Token) :
    InOrder (fun r => 0 < r.1 ∧ 0 < r.2) (ratioTerms t) := by
  have hterms : InOrder (fun r => decide (0 < r.1) = true ∧ decide (0 < r.2) = true) (ratioTerms t) :=
    inOrder_termsIn (0 < ·) .ratioTerms t
  simpa only [decide_eq_true_eq] using hterms

theorem inOrder_themeName (t : Token) :
    InOrder (fun name => ∃ theme, Theme.named? (some name) = .ok theme) (themeName t) := by
  rw [themeName]
  split
  · next theme h => exact ⟨theme, h⟩
  · trivial

theorem inOrder_weight (t : Token) : InOrder (fun w => Settings.isPositive w = true) (weight t) := by
  rw [weight]
  split
  · assumption
  · trivial

theorem inOrder_someWeights {listed : List Float × Token}
    (h : ∀ w ∈ listed.1, Settings.isPositive w = true) :
    InOrder (fun ws => ∀ w ∈ ws, Settings.isPositive w = true) (someWeights listed) := by
  rw [someWeights]
  split
  · trivial
  · exact h

theorem inOrder_rangeOf (t : Token) : InOrder (fun range => range.isWritable = true) (rangeOf t) := by
  rw [rangeOf]
  split
  · next range h => exact Range.isWritable_of_read h
  · trivial
  · trivial

theorem follows_entry {what : String} {value : Reader Token} {values : List Token.Kind}
    {P : Token → Prop} (h : Follows value (Phrase.oneOf values) P) :
    Follows (entry what value) (Phrase.entry values) fun _ => True := by
  rw [Phrase.entry, mul_assoc]
  exact follows_oneOf.andThen fun _ _ => follows_token.andThen fun _ _ => h.map fun _ _ => trivial

theorem follows_settingValue (key : Token) (s : Setting) :
    Follows (settingValue key s) (Phrase.settingValue s) IsSound := by
  cases s with
  | ratio => exact (follows_token.check fun t _ => inOrder_ratioTerms t).map fun _ h => h
  | grid =>
      refine follows_token.check fun t _ => ?_
      exact (inOrder_termsIn (Settings.inGridLimits ·) .gridLimits t).map fun _ h => h
  | gap => exact follows_token.map fun t _ => Decimal.notNegative_read t.value.toList
  | padding => exact follows_token.map fun t _ => Decimal.notNegative_read t.value.toList
  | colors =>
      rw [Phrase.settingValue, mul_assoc]
      refine (Follows.block (follows_entry follows_oneOf) ?_ (by decide)).map fun _ _ => trivial
      exact Phrase.startsOff_entry (by decide)
  | theme => exact (follows_oneOf.check fun t _ => inOrder_themeName t).map fun _ h => h
  | weights axis =>
      rw [Phrase.settingValue, mul_assoc]
      have hweight : Follows ((token .number "in weight list").check weight) (Phrase.token .number)
          fun w => Settings.isPositive w = true := follows_token.check fun t _ => inOrder_weight t
      refine (Follows.check (hweight.block ?_ (by decide)) fun _ h => inOrder_someWeights h).map
        fun _ h => h
      exact Phrase.startsOff_oneOf (by decide)

theorem follows_componentValue (key : Token) {range : Range} (h : range.isWritable = true) :
    Follows (componentValue key range) Phrase.componentValue IsSound := by
  have hentry : Follows propertyEntry Phrase.propertyEntry fun _ => True :=
    follows_entry follows_oneOfOr
  have hblock : Follows (block .leftBrace .rightBrace "properties" propertyEntry)
      (Phrase.token .leftBrace * (Phrase.list Phrase.propertyEntry * Phrase.token .rightBrace))
      fun _ => True := by
    refine (hentry.block ?_ (by decide)).imp fun _ _ => trivial
    exact Phrase.startsOff_entry (by decide)
  rw [Phrase.componentValue, mul_assoc]
  exact (hblock.afterNewlines ((Phrase.startsOff_oneOf (by decide)).mul _)).map fun _ _ => h

namespace Subject

/-- What follows the colon after the first token. -/
def phrase : Subject → Language Token
  | setting s => Phrase.settingValue s
  | component _ => Phrase.componentValue

theorem inOrder_ofToken (t : Token) : InOrder IsSound (ofToken t) := by
  rw [ofToken]
  split
  · split <;> trivial
  · exact (inOrder_rangeOf t).map fun _ h => h

theorem follows_value {subject : Subject} (key : Token) (h : subject.IsSound) :
    Follows (subject.value key) subject.phrase Statement.IsSound := by
  cases subject with
  | setting s => exact follows_settingValue key s
  | component range => exact follows_componentValue key h

/-- The first token of a statement announces how the statement goes on. -/
theorem cons_mem_statement {subject : Subject} {us : List Token}
    (hkind : t.kind ∈ [Token.Kind.identifier, .cellRef, .cellRange]) (h : ofToken t = .ok subject)
    (hus : us ∈ Phrase.token .colon * subject.phrase) : t :: us ∈ Phrase.statement := by
  rw [Phrase.mem_statement]
  rw [ofToken] at h
  split at h
  · next hname =>
    split at h
    · next s hs =>
      cases h
      refine Or.inl ⟨s, ?_⟩
      have hfirst : [t] ∈ Phrase.settingKey s := ⟨t, hname, Phrase.ofKey?_eq_some_iff.mp hs, rfl⟩
      rw [Phrase.setting, mul_assoc]
      exact Phrase.mem_mul hfirst hus
    · cases h
  · next hcell =>
    obtain ⟨range, -, rfl⟩ := Results.map_eq_ok.mp h
    refine Or.inr ?_
    rw [Phrase.component, mul_assoc]
    have hfirst : [t] ∈ Phrase.oneOf [.cellRef, .cellRange] :=
      Phrase.singleton_mem_oneOf.mpr ((List.mem_cons.mp hkind).resolve_left hcell)
    exact Phrase.mem_mul hfirst hus

theorem exists_of_mem_statement {word : List Token} (h : word ∈ Phrase.statement) :
    ∃ t us, word = t :: us ∧ t.kind ∈ [Token.Kind.identifier, .cellRef, .cellRange] ∧
      ∀ subject, ofToken t = .ok subject → us ∈ Phrase.token .colon * subject.phrase := by
  rcases Phrase.mem_statement.mp h with ⟨s, hs⟩ | hcomponent
  · rw [Phrase.setting, mul_assoc] at hs
    obtain ⟨_, ⟨t, hname, hkey, rfl⟩, us, hus, rfl⟩ := hs
    have hkind : t.kind ∈ [Token.Kind.identifier, .cellRef, .cellRange] :=
      List.mem_cons.mpr (Or.inl hname)
    refine ⟨t, us, rfl, hkind, fun subject hsubject => ?_⟩
    rw [ofToken, if_pos hname, Phrase.ofKey?_eq_some_iff.mpr hkey] at hsubject
    cases hsubject
    exact hus
  · rw [Phrase.component, mul_assoc] at hcomponent
    obtain ⟨_, ⟨t, hcell, rfl⟩, us, hus, rfl⟩ := hcomponent
    have hname : t.kind ≠ .identifier := by
      intro hname
      rw [hname] at hcell
      exact absurd hcell (by decide)
    refine ⟨t, us, rfl, List.mem_cons_of_mem _ hcell, fun subject hsubject => ?_⟩
    rw [ofToken, if_neg hname] at hsubject
    obtain ⟨range, -, rfl⟩ := Results.map_eq_ok.mp hsubject
    exact hus

end Subject

/-- What is read after the first token of a statement. -/
def afterFirst (t : Token) (subject : Subject) : Reader Statement :=
  (colonAfter t).andThen fun _ => subject.value t

theorem follows_afterFirst (t : Token) {subject : Subject} (h : subject.IsSound) :
    Follows (afterFirst t subject) (Phrase.token .colon * subject.phrase) IsSound :=
  follows_token.andThen fun _ _ => Subject.follows_value t h

theorem run_reader_cons (stop t : Token) (ts : List Token) :
    reader.run stop (t :: ts) =
      if t.kind ∈ [Token.Kind.identifier, .cellRef, .cellRange] then match Subject.ofToken t with
        | .error e => .error e
        | .ok subject => (afterFirst t subject).run stop ts
      else .error (missing "metadata key or cell reference" stop (t :: ts)) := by
  simp only [reader, Reader.andThen, Reader.check, oneOf, oneOfOr]
  by_cases hkind : t.kind ∈ [Token.Kind.identifier, .cellRef, .cellRange]
  · simp only [if_pos hkind]
    cases Subject.ofToken t with
    | error e => rfl
    | ok subject => rfl
  · simp only [if_neg hkind]

/-- The reader of a statement follows the phrases of statements. -/
theorem follows_reader : Follows reader Phrase.statement IsSound where
  sound {stop ts s rest} hts h := by
    cases ts with
    | nil => exact absurd (reader.length_lt h) (Nat.not_lt_zero _)
    | cons t ts =>
        rw [run_reader_cons] at h
        split at h
        · next hkind =>
          cases hsubject : Subject.ofToken t with
          | error e => simp [hsubject] at h
          | ok subject =>
              simp only [hsubject] at h
              have hsound := (Subject.inOrder_ofToken t).of_eq_ok hsubject
              obtain ⟨hs, word, hword, rfl⟩ := (follows_afterFirst t hsound).sound hts.tail h
              exact ⟨hs, t :: word, Subject.cons_mem_statement hkind hsubject hword, rfl⟩
        · cases h
  complete stop rest word hword := by
    obtain ⟨t, us, rfl, hkind, hrest⟩ := Subject.exists_of_mem_statement hword
    rw [List.cons_append, run_reader_cons, if_pos hkind]
    have hsubject := Subject.inOrder_ofToken t
    cases hread : Subject.ofToken t with
    | error e => exact hsubject.of_eq_error hread
    | ok subject =>
        exact (follows_afterFirst t (hsubject.of_eq_ok hread)).complete stop rest us (hrest subject hread)

theorem startsOff_statement : Phrase.StartsOff [.newline] Phrase.statement := by
  intro word hword
  obtain ⟨t, us, rfl, hkind, -⟩ := Subject.exists_of_mem_statement hword
  refine ⟨t, us, rfl, fun hnewline => ?_⟩
  rw [List.mem_singleton.mp hnewline] at hkind
  exact absurd hkind (by decide)

end Statement
end Wireframe
