import Wireframe.Proofs.PhraseReaders

/-! How far readers look. A reader is final when it makes of some tokens the same with any tokens behind
them: what it takes it takes for what it is, and what it refuses it refuses for what it is. Only at the
end of the tokens more of them could have made a difference, and a failure there is told there. Each way
of combining readers keeps this (`IsFinal.andThen` to `IsFinal.block`), so the reader of a statement is
final (`Statement.isFinal_reader`). -/

namespace Wireframe

/-- The failure is told at the position. -/
def Failure.IsAt (e : Failure) (l : Location) : Prop := ∃ r, e.report? = some r ∧ r.location = l

namespace Reader

/-- Tokens behind those that a value is read off, or behind those that a failure is found among, make no
difference to the reader. -/
structure IsFinal {α : Type} (p : Reader α) : Prop where
  value : ∀ {stop ts a rest}, stop.kind = .endOfInput → p.run stop ts = .ok (a, rest) →
    ∃ word, word ++ rest = ts ∧ ∀ stop' more, p.run stop' (word ++ more) = .ok (a, more)
  failure : ∀ {stop ts e}, stop.kind = .endOfInput → p.run stop ts = .error e →
    e.IsAt stop.location ∨ ∀ stop' more, p.run stop' (ts ++ more) = .error e
  /-- Where no token is left, the reader fails for the end of the text. -/
  empty : ∀ {stop e}, stop.kind = .endOfInput → p.run stop [] = .error e → e.IsAt stop.location

variable {α β : Type} {p : Reader α} {stop : Token} {ts rest word : List Token} {e : Failure} {a : α}

theorem run_nil (p : Reader α) (stop : Token) : ∃ e, p.run stop [] = .error e := by
  cases hrun : p.run stop [] with
  | error e => exact ⟨e, rfl⟩
  | ok r => exact absurd (p.length_lt hrun) (Nat.not_lt_zero _)

theorem IsFinal.exists_word (hp : IsFinal p) (hstop : stop.kind = .endOfInput)
    (h : p.run stop ts = .ok (a, rest)) :
    ∃ word, word ≠ [] ∧ word ++ rest = ts ∧ ∀ stop' more, p.run stop' (word ++ more) = .ok (a, more) := by
  obtain ⟨word, rfl, hword⟩ := hp.value hstop h
  refine ⟨word, ?_, rfl, hword⟩
  rintro rfl
  exact absurd (p.length_lt h) (Nat.lt_irrefl _)

theorem missing_isAt (wanted : String) (stop : Token) : (missing wanted stop []).IsAt stop.location :=
  ⟨_, rfl, rfl⟩

/-- A reader of one token looks at this token. -/
theorem isFinal_oneOfOr {kinds : List Token.Kind} {failure : Token → List Token → Failure}
    (hfront : ∀ stop stop' t ts us, failure stop (t :: ts) = failure stop' (t :: us))
    (hempty : ∀ stop, (failure stop []).IsAt stop.location) : IsFinal (oneOfOr kinds failure) where
  value {stop ts a rest} _ h := by
    cases ts with
    | nil => cases h
    | cons t ts =>
        simp only [oneOfOr] at h
        split at h
        · next hkind =>
          cases h
          exact ⟨[_], rfl, fun stop' more => if_pos hkind⟩
        · cases h
  failure {stop ts e} _ h := by
    cases ts with
    | nil =>
        cases h
        exact Or.inl (hempty stop)
    | cons t ts =>
        simp only [oneOfOr] at h
        split at h
        · cases h
        · next hkind =>
          cases h
          right
          intro stop' more
          simp only [oneOfOr, List.cons_append, if_neg hkind]
          exact congrArg _ (hfront _ _ _ _ _)
  empty {stop e} _ h := by
    cases h
    exact hempty stop

theorem isFinal_oneOf {kinds : List Token.Kind} {wanted : String} : IsFinal (oneOf kinds wanted) :=
  isFinal_oneOfOr (fun _ _ _ _ _ => rfl) (missing_isAt wanted)

theorem isFinal_token {kind : Token.Kind} {context : String} : IsFinal (token kind context) :=
  isFinal_oneOf

theorem IsFinal.andThen {f : α → Reader β} (hp : IsFinal p) (hf : ∀ a, IsFinal (f a)) :
    IsFinal (p.andThen f) where
  value {stop ts b rest} hstop h := by
    obtain ⟨a, mid, hrun, hmid⟩ := andThen_eq_ok.mp h
    obtain ⟨first, rfl, hfirst⟩ := hp.value hstop hrun
    obtain ⟨second, rfl, hsecond⟩ := (hf a).value hstop hmid
    refine ⟨first ++ second, List.append_assoc .., fun stop' more => ?_⟩
    rw [List.append_assoc]
    exact andThen_eq_ok.mpr ⟨a, _, hfirst stop' _, hsecond stop' more⟩
  failure {stop ts e} hstop h := by
    rcases andThen_eq_error.mp h with hfails | ⟨a, mid, hrun, hmid⟩
    · refine (hp.failure hstop hfails).imp_right fun hstays stop' more => ?_
      exact andThen_eq_error.mpr (Or.inl (hstays stop' more))
    · obtain ⟨first, rfl, hfirst⟩ := hp.value hstop hrun
      refine ((hf a).failure hstop hmid).imp_right fun hstays stop' more => ?_
      rw [List.append_assoc]
      exact andThen_eq_error.mpr (Or.inr ⟨a, _, hfirst stop' _, hstays stop' more⟩)
  empty {stop e} hstop h := by
    rcases andThen_eq_error.mp h with hfails | ⟨a, mid, hrun, -⟩
    · exact hp.empty hstop hfails
    · exact absurd (p.length_lt hrun) (Nat.not_lt_zero _)

theorem IsFinal.check {f : α → Except Failure β} (hp : IsFinal p) : IsFinal (p.check f) where
  value {stop ts b rest} hstop h := by
    obtain ⟨a, hrun, hb⟩ := check_eq_ok.mp h
    obtain ⟨word, rfl, hword⟩ := hp.value hstop hrun
    exact ⟨word, rfl, fun stop' more => check_eq_ok.mpr ⟨a, hword stop' more, hb⟩⟩
  failure {stop ts e} hstop h := by
    rcases check_eq_error.mp h with hfails | ⟨a, mid, hrun, ha⟩
    · refine (hp.failure hstop hfails).imp_right fun hstays stop' more => ?_
      exact check_eq_error.mpr (Or.inl (hstays stop' more))
    · obtain ⟨word, rfl, hword⟩ := hp.value hstop hrun
      right
      intro stop' more
      rw [List.append_assoc]
      exact check_eq_error.mpr (Or.inr ⟨a, _, hword stop' _, ha⟩)
  empty {stop e} hstop h := by
    rcases check_eq_error.mp h with hfails | ⟨a, mid, hrun, -⟩
    · exact hp.empty hstop hfails
    · exact absurd (p.length_lt hrun) (Nat.not_lt_zero _)

theorem IsFinal.map {f : α → β} (hp : IsFinal p) : IsFinal (p.map f) := hp.check

theorem exists_newlines (ts : List Token) :
    ∃ line, (∀ u ∈ line, u.kind = .newline) ∧ line ++ skipNewlines ts = ts := by
  refine ⟨ts.takeWhile (·.kind = .newline), fun u hu => ?_, List.takeWhile_append_dropWhile⟩
  simpa using List.mem_takeWhile_imp hu

/-- Ends of line are skipped whatever stands behind them. -/
theorem skipNewlines_line {line : List Token} (hline : ∀ u ∈ line, u.kind = .newline) (more : List Token) :
    skipNewlines (line ++ more) = skipNewlines more :=
  List.dropWhile_append_of_pos (by simpa using hline)

/-- What is read after ends of line, together with them. -/
theorem exists_skipped (hword : word ≠ []) (h : word ++ rest = skipNewlines ts) :
    ∃ line, line ++ rest = ts ∧ ∀ more, skipNewlines (line ++ more) = word ++ more := by
  obtain ⟨t, us, rfl⟩ := List.exists_cons_of_ne_nil hword
  obtain ⟨line, hline, hts⟩ := exists_newlines ts
  refine ⟨line ++ (t :: us), ?_, fun more => ?_⟩
  · rw [List.append_assoc, h, hts]
  · rw [List.append_assoc, skipNewlines_line hline]
    exact skipNewlines_cons_of_ne (kind_of_skipNewlines h.symm)

theorem skipNewlines_append (h : skipNewlines ts ≠ []) (more : List Token) :
    skipNewlines (ts ++ more) = skipNewlines ts ++ more := by
  obtain ⟨line, hline, hskip⟩ := exists_skipped h (List.append_nil _)
  rw [List.append_nil] at hline
  rw [← hskip, hline]

theorem IsFinal.afterNewlines (hp : IsFinal p) : IsFinal p.afterNewlines where
  value {stop ts a rest} hstop h := by
    obtain ⟨word, hne, hword, hruns⟩ := hp.exists_word hstop h
    obtain ⟨line, hline, hskip⟩ := exists_skipped hne hword
    refine ⟨line, hline, fun stop' more => ?_⟩
    simp only [Reader.afterNewlines, hskip]
    exact hruns stop' more
  failure {stop ts e} hstop h := by
    simp only [Reader.afterNewlines] at h ⊢
    by_cases hnil : skipNewlines ts = []
    · rw [hnil] at h
      exact Or.inl (hp.empty hstop h)
    · refine (hp.failure hstop h).imp_right fun hfails stop' more => ?_
      rw [skipNewlines_append hnil]
      exact hfails stop' more
  empty hstop h := hp.empty hstop h

section Lists

variable {closing : Token.Kind} {left us : List Token} {b : Bool} {as : List α}

theorem separator_line {line : List Token} (hline : ∀ u ∈ line, u.kind = .newline) (ht : t.kind ≠ .newline) :
    separator closing stop (line ++ t :: us) =
      if t.kind = .comma then .ok (true, us)
      else if t.kind = closing then .ok (false, t :: us)
      else if line = [] then .error (missing ("',' or " ++ closing.label) stop (t :: us))
      else .ok (true, t :: us) := by
  have hskip : skipNewlines (line ++ t :: us) = t :: us := by
    rw [skipNewlines_line hline, skipNewlines_cons_of_ne ht]
  simp only [separator, hskip]
  cases line with
  | nil => simp
  | cons u line => simp

theorem separator_newlines {line : List Token} (hline : ∀ u ∈ line, u.kind = .newline) :
    separator closing stop line =
      if line = [] then .error (missing ("',' or " ++ closing.label) stop []) else .ok (true, []) := by
  have hskip : skipNewlines line = [] := by
    rw [← List.append_nil line, skipNewlines_line hline]
    rfl
  simp only [separator, hskip]
  cases line with
  | nil => rfl
  | cons u line => simp

/-- Ends of line, and a token that is none behind them if there is any. -/
theorem newlines_cases (ts : List Token) :
    (∀ u ∈ ts, u.kind = .newline) ∨
      ∃ line t us, (∀ u ∈ line, u.kind = .newline) ∧ t.kind ≠ .newline ∧ ts = line ++ t :: us := by
  obtain ⟨line, hline, hts⟩ := exists_newlines ts
  cases hskipped : skipNewlines ts with
  | nil =>
      rw [hskipped, List.append_nil] at hts
      exact Or.inl (hts ▸ hline)
  | cons t us =>
      rw [hskipped] at hts
      exact Or.inr ⟨line, t, us, hline, kind_of_skipNewlines hskipped, hts.symm⟩

/-- What stands between two items is told by the token behind it. -/
theorem exists_of_separator (h : separator closing stop ts = .ok (b, left)) :
    (b = false → ∃ close us, left = close :: us ∧ close.kind = closing) ∧
      (left ≠ [] → ∃ word, word ++ left = ts ∧
        ∀ stop' more, more.head? = left.head? → separator closing stop' (word ++ more) = .ok (b, more)) := by
  rcases newlines_cases ts with hts | ⟨line, t, us, hline, ht, rfl⟩
  · rw [separator_newlines hts] at h
    split at h
    · cases h
    · cases h
      exact ⟨nofun, fun hleft => absurd rfl hleft⟩
  rw [separator_line hline ht] at h
  by_cases hcomma : t.kind = .comma
  · rw [if_pos hcomma] at h
    cases h
    refine ⟨nofun, fun _ => ⟨line ++ [t], List.append_assoc .., fun stop' more _ => ?_⟩⟩
    rw [List.append_assoc, List.singleton_append, separator_line hline ht, if_pos hcomma]
  rw [if_neg hcomma] at h
  by_cases hclosing : t.kind = closing
  · rw [if_pos hclosing] at h
    cases h
    refine ⟨fun _ => ⟨t, us, rfl, hclosing⟩, fun _ => ⟨line, rfl, fun stop' more hhead => ?_⟩⟩
    obtain ⟨vs, rfl⟩ := List.head?_eq_some_iff.mp hhead
    rw [separator_line hline ht, if_neg hcomma, if_pos hclosing]
  rw [if_neg hclosing] at h
  by_cases hnil : line = []
  · rw [if_pos hnil] at h
    cases h
  · rw [if_neg hnil] at h
    cases h
    refine ⟨nofun, fun _ => ⟨line, rfl, fun stop' more hhead => ?_⟩⟩
    obtain ⟨vs, rfl⟩ := List.head?_eq_some_iff.mp hhead
    rw [separator_line hline ht, if_neg hcomma, if_neg hclosing, if_neg hnil]

/-- A token that is no separator is none whatever stands behind it. -/
theorem separator_eq_error (h : separator closing stop ts = .error e) :
    e.IsAt stop.location ∨ ∀ stop' more, separator closing stop' (ts ++ more) = .error e := by
  rcases newlines_cases ts with hts | ⟨line, t, us, hline, ht, rfl⟩
  · rw [separator_newlines hts] at h
    split at h
    · cases h
      exact Or.inl (missing_isAt _ stop)
    · cases h
  · rw [separator_line hline ht] at h
    split_ifs at h with hcomma hclosing hnil
    cases h
    right
    intro stop' more
    rw [List.append_assoc, List.cons_append, separator_line hline ht, if_neg hcomma, if_neg hclosing,
      if_pos hnil]
    rfl

/-- After an item that is read, the list goes on with what stands behind it. -/
theorem IsFinal.exists_of_item (hp : IsFinal p) (hstop : stop.kind = .endOfInput)
    (hopen : (front stop (skipNewlines ts)).kind ≠ closing)
    (hread : p.run stop (skipNewlines ts) = .ok (a, rest)) :
    ∃ line, line ++ rest = ts ∧ ∀ stop' more, items closing p stop' (line ++ more) =
      match separator closing stop' more with
      | .error e => .error e
      | .ok (false, left) => .ok ([a], left)
      | .ok (true, left) => (items closing p stop' left).map fun r => (a :: r.1, r.2) := by
  obtain ⟨word, hne, hword, hruns⟩ := hp.exists_word hstop hread
  obtain ⟨line, hline, hskip⟩ := exists_skipped hne hword
  obtain ⟨t, us, rfl⟩ := List.exists_cons_of_ne_nil hne
  rw [← hword] at hopen
  refine ⟨line, hline, fun stop' more => ?_⟩
  have hopen' : ¬(front stop' (t :: us ++ more)).kind = closing := hopen
  have hitems := items_eq closing p stop' (line ++ more)
  rw [hskip, if_neg hopen', hruns] at hitems
  exact hitems

/-- The items of a list stand in front of the token that closes it. -/
theorem IsFinal.exists_of_items (hp : IsFinal p) (hclosing : closing ≠ .endOfInput)
    (hstop : stop.kind = .endOfInput) (h : items closing p stop ts = .ok (as, rest)) :
    (∃ close us, rest = close :: us ∧ close.kind = closing) ∧
      ∃ word, word ++ rest = ts ∧
        ∀ stop' more, more.head? = rest.head? → items closing p stop' (word ++ more) = .ok (as, more) := by
  fun_induction items closing p stop ts generalizing as rest with
  | case1 ts hfront =>
      cases h
      obtain ⟨line, hline, hts⟩ := exists_newlines ts
      cases hskipped : skipNewlines ts with
      | nil =>
          rw [hskipped] at hfront
          exact absurd (hfront.symm.trans hstop) hclosing
      | cons t us =>
          rw [hskipped] at hfront hts
          refine ⟨⟨t, us, rfl, hfront⟩, line, hts, fun stop' more hhead => ?_⟩
          obtain ⟨vs, rfl⟩ := List.head?_eq_some_iff.mp hhead
          refine items_of_closing ?_ hfront
          rw [skipNewlines_line hline, skipNewlines_cons_of_ne (kind_of_skipNewlines hskipped)]
  | case2 => cases h
  | case3 => cases h
  | case4 ts hopen a mid hread left hsep =>
      cases h
      obtain ⟨hlast, hbefore⟩ := exists_of_separator hsep
      obtain ⟨close, us, rfl, hclose⟩ := hlast rfl
      obtain ⟨line, rfl, hitem⟩ := hp.exists_of_item hstop hopen hread
      obtain ⟨sep, rfl, hseparates⟩ := hbefore (List.cons_ne_nil _ _)
      refine ⟨⟨close, us, rfl, hclose⟩, line ++ sep, List.append_assoc .., fun stop' more hhead => ?_⟩
      rw [List.append_assoc, hitem, hseparates _ _ hhead]
  | case5 ts hopen a mid hread left hsep hlt ih =>
      obtain ⟨⟨others, last⟩, hrest, hpair⟩ := Results.map_eq_ok.mp h
      cases hpair
      obtain ⟨hlast, word, rfl, hword⟩ := ih hrest
      obtain ⟨close, us, rfl, hclose⟩ := hlast
      obtain ⟨line, rfl, hitem⟩ := hp.exists_of_item hstop hopen hread
      obtain ⟨sep, rfl, hseparates⟩ :=
        (exists_of_separator hsep).2 (List.append_ne_nil_of_right_ne_nil _ (List.cons_ne_nil _ _))
      refine ⟨⟨close, us, rfl, hclose⟩, line ++ (sep ++ word), ?_, fun stop' more hhead => ?_⟩
      · simp only [List.append_assoc]
      · have hsame : (word ++ more).head? = (word ++ close :: us).head? := by
          rw [List.head?_append, List.head?_append, hhead]
        rw [List.append_assoc, List.append_assoc, hitem, hseparates _ _ hsame]
        simp only [hword _ _ hhead, Except.map]

/-- A list of which nothing is left is not closed. -/
theorem IsFinal.isAt_of_items_nil (hp : IsFinal p) (hclosing : closing ≠ .endOfInput)
    (hstop : stop.kind = .endOfInput) (h : items closing p stop [] = .error e) : e.IsAt stop.location := by
  have hopen : ¬(front stop (skipNewlines [])).kind = closing := fun hkind => hclosing (hkind.symm.trans hstop)
  obtain ⟨e', hrun⟩ := p.run_nil stop
  have hnone : p.run stop (skipNewlines []) = .error e' := hrun
  rw [items_eq, if_neg hopen, hnone] at h
  cases h
  exact hp.empty hstop hrun

theorem IsFinal.items_eq_error (hp : IsFinal p) (hclosing : closing ≠ .endOfInput)
    (hstop : stop.kind = .endOfInput) (h : items closing p stop ts = .error e) :
    e.IsAt stop.location ∨ ∀ stop' more, items closing p stop' (ts ++ more) = .error e := by
  fun_induction items closing p stop ts with
  | case1 => cases h
  | case2 ts hopen e' hfails =>
      cases h
      by_cases hnil : skipNewlines ts = []
      · rw [hnil] at hfails
        exact Or.inl (hp.empty hstop hfails)
      · refine (hp.failure hstop hfails).imp_right fun hstays stop' more => ?_
        obtain ⟨t, us, hskipped⟩ := List.exists_cons_of_ne_nil hnil
        rw [items_eq, skipNewlines_append hnil, hstays]
        rw [hskipped] at hopen ⊢
        exact if_neg hopen
  | case3 ts hopen a mid hread e' hsep =>
      cases h
      obtain ⟨line, rfl, hitem⟩ := hp.exists_of_item hstop hopen hread
      refine (separator_eq_error hsep).imp_right fun hstays stop' more => ?_
      rw [List.append_assoc, hitem, hstays]
  | case4 => cases h
  | case5 ts hopen a mid hread left hsep hlt ih =>
      have hrest := Results.map_eq_error.mp h
      by_cases hleft : left = []
      · subst hleft
        exact Or.inl (hp.isAt_of_items_nil hclosing hstop hrest)
      · obtain ⟨line, rfl, hitem⟩ := hp.exists_of_item hstop hopen hread
        obtain ⟨sep, rfl, hseparates⟩ := (exists_of_separator hsep).2 hleft
        refine (ih hrest).imp_right fun hstays stop' more => ?_
        have hsame : (left ++ more).head? = left.head? := List.head?_append_of_ne_nil _ hleft
        rw [List.append_assoc, List.append_assoc, hitem, hseparates _ _ hsame]
        simp only [hstays, Except.map]

theorem run_closed {context : String} {close : Token} (hclose : close.kind = closing)
    (h : items closing p stop ts = .ok (as, close :: us)) :
    (closed closing context p).run stop ts = .ok ((as, close), us) := by
  simp only [closed, h, Reader.map, Reader.check, token, oneOf, oneOfOr, List.mem_singleton, if_pos hclose]
  rfl

/-- The token that closes a list is not what is missing. -/
theorem IsFinal.items_of_closed (hp : IsFinal p) (hclosing : closing ≠ .endOfInput) {context : String}
    (hstop : stop.kind = .endOfInput) (h : (closed closing context p).run stop ts = .error e) :
    items closing p stop ts = .error e := by
  cases hrun : items closing p stop ts with
  | error e' =>
      simp only [Reader.closed, hrun] at h
      cases h
      rfl
  | ok found =>
      obtain ⟨⟨close, us, hleft, hclose⟩, -⟩ := hp.exists_of_items hclosing hstop hrun
      rw [run_closed hclose (hrun.trans (congrArg _ (Prod.ext rfl hleft)))] at h
      cases h

theorem IsFinal.closed (hp : IsFinal p) (hclosing : closing ≠ .endOfInput) {context : String} :
    IsFinal (closed closing context p) where
  value {stop ts r rest} hstop h := by
    cases hrun : items closing p stop ts with
    | error e => simp [Reader.closed, hrun] at h
    | ok found =>
        obtain ⟨as, left⟩ := found
        obtain ⟨⟨close, us, rfl, hclose⟩, word, rfl, hword⟩ := hp.exists_of_items hclosing hstop hrun
        rw [run_closed hclose hrun] at h
        cases h
        refine ⟨word ++ [close], List.append_assoc .., fun stop' more => ?_⟩
        rw [List.append_assoc]
        exact run_closed hclose (hword stop' (close :: more) rfl)
  failure {stop ts e} hstop h := by
    have hitems := hp.items_of_closed hclosing hstop h
    refine (hp.items_eq_error hclosing hstop hitems).imp_right fun hstays stop' more => ?_
    simp only [Reader.closed, hstays]
  empty {stop e} hstop h := hp.isAt_of_items_nil hclosing hstop (hp.items_of_closed hclosing hstop h)

theorem IsFinal.block (hp : IsFinal p) (hclosing : closing ≠ .endOfInput) {opening : Token.Kind}
    {what : String} : IsFinal (block opening closing what p) :=
  isFinal_token.andThen fun _ => hp.closed hclosing

end Lists
end Reader

namespace Statement

open Reader

theorem isFinal_entry {what : String} {value : Reader Token} (h : IsFinal value) :
    IsFinal (entry what value) :=
  isFinal_oneOf.andThen fun _ => isFinal_token.andThen fun _ => h.map

theorem isFinal_propertyValue : IsFinal propertyValue :=
  isFinal_oneOfOr (fun _ _ _ _ _ => rfl) fun _ => ⟨_, rfl, rfl⟩

theorem isFinal_settingValue (key : Token) (s : Setting) : IsFinal (settingValue key s) := by
  cases s with
  | ratio => exact isFinal_token.check.map
  | grid => exact isFinal_token.check
  | gap | padding => exact isFinal_token.map
  | colors => exact ((isFinal_entry isFinal_oneOf).block (by decide)).map
  | theme => exact isFinal_oneOf.check.map
  | weights axis => exact ((IsFinal.check isFinal_token).block (by decide)).check.map

theorem isFinal_componentValue (key : Token) (range : Range) : IsFinal (componentValue key range) :=
  ((isFinal_entry isFinal_propertyValue).block (by decide)).afterNewlines.map

/-- The reader of a statement looks at no token behind it. -/
theorem isFinal_reader : IsFinal reader := by
  refine isFinal_oneOf.check.andThen fun (key, subject) => isFinal_token.andThen fun _ => ?_
  cases subject with
  | setting s => exact isFinal_settingValue key s
  | component range => exact isFinal_componentValue key range

end Statement
end Wireframe
