import Wireframe.Proofs.DraftStep

/-! Runs over the tokens of a text, statement after statement. `Reaches` lists the states that a run
passes through: the statements accepted so far, what they make of the document, and the tokens after
the last of them. The reader of a whole text goes through exactly these states (`extend_of_reaches`),
and it either ends in one of them with no token left or fails at one (`ends_run`). -/

namespace Wireframe

namespace Draft

/-- The statement before these tokens ends with its line. -/
abbrev LineEnds (stop : Token) (ts : List Token) : Prop :=
  (Reader.front stop ts).kind = .newline ∨ ts = []

/-- The states of a run over the tokens `ts`. -/
inductive Reaches (stop : Token) (ts : List Token) : List Statement → Draft → List Token → Prop
  | start : Reaches stop ts [] {} ts
  | next {accepted : List Statement} {d d' : Draft} {left rest : List Token} {s : Statement} :
      Reaches stop ts accepted d left →
      accepted = [] ∨ LineEnds stop left →
      Statement.reader.run stop (Reader.skipNewlines left) = .ok (s, rest) →
      (d.accept s).value = .ok d' →
      Reaches stop ts (accepted ++ [s]) d' rest

theorem value_extend (d : Draft) (stop : Token) (ts : List Token) :
    (d.extend stop ts).value =
      if Reader.skipNewlines ts = [] then .ok d
      else match Statement.reader.run stop (Reader.skipNewlines ts) with
        | .error e => .error e
        | .ok (s, rest) => match (d.accept s).value with
          | .error e => .error e
          | .ok d' =>
            if LineEnds stop rest then (d'.extend stop rest).value
            else .error (Reader.missing "end of line" stop rest) := by
  rw [extend]
  split
  · rfl
  · split
    · next h =>
      simp only [h]
      rfl
    · next s rest h =>
      simp only [h]
      rw [Noted.value_bind]
      cases (d.accept s).value with
      | error e => rfl
      | ok d' =>
          by_cases hend : LineEnds stop rest
          · simp only [if_pos hend]
          · simp only [if_neg hend]
            rfl

/-- A statement takes a token. -/
theorem skipNewlines_ne_nil {stop : Token} {ts rest : List Token} {s : Statement}
    (h : Statement.reader.run stop (Reader.skipNewlines ts) = .ok (s, rest)) :
    Reader.skipNewlines ts ≠ [] := by
  intro hnil
  have hlt := Statement.reader.length_lt h
  rw [hnil] at hlt
  exact absurd hlt (Nat.not_lt_zero _)

variable {stop : Token} {ts left : List Token} {accepted : List Statement} {d : Draft}

/-- The reader of the whole text passes through every state of the run. -/
theorem extend_of_reaches (h : Reaches stop ts accepted d left)
    (hline : accepted = [] ∨ LineEnds stop left) :
    (extend {} stop ts).value = (d.extend stop left).value := by
  induction h with
  | start => rfl
  | next _ hbefore hrun haccept ih =>
      have hend := hline.resolve_left (List.append_ne_nil_of_right_ne_nil _ (List.cons_ne_nil _ _))
      rw [ih hbefore, value_extend, if_neg (skipNewlines_ne_nil hrun)]
      simp only [hrun, haccept, if_pos hend]

/-- How a run ends: with what one of its states has made, when no token is left; else with the
failure to read the next statement, to accept it, or to find the end of its line. -/
def Ends (stop : Token) (ts : List Token) : Except Failure Draft → Prop
  | .ok d => ∃ accepted left, Reaches stop ts accepted d left ∧ Reader.skipNewlines left = []
  | .error e => ∃ accepted d left, Reaches stop ts accepted d left ∧
      (Statement.reader.run stop (Reader.skipNewlines left) = .error e ∨
        (∃ s rest, Statement.reader.run stop (Reader.skipNewlines left) = .ok (s, rest) ∧
          (d.accept s).value = .error e) ∨
        e = Reader.missing "end of line" stop left)

theorem ends_extend {accepted : List Statement} {d : Draft} {left : List Token}
    (h : Reaches stop ts accepted d left)
    (hline : accepted = [] ∨ LineEnds stop left) : Ends stop ts (d.extend stop left).value := by
  rw [value_extend]
  by_cases hnil : Reader.skipNewlines left = []
  · rw [if_pos hnil]
    exact ⟨accepted, left, h, hnil⟩
  · rw [if_neg hnil]
    cases hrun : Statement.reader.run stop (Reader.skipNewlines left) with
    | error e => exact ⟨accepted, d, left, h, Or.inl hrun⟩
    | ok r =>
        obtain ⟨s, rest⟩ := r
        simp only
        cases haccept : (d.accept s).value with
        | error e => exact ⟨accepted, d, left, h, Or.inr (Or.inl ⟨s, rest, hrun, haccept⟩)⟩
        | ok d' =>
            have hnext := h.next hline hrun haccept
            have hshorter : rest.length < left.length :=
              Nat.lt_of_lt_of_le (Statement.reader.length_lt hrun) (Reader.length_skipNewlines_le left)
            by_cases hend : LineEnds stop rest
            · simp only [if_pos hend]
              exact ends_extend hnext (Or.inr hend)
            · simp only [if_neg hend]
              exact ⟨accepted ++ [s], d', rest, hnext, Or.inr (Or.inr rfl)⟩
  termination_by left.length

theorem ends_run (stop : Token) (ts : List Token) : Ends stop ts (extend {} stop ts).value :=
  ends_extend .start (Or.inl rfl)

theorem finish_eq_ok {doc : Document} :
    d.finish = .ok doc ↔
      d.checkCount .columns d.colWidthsAt = .ok () ∧ d.checkCount .rows d.rowHeightsAt = .ok () ∧
        d.settings.errors = [] ∧ doc = ⟨d.settings, d.components⟩ := by
  simp only [finish, Results.bind_eq_ok]
  constructor
  · rintro ⟨_, hcols, _, hrows, h⟩
    split at h
    · next hnone =>
      cases h
      exact ⟨hcols, hrows, hnone, rfl⟩
    · cases h
  · rintro ⟨hcols, hrows, hnone, rfl⟩
    exact ⟨(), hcols, (), hrows, by rw [if_pos hnone]; rfl⟩

end Draft

namespace Document

variable {source : String} {doc : Document}

theorem value_ofTokens (ts : Tokens) :
    (ofTokens ts).value = (Draft.extend {} ts.last ts.list).value.bind Draft.finish := by
  rw [ofTokens, Noted.value_bind]
  cases (Draft.extend {} ts.last ts.list).value.bind Draft.finish <;> rfl

theorem read_eq_ok :
    (read source).value = .ok doc ↔
      ∃ ts d, Tokens.read source = .ok ts ∧ (Draft.extend {} ts.last ts.list).value = .ok d ∧
        d.finish = .ok doc := by
  rw [read]
  cases htokens : Tokens.read source with
  | error fault =>
      constructor
      · intro h
        cases h
      · rintro ⟨_, _, h, _⟩
        cases h
  | ok ts =>
      simp only [value_ofTokens]
      constructor
      · intro h
        obtain ⟨d, hextend, hfinish⟩ := Results.bind_eq_ok.mp h
        exact ⟨ts, d, rfl, hextend, hfinish⟩
      · rintro ⟨ts', d, hsame, hextend, hfinish⟩
        cases hsame
        exact Results.bind_eq_ok.mpr ⟨d, hextend, hfinish⟩

/-- A document is what the last state of a run has made. -/
theorem reaches_of_read_eq_ok (h : (read source).value = .ok doc) :
    ∃ ts accepted d left, Tokens.read source = .ok ts ∧
      Draft.Reaches ts.last ts.list accepted d left ∧ d.finish = .ok doc := by
  obtain ⟨ts, d, htokens, hextend, hfinish⟩ := read_eq_ok.mp h
  have hends := Draft.ends_run ts.last ts.list
  rw [hextend] at hends
  obtain ⟨accepted, left, hreaches, -⟩ := hends
  exact ⟨ts, accepted, d, left, htokens, hreaches, hfinish⟩

end Document
end Wireframe
