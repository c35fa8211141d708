import Wireframe.Proofs.ReaderReach
import Wireframe.Proofs.TokenLines

/-! Documents that are refused. The readers of statements are final, and a statement is set against those
before it only, so a failure before the end of the tokens is the failure of these tokens with any others
behind them (`Draft.extend_eq_error`). The first problem of a text is therefore the problem of every text
that goes on with it on further lines (`Document.read_final`). -/

namespace Wireframe

namespace Draft

open Reader

variable {d d' : Draft} {stop t : Token} {ts us rest : List Token} {s : Statement} {e : Failure}

/-- The draft after the tokens behind a statement. -/
def resume (d : Draft) (stop : Token) (ts : List Token) : Except Failure Draft :=
  if LineEnds stop ts then (d.extend stop ts).value else .error (missing "end of line" stop ts)

theorem resume_nil (d : Draft) (stop : Token) : d.resume stop [] = .ok d := by
  rw [resume, if_pos (Or.inr rfl), value_extend]
  rfl

theorem resume_newline (ht : t.kind = .newline) :
    d.resume stop (t :: ts) = (d.extend stop (t :: ts)).value := if_pos (Or.inl ht)

theorem resume_open (ht : t.kind ≠ .newline) :
    d.resume stop (t :: ts) = .error (missing "end of line" stop (t :: ts)) :=
  if_neg (not_or.mpr ⟨ht, List.cons_ne_nil _ _⟩)

theorem resume_eq_ok (h : d.resume stop ts = .ok d') : (d.extend stop ts).value = .ok d' := by
  rw [resume] at h
  split at h
  · exact h
  · cases h

/-- What a statement with the ends of line before it does to a draft, whatever stands behind it. -/
theorem exists_of_statement (hstop : stop.kind = .endOfInput)
    (hrun : Statement.reader.run stop (skipNewlines ts) = .ok (s, rest)) :
    ∃ line, line ++ rest = ts ∧ ∀ (d : Draft) stop' more,
      (d.extend stop' (line ++ more)).value = (d.accept s).value >>= (·.resume stop' more) := by
  obtain ⟨word, hne, hword, hruns⟩ := Statement.isFinal_reader.exists_word hstop hrun
  obtain ⟨line, hline, hskip⟩ := exists_skipped hne hword
  refine ⟨line, hline, fun d stop' more => ?_⟩
  rw [value_extend, hskip, if_neg (List.append_ne_nil_of_left_ne_nil hne _), hruns]
  simp only
  cases (d.accept s).value <;> rfl

theorem resume_eq_error (hextend : (d.extend stop ts).value = .error e →
      e.IsAt stop.location ∨ ∀ stop' more, (d.extend stop' (ts ++ more)).value = .error e)
    (h : d.resume stop ts = .error e) :
    e.IsAt stop.location ∨ ∀ stop' more, d.resume stop' (ts ++ more) = .error e := by
  cases ts with
  | nil =>
      rw [resume_nil] at h
      cases h
  | cons t us =>
      by_cases ht : t.kind = .newline
      · rw [resume_newline ht] at h
        exact (hextend h).imp_right fun hstays stop' more => (resume_newline ht).trans (hstays stop' more)
      · rw [resume_open ht] at h
        cases h
        exact Or.inr fun stop' more => resume_open ht

/-- A failure before the end of the tokens is the failure of these tokens with any others behind them. -/
theorem extend_eq_error (d : Draft) (ts : List Token) (hstop : stop.kind = .endOfInput)
    (h : (d.extend stop ts).value = .error e) :
    e.IsAt stop.location ∨ ∀ stop' more, (d.extend stop' (ts ++ more)).value = .error e := by
  by_cases hnil : skipNewlines ts = []
  · rw [value_extend, if_pos hnil] at h
    cases h
  cases hrun : Statement.reader.run stop (skipNewlines ts) with
  | error e' =>
      rw [value_extend, if_neg hnil, hrun] at h
      cases h
      refine (Statement.isFinal_reader.failure hstop hrun).imp_right fun hstays stop' more => ?_
      rw [value_extend, skipNewlines_append hnil, if_neg (List.append_ne_nil_of_left_ne_nil hnil _), hstays]
  | ok r =>
      obtain ⟨s, rest⟩ := r
      obtain ⟨line, rfl, hline⟩ := exists_of_statement hstop hrun
      rw [hline] at h
      simp only [List.append_assoc, hline, Results.bind_eq_error]
      rcases Results.bind_eq_error.mp h with hrefused | ⟨next, haccept, hrest⟩
      · exact Or.inr fun stop' more => Or.inl hrefused
      · have hshorter : rest.length < (line ++ rest).length :=
          Nat.lt_of_lt_of_le (Statement.reader.length_lt hrun) (length_skipNewlines_le _)
        refine (resume_eq_error (extend_eq_error next rest hstop) hrest).imp_right fun hstays stop' more => ?_
        exact Or.inr ⟨next, haccept, hstays stop' more⟩
  termination_by ts.length

end Draft

namespace Tokens

theorem exists_of_append_line {source text : String} {ts us : Tokens} (h : read source = .ok ts)
    (hlonger : read (source ++ "\n" ++ text) = .ok us) : ∃ more, us.list = ts.list ++ more := by
  rw [read_append_line h, Results.mapError_eq_ok] at hlonger
  obtain ⟨below, -, rfl⟩ := Results.map_eq_ok.mp hlonger
  exact ⟨_, List.append_assoc ..⟩

end Tokens

namespace Document

variable {source text : String} {ts us : Tokens} {e : Failure} {r : Report}

/-- The first problem of a text is final. A failure that is told before the end of the text, and that
is no miscount of weights, is the failure of the text with whatever tokens on further lines. -/
theorem read_final (htokens : Tokens.read source = .ok ts) (herror : (read source).value = .error e)
    (hreport : e.report? = some r) (hend : r.location ≠ ts.last.location)
    (hcount : ∀ axis listed count location, e ≠ .semantic (.weightCount axis listed count) location)
    (hlonger : Tokens.read (source ++ "\n" ++ text) = .ok us) :
    (read (source ++ "\n" ++ text)).value = .error e := by
  rw [value_read htokens] at herror
  obtain ⟨more, hmore⟩ := Tokens.exists_of_append_line htokens hlonger
  rw [value_read hlonger, hmore]
  rcases Results.bind_eq_error.mp herror with hextend | ⟨d, -, hfinish⟩
  · rcases Draft.extend_eq_error {} ts.list rfl hextend with ⟨r', hr', hat⟩ | hstays
    · rw [hreport] at hr'
      cases hr'
      exact absurd hat hend
    · exact Results.bind_eq_error.mpr (Or.inl (hstays us.last more))
  · rcases Draft.finish_eq_error hfinish with ⟨axis, listed, count, location, he⟩ | ⟨errors, rfl⟩
    · exact absurd he (hcount axis listed count location)
    · cases hreport

/-- The overlap of the second line is told, whatever stands on the third. -/
theorem read_final_of_overlap :
    ∃ source text ts us e, source = "A1: \x7btype: txt\x7d\nA1: \x7btype: box\x7d" ∧ text = "grid: 1x1 \x7d" ∧
      e = .semantic (.overlap (.single ⟨0, 0⟩) (.single ⟨0, 0⟩)) ⟨2, 1, 16⟩ ∧
      Tokens.read source = .ok ts ∧ ts.last.location = ⟨2, 16, 31⟩ ∧ (read source).value = .error e ∧
      Tokens.read (source ++ "\n" ++ text) = .ok us ∧
      (read (source ++ "\n" ++ text)).value = .error e := by
  obtain ⟨source, hsource⟩ : ∃ source, source = "A1: \x7btype: txt\x7d\nA1: \x7btype: box\x7d" := ⟨_, rfl⟩
  obtain ⟨e, he⟩ : ∃ e, e = Failure.semantic (.overlap (.single ⟨0, 0⟩) (.single ⟨0, 0⟩)) ⟨2, 1, 16⟩ :=
    ⟨_, rfl⟩
  have hstop : (Tokens.read source).toOption.map (·.stop) = some ⟨2, 16, 31⟩ := by
    rw [hsource]
    decide +kernel
  have hlonger : (Tokens.read (source ++ "\n" ++ "grid: 1x1 \x7d")).toOption.isSome = true := by
    rw [hsource]
    decide +kernel
  have hfailure : (read source).value.map (fun _ => ()) = .error e := by
    rw [hsource, he]
    decide +kernel
  obtain ⟨ts, hts, hend⟩ := Option.map_eq_some_iff.mp hstop
  obtain ⟨us, hus⟩ := Option.isSome_iff_exists.mp hlonger
  rw [Results.toOption_eq_some] at hts hus
  cases hread : (read source).value with
  | ok doc =>
      rw [hread] at hfailure
      cases hfailure
  | error e' =>
      rw [hread] at hfailure
      obtain rfl := Except.error.inj hfailure
      have hreport : e'.report? = some ⟨.semantic, "Cell overlap: A1 overlaps A1", ⟨2, 1, 16⟩⟩ := by
        rw [he]
        decide +kernel
      have hbefore : (⟨2, 1, 16⟩ : Location) ≠ ts.last.location := by
        rw [Tokens.last, hend]
        decide
      have hcount : ∀ axis listed count location, e' ≠ .semantic (.weightCount axis listed count) location := by
        rintro axis listed count location rfl
        cases he
      exact ⟨source, _, ts, us, e', hsource, rfl, he, hts, hend, hread, hus,
        read_final hts hread hreport hbefore hcount hus⟩

end Document
end Wireframe
