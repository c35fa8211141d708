import Wireframe.Proofs.DraftRelocation
import Wireframe.Proofs.TextSplit
import Wireframe.Proofs.TokenLocations

/-! Excerpts of reports. What a document fails with is told at a place of its text: where what cannot be read
stands, where a token stands, or at an end of the text (`Document.isAfter_of_read`). The lines that a report
cuts the text into are those that positions are counted by, so its excerpt shows the line of that place, with
the caret under it (`Report.line_eq`, `Report.shows_dropTail`). -/

namespace Wireframe

namespace Report

variable {r : Report} {source : String} {before rest line : List Char}

/-- What an excerpt shows of a line of the text, and what stands before the caret under it: as many characters
as the line shows before the column, a tab under each tab and a space under all else. -/
structure Shows (r : Report) (line shown lead : List Char) : Prop where
  returns : ∃ returns, line = shown ++ returns ∧ ∀ c ∈ returns, c = '\r'
  last : shown.getLast? ≠ some '\r'
  length : (lead.length : Int) = min (r.location.column - 1) shown.length
  tabs : ∀ (i : Nat) (c : Char), lead[i]? = some c → c = if shown[i]? = some '\t' then '\t' else ' '

/-- The line of a position is the one that the position is in, without what an excerpt leaves out. -/
theorem line_eq (hsource : source.toList = before ++ rest) (hr : r.location.IsAfter before) :
    r.line source =
      Text.dropTail (· = '\r') (before.rtakeWhile (· ≠ '\n') ++ rest.takeWhile (· ≠ '\n')) := by
  have hline := hr.line
  have hindex : (r.location.line - 1).toNat = before.count '\n' := by omega
  rw [Report.line, if_neg (by omega), hindex, hsource, Text.getElem?_splitAt]
  rfl

theorem shows_dropTail (hcolumn : 1 ≤ r.location.column) :
    r.Shows line (Text.dropTail (· = '\r') line) (r.lead (Text.dropTail (· = '\r') line)) where
  returns := by
    obtain ⟨returns, hline, hreturns⟩ := Text.append_dropTail (· = '\r') line
    exact ⟨returns, hline.symm, fun c hc => of_decide_eq_true (hreturns c hc)⟩
  last h := of_decide_eq_false (Text.getLast?_dropTail (· = '\r') line '\r' h) rfl
  length := by
    rw [lead, List.length_map, List.length_take]
    omega
  tabs i c h := by
    rw [lead, List.getElem?_map] at h
    obtain ⟨d, hd, rfl⟩ := Option.map_eq_some_iff.mp h
    rw [List.getElem?_take] at hd
    split at hd
    · rw [hd]
      simp only [Option.some.injEq]
    · cases hd

end Report

namespace Document

variable {source : String} {e : Failure} {r : Report}

/-- What a document fails with is told right after some beginning of its text. -/
theorem isAfter_of_read (h : (read source).value = .error e) (hr : e.report? = some r) :
    ∃ before rest, source.toList = before ++ rest ∧ r.location.IsAfter before := by
  obtain ⟨hplaces, hfault⟩ := Tokens.read_located source
  rw [read] at h
  cases htokens : Tokens.read source with
  | error found =>
      obtain ⟨fault, location⟩ := found
      rw [htokens] at h
      cases h
      cases hr
      obtain ⟨before, rest, hsource, hbefore, -⟩ := hfault fault location htokens
      exact ⟨before, rest, hsource, hbefore⟩
  | ok ts =>
      rw [htokens] at h
      rcases location_of_ofTokens h hr with hstart | ⟨t, ht, hlocation⟩
      · rw [hstart]
        exact ⟨[], source.toList, rfl, Location.isAfter_advance []⟩
      · obtain ⟨-, -, hall⟩ := hplaces ts htokens
        obtain ⟨before, rest, hsource, hbefore, -⟩ := hall t ht
        exact ⟨before, rest, hsource, hlocation ▸ hbefore⟩

/-- An excerpt points at the problem. The position of what a document fails with is exact; the excerpt is the
report in one line, then the line of that position with its number, then the caret in the column of the
position, or right behind the line where the position is beyond what is shown of it. There is no text with an
indent that there is no room for. -/
theorem read_excerpt (h : (read source).value = .error e) (hr : e.report? = some r) :
    ∃ before rest shown lead, source.toList = before ++ rest ∧ r.location.IsAfter before ∧
      r.Shows (before.rtakeWhile (· ≠ '\n') ++ rest.takeWhile (· ≠ '\n')) shown lead ∧
      ∀ indent room,
        (CapacityFault.of? room indent = none → r.format (some source) indent room =
          .ok (r.message ++ " at " ++ r.location.text ++ "\n" ++
            Text.spaces indent.toNat ++ toString r.location.line ++ " | " ++ String.ofList shown ++ "\n" ++
            Text.spaces indent.toNat ++ Text.spaces (toString r.location.line).length ++ " | " ++
              String.ofList lead ++ "^")) ∧
        ∀ fault, CapacityFault.of? room indent = some fault →
          r.format (some source) indent room = .error fault := by
  obtain ⟨before, rest, hsource, hbefore⟩ := isAfter_of_read h hr
  have hcolumn : 1 ≤ r.location.column := by
    have := hbefore.column
    omega
  refine ⟨before, rest, r.line source, r.lead (r.line source), hsource, hbefore, ?_, fun indent room => ⟨?_, ?_⟩⟩
  · rw [Report.line_eq hsource hbefore]
    exact Report.shows_dropTail hcolumn
  · intro hroom
    simp only [Report.format, hroom, Report.excerpt, Report.text]
  · intro fault hfault
    simp only [Report.format, hfault]

theorem read_excerpt_of_tabs :
    ∃ source e r, source = "grid: 4x3\r\n\tA1 @\r\r\nB1" ∧ (read source).value = .error e ∧
      e.report? = some r ∧ r.location = ⟨2, 5, 15⟩ ∧
      r.format (some source) 2 80 = .ok "Unexpected character '@' at 2:5\n  2 | \tA1 @\n    | \t   ^" ∧
      CapacityFault.of? 80 2 = none ∧
      ∃ before rest shown lead, source.toList = before ++ rest ∧ r.location.IsAfter before ∧
        r.Shows (before.rtakeWhile (· ≠ '\n') ++ rest.takeWhile (· ≠ '\n')) shown lead ∧
        r.format (some source) 2 80 = .ok (r.message ++ " at " ++ r.location.text ++ "\n" ++
          Text.spaces 2 ++ toString r.location.line ++ " | " ++ String.ofList shown ++ "\n" ++
          Text.spaces 2 ++ Text.spaces (toString r.location.line).length ++ " | " ++
            String.ofList lead ++ "^") := by
  have hscan : Lexeme.scan .start "grid: 4x3\r\n\tA1 @\r\r\nB1".toList =
      .error (.unexpected '@', ⟨2, 5, 15⟩) := by
    decide +kernel
  have hread : (read "grid: 4x3\r\n\tA1 @\r\r\nB1").value =
      .error (.lexical (.unexpected '@') ⟨2, 5, 15⟩) := by
    rw [read, Tokens.read, hscan]
    rfl
  obtain ⟨before, rest, shown, lead, hsource, hbefore, hshows, hformat⟩ := read_excerpt hread rfl
  exact ⟨_, _, _, rfl, hread, rfl, rfl, by decide +kernel, by decide, before, rest, shown, lead, hsource,
    hbefore, hshows, (hformat 2 80).1 (by decide)⟩

/-- There is no excerpt with a number of spaces that is beyond all lengths, however much room there is. -/
theorem read_excerpt_beyond_lengths :
    ∃ e r, (read "@").value = .error e ∧ e.report? = some r ∧
      ∀ room text, r.format (some "@") 0x8000000000000000 room ≠ .ok text := by
  have hscan : Lexeme.scan .start "@".toList = .error (.unexpected '@', .start) := by decide +kernel
  have hread : (read "@").value = .error (.lexical (.unexpected '@') .start) := by
    rw [read, Tokens.read, hscan]
    rfl
  refine ⟨_, _, hread, rfl, fun room text htext => ?_⟩
  have hroom : CapacityFault.of? room 0x8000000000000000 = some .noLength := if_pos (by decide)
  simp only [Report.format, hroom] at htext
  cases htext

end Document
end Wireframe
