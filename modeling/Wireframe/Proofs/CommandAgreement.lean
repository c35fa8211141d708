import Wireframe.Proofs.CommandExits
import Wireframe.Proofs.ReaderStages

/-! Commands on one file. What a text is decides alone how the commands end that read it: they refuse it
in the same words, and what `compile` prints of a document is its drawing (`Command.Agree`). -/

namespace Wireframe.Command

variable {d d' : Disk} {s : Setting} {a : Arguments} {path : Path} {job : Job} {o : Outcome}
  {source : String} {doc : Document} {base : Option Path}

/-- The directory that images are looked for in: none where they are not to be embedded. -/
def Based (s : Setting) (a : Arguments) (path : Path) (base : Option Path) : Prop :=
  if s.env.get .embedImages = true ∧ a.noImages = false then
    Config.imageBase s.place (a.baseDir.join.map Path.read)
      (s.env.lookup Config.Variable.imageBaseDir.name) (some path) = .ok base
  else base = none

theorem based_of_imageBase (h : imageBase s a path = .ok base) : Based s a path base := by
  simp only [imageBase, Bool.and_eq_true, Bool.not_eq_true'] at h
  rw [Based]
  split
  · next hembed =>
    rw [if_pos hembed] at h
    split at h
    · cases h
    · exact Results.mapError_eq_ok.mp h
  · next hembed =>
    rw [if_neg hembed] at h
    cases h
    rfl

/-- What the commands make of one text. -/
structure Agree (d : Disk) (s : Setting) (a : Arguments) (path : Path) (source : String)
    (tokens check compile : Outcome) : Prop where
  tokens_exit : tokens.exit = .ok 1 ↔ ∃ fault, Tokens.read source = .error fault
  check_exit : check.exit = .ok 0 ↔ ∃ doc, (Document.read source).value = .ok doc
  compile_exit : compile.exit = .ok 0 ↔ check.exit = .ok 0
  /-- Whoever refuses the text tells the same report. -/
  refused : ∀ failure, (Document.read source).value = .error failure → ∃ r, failure.report? = some r ∧
    check = (Outcome.reported 1 [s.told source r]).after (s.notes (Document.read source).notes) ∧
    compile = check ∧
    ((∃ fault, Tokens.read source = .error fault) ↔ ∃ fault location, failure = .lexical fault location) ∧
    ((∃ fault, Tokens.read source = .error fault) → tokens = check)
  /-- What is printed is the drawing with the images of the directory. -/
  drawn : ∀ doc, (Document.read source).value = .ok doc → ∃ base, Based s a path base ∧
    (Document.compile source (Image.loader? d.still s.place base none)).value = .ok compile.out

@[simp] theorem exit_after (o : Outcome) (earlier : List Entry) : (o.after earlier).exit = o.exit := rfl

/-- A text without tokens is told of by the commands that need a document as by the one that does not. -/
theorem ends_untokened (htext : d.HasText path source) {fault : LexicalFault × Location}
    (htokens : Tokens.read source = .error fault) :
    Ends d s a path .tokens ((failed s source (.lexical fault.1 fault.2)).after
      (s.notes (Document.read source).notes)) d := by
  have hnotes : (Document.read source).notes = [] := by
    rw [Document.read, htokens]
    rfl
  rw [hnotes]
  exact .untokened htext htokens

/-- On a text that is no document, the commands end with the same report. -/
theorem agree_of_refused {failure : Failure} (htext : d.HasText path source)
    (hruns : Numeral.RunsFit source.toList) (hroom : CapacityFault.of? s.room (s.env.get .excerptIndent) = none)
    (hread : (Document.read source).value = .error failure) :
    ∃ tokens check compile, Ends d s a path .tokens tokens d ∧ Ends d s a path .check check d ∧
      Ends d s a path .compile compile d ∧ Agree d s a path source tokens check compile := by
  obtain ⟨r, hreport⟩ := ((Document.reported_read hruns).of_eq_error hread).exists_report
  have hfailed : failed s source failure = .reported 1 [s.told source r] := by
    rw [failed_of_report hreport, reported_of_room hroom]
  have hlexical : (∃ fault, Tokens.read source = .error fault) ↔
      ∃ fault location, failure = .lexical fault location := by
    simp only [Prod.exists, ← Document.read_eq_lexical_iff, hread, Except.error.injEq]
  obtain ⟨tokens, htokens, hexit, hsame⟩ : ∃ tokens, Ends d s a path .tokens tokens d ∧
      (tokens.exit = .ok 1 ↔ ∃ fault, Tokens.read source = .error fault) ∧
      ((∃ fault, Tokens.read source = .error fault) →
        tokens = (failed s source failure).after (s.notes (Document.read source).notes)) := by
    cases htokens : Tokens.read source with
    | error fault =>
        have hfault := Document.read_eq_lexical_iff.mpr htokens
        cases hread.symm.trans hfault
        refine ⟨_, ends_untokened htext htokens, ?_, fun _ => rfl⟩
        simp [hfailed, Outcome.reported]
    | ok ts =>
        refine ⟨_, .listed htext htokens, ?_, ?_⟩
        · simp [Outcome.printed]
        · rintro ⟨fault, ⟨⟩⟩
  refine ⟨tokens, _, _, htokens, .refused (by decide) htext hread, .refused (by decide) htext hread, ?_⟩
  exact {
    tokens_exit := hexit
    check_exit := by simp [hfailed, Outcome.reported, hread]
    compile_exit := Iff.rfl
    refused := by
      intro failure' hfailure
      cases hread.symm.trans hfailure
      exact ⟨r, hreport, by rw [hfailed], rfl, hlexical, hsame⟩
    drawn := by simp [hread] }

/-- On a document, the commands end with status zero, and what is printed is the drawing. -/
theorem agree_of_read (htext : d.HasText path source) (hread : (Document.read source).value = .ok doc)
    (hout : a.output = some (some "-")) (hbased : ¬Baseless s a) :
    ∃ tokens check compile, Ends d s a path .tokens tokens d ∧ Ends d s a path .check check d ∧
      Ends d s a path .compile compile d ∧ Agree d s a path source tokens check compile := by
  obtain ⟨ts, htokens⟩ : ∃ ts, Tokens.read source = .ok ts := by
    cases htokens : Tokens.read source with
    | ok ts => exact ⟨ts, rfl⟩
    | error fault =>
        rw [Document.read_eq_lexical_iff.mpr htokens] at hread
        cases hread
  obtain ⟨base, text, notes, hbase, hdraw, hends⟩ := exists_ends_drawn htext hread hbased
  refine ⟨_, _, _, .listed htext htokens, .approved htext hread, hends _ _ (.printed hout), ?_⟩
  exact {
    tokens_exit := by simp [Outcome.printed, htokens]
    check_exit := by simp [Outcome.printed, hread]
    compile_exit := by simp [Outcome.printed]
    refused := by simp [hread]
    drawn := by
      intro doc' hdoc
      refine ⟨base, based_of_imageBase hbase, ?_⟩
      rw [Document.compile_of_read_eq_ok hread, hdraw]
      rfl }

theorem exists_agree (htext : d.HasText path source) (hruns : Numeral.RunsFit source.toList)
    (hroom : CapacityFault.of? s.room (s.env.get .excerptIndent) = none) (hout : a.output = some (some "-"))
    (hbased : ¬Baseless s a) :
    ∃ tokens check compile, Ends d s a path .tokens tokens d ∧ Ends d s a path .check check d ∧
      Ends d s a path .compile compile d ∧ Agree d s a path source tokens check compile := by
  cases hread : (Document.read source).value with
  | error failure => exact agree_of_refused htext hruns hroom hread
  | ok doc => exact agree_of_read htext hread hout hbased

/-- Whoever has no document to draw leaves the disk as it is. -/
theorem Ends.unchanged (h : Ends d s a path .compile o d')
    (hnone : ∀ source doc, d.HasText path source → (Document.read source).value ≠ .ok doc) : d' = d := by
  cases h with
  | drawn htext hread => exact absurd hread (hnone _ _ htext)
  | unread | undecodable | refused | baseless => rfl

/-- On a file with a text, where there is room for the excerpt of a report, the commands agree with each
other and with the reading and the drawing of the text; and no file is touched where there is no document
to draw. -/
theorem run_agrees (env : Config.Environment) (place : List String) (room : Int) {file : String}
    {forTokens forCheck forCompile : List String} {a b c : Arguments}
    (htext : d.HasText (Path.read file) source) (hruns : Numeral.RunsFit source.toList)
    (hroom : CapacityFault.of? room (env.get .excerptIndent) = none)
    (htokens : Arguments.read .tokens forTokens = .ok (a, file))
    (hcheck : Arguments.read .check forCheck = .ok (b, file))
    (hcompile : Arguments.read .compile forCompile = .ok (c, file)) (hout : c.output = some (some "-"))
    (hbased : ¬Baseless (.start env place room) c) :
    (∃ tokens check compile, d.run (run env place room ("tokens" :: forTokens)) = (tokens, d) ∧
      d.run (run env place room ("check" :: forCheck)) = (check, d) ∧
      d.run (run env place room ("compile" :: forCompile)) = (compile, d) ∧
      Agree d (.start env place room) c (Path.read file) source tokens check compile) ∧
    ∀ args a file, Arguments.read .compile args = .ok (a, file) →
      (∀ source doc, d.HasText (Path.read file) source → (Document.read source).value ≠ .ok doc) →
      (d.run (run env place room ("compile" :: args))).2 = d := by
  constructor
  · obtain ⟨tokens, check, compile, hendTokens, hendCheck, hendCompile, hagree⟩ :=
      exists_agree (s := .start env place room) htext hruns hroom hout hbased
    refine ⟨tokens, check, compile, ?_, ?_, ?_, hagree⟩
    · exact (congrArg d.run (run_job .tokens place room htokens)).trans hendTokens.run
    · exact (congrArg d.run (run_job .check place room hcheck)).trans hendCheck.run
    · exact (congrArg d.run (run_job .compile place room hcompile)).trans hendCompile.run
  · intro args a file hargs hnone
    obtain ⟨o, d', hends⟩ := exists_ends d (.start env place room) a (Path.read file) .compile
    have hrun : d.run (run env place room ("compile" :: args)) = (o, d') :=
      (congrArg d.run (run_job .compile place room hargs)).trans hends.run
    rw [hrun]
    exact hends.unchanged hnone

/-- A directory with a text that has no tokens. -/
def scrap : Disk := ⟨.dir [("page.gw", .file [0x40])], []⟩

theorem hasText_scrap : scrap.HasText (Path.read "page.gw") "@" := by
  have hdecode : Text.decodeUtf8 [0x40] = .ok ['@'] := by decide +kernel
  exact ⟨[0x40], ['@'], rfl, hdecode, rfl⟩

theorem exists_fault_scrap : ∃ fault, Tokens.read "@" = .error fault := by
  cases htokens : Tokens.read "@" with
  | error fault => exact ⟨fault, rfl⟩
  | ok ts =>
      have hfails : (Tokens.read "@").isOk = false := by decide +kernel
      rw [htokens] at hfails
      cases hfails

/-- All commands refuse the text in the same words. -/
theorem run_agrees_of_scrap : ∃ o r, o.exit = .ok 1 ∧ o.err = [Setting.told (.start [] [] 80) "@" r] ∧
    scrap.run (run [] [] 80 ["tokens", "page.gw"]) = (o, scrap) ∧
    scrap.run (run [] [] 80 ["check", "page.gw"]) = (o, scrap) ∧
    scrap.run (run [] [] 80 ["compile", "page.gw", "-o", "-"]) = (o, scrap) := by
  have hruns : Numeral.RunsFit "@".toList := Numeral.runsFit_of_length_le (by decide)
  have htokens : Arguments.read .tokens ["page.gw"] = .ok ({ file := some "page.gw" }, "page.gw") := by
    decide +kernel
  have hcheck : Arguments.read .check ["page.gw"] = .ok ({ file := some "page.gw" }, "page.gw") := by
    decide +kernel
  have hcompile : Arguments.read .compile ["page.gw", "-o", "-"] =
      .ok ({ file := some "page.gw", output := some (some "-") }, "page.gw") := by decide +kernel
  obtain ⟨⟨tokens, check, compile, hrunTokens, hrunCheck, hrunCompile, hagree⟩, -⟩ :=
    run_agrees [] [] 80 hasText_scrap hruns (by decide +kernel) htokens hcheck hcompile rfl
      fun hbaseless => by cases hbaseless.2.2
  obtain ⟨fault, hfault⟩ := exists_fault_scrap
  have hread := Document.read_eq_lexical_iff.mpr hfault
  obtain ⟨r, -, hrefusal, rfl, -, hsame⟩ := hagree.refused _ hread
  cases hsame ⟨fault, hfault⟩
  refine ⟨tokens, r, hagree.tokens_exit.mpr ⟨fault, hfault⟩, ?_, hrunTokens, hrunCheck, hrunCompile⟩
  rw [hrefusal, Document.read, hfault]
  rfl

/-- Where the excerpt is to stand further in than any length, no command reports that the text has no tokens,
however much room there is; and a document is not drawn where a directory without a name is asked for. -/
theorem run_disagrees :
    (∃ fault, Tokens.read "@" = .error fault) ∧
    (∀ (room : Int) (job : Job),
      (scrap.run (run [("GRIDWIRE_EXCERPT_INDENT", "9223372036854775808")] [] room [job.name, "page.gw"])).1.exit =
        .error (.indent .noLength)) ∧
    (shelf.run (run [] [] 80 ["check", "page.gw"])).1.exit = .ok 0 ∧
    (shelf.run (run [] [] 80 ["compile", "page.gw", "-o", "-", "--base-dir=--"])).1.exit =
      .error .noDirectory := by
  obtain ⟨fault, hfault⟩ := exists_fault_scrap
  refine ⟨⟨fault, hfault⟩, fun room job => ?_, ?_, ?_⟩
  · have hargs : Arguments.read job.form ["page.gw"] = .ok ({ file := some "page.gw" }, "page.gw") := by
      cases job <;> decide +kernel
    have hindent : CapacityFault.of? room (Config.Environment.get
        [("GRIDWIRE_EXCERPT_INDENT", "9223372036854775808")] .excerptIndent) = some .noLength :=
      if_pos (Or.inr (by decide +kernel))
    have hreports : Reports job "@" (Tokens.report fault) := by
      cases job with
      | tokens => exact .lexical hfault
      | check | compile => exact .failure (by decide) (Document.read_eq_lexical_iff.mpr hfault) rfl
    exact Crashes.exit_run (.indent hasText_scrap hreports hindent) hargs
  · exact Results.toOption_eq_some.mp (by decide +kernel)
  · obtain ⟨asked, hasked⟩ : ∃ asked : Arguments,
      asked = { file := some "page.gw", output := some (some "-"), baseDir := some none } := ⟨_, rfl⟩
    have hargs : Arguments.read .compile ["page.gw", "-o", "-", "--base-dir=--"] = .ok (asked, "page.gw") := by
      rw [hasked]
      decide +kernel
    have hread : (Document.read "A1: \x7b type: box \x7d").value.toOption.isSome = true := by decide +kernel
    obtain ⟨doc, hdoc⟩ := Option.isSome_iff_exists.mp hread
    have hbaseless : Baseless (.start [] [] 80) asked := by
      rw [hasked]
      exact ⟨by decide +kernel, rfl, rfl⟩
    have hcrashes : Crashes shelf (.start [] [] 80) asked (Path.read "page.gw") .compile .noDirectory :=
      .directory hasText_shelf (Results.toOption_eq_some.mp hdoc) hbaseless
    exact hcrashes.exit_run hargs

end Wireframe.Command
