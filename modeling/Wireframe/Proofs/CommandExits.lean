import Wireframe.Proofs.CommandEnds
import Wireframe.Proofs.DraftRules

/-! Ends without a status. A command that reads a file has a status unless one of the reasons of
`Command.Crashes` applies: the file is no text, its text has an overlong row of digits, the excerpt of a
report has more blanks in front of it than there is room for, or there is no directory, no suffix or no
path where one was asked for. With a status zero it leaves a result, with a status one it tells what is
wrong (`Command.run_exits`). This is exact for outputs that take any text and for the disks of `Disk.Tree`. -/

namespace Wireframe

namespace Path

theorem withSuffix_eq_error_iff {p : Path} {suffix : String} {e : BadSuffix} :
    p.withSuffix suffix = .error e ↔ isSuffix suffix.toList = false ∧ e = ⟨suffix⟩ := by
  rw [withSuffix]
  split
  · next h => simp [h]
  · next h => simp [Bool.eq_false_of_not_eq_true h, eq_comm]

end Path

namespace Disk

variable {d d' : Disk} {p : Path} {bytes : List UInt8} {e : Path.NullByte}

theorem refused?_eq_nullByte_iff : refused? p = some (.nullByte e) ↔ p.hasNull = true := by
  rw [refused?]
  split
  · next h => simp [h]
  · next h => split <;> simp [h]

theorem read_eq_nullByte_iff : d.read p = .error (.nullByte e) ↔ p.hasNull = true := by
  rw [← refused?_eq_nullByte_iff (e := e), read]
  cases refused? p with
  | some fault => simp
  | none => cases d.contents p <;> simp [Except.mapError]

theorem write_eq_nullByte_iff :
    d.write p bytes = (.error (.nullByte e), d) ↔ p.hasNull = true := by
  rw [← refused?_eq_nullByte_iff (e := e), write]
  cases refused? p with
  | some fault => simp
  | none => cases d.destination p <;> simp

theorem HasText.hasNull_eq {source : String} (h : d.HasText p source) : p.hasNull = false := by
  obtain ⟨bytes, cs, hread, -⟩ := h
  by_contra hnull
  rw [(read_eq_nullByte_iff (e := {})).mpr (Bool.eq_true_of_not_eq_false hnull)] at hread
  cases hread

/-- A file holds one text at most. -/
theorem HasText.unique {source source' : String} (h : d.HasText p source) (h' : d.HasText p source') :
    source = source' := by
  obtain ⟨bytes, cs, hread, hdecode, rfl⟩ := h
  obtain ⟨bytes', cs', hread', hdecode', rfl⟩ := h'
  cases hread.symm.trans hread'
  cases hdecode.symm.trans hdecode'
  rfl

end Disk

theorem Config.exists_imageBase {path : Path} (hnull : path.hasNull = false) (place : List String)
    (override : Option Path) (raw : Option String) :
    ∃ base, Config.imageBase place override raw (some path) = .ok base := by
  unfold Config.imageBase
  split
  · exact ⟨_, rfl⟩
  · exact ⟨_, rfl⟩
  · next heq =>
    cases heq
    exact ⟨_, by rw [Path.resolve, if_neg (by simp [hnull])]; rfl⟩
  · next heq => cases heq

namespace Command

variable {d d' : Disk} {s : Setting} {a : Arguments} {path : Path} {job : Job} {o : Outcome}
  {source : String} {doc : Document} {base : Option Path} {e : Fatal}

/-- Images are to be embedded from a directory that was asked for without a name. -/
def Baseless (s : Setting) (a : Arguments) : Prop :=
  s.env.get .embedImages = true ∧ a.noImages = false ∧ a.baseDir = some none

/-- What a command reports of a text. -/
inductive Reports : Job → String → Report → Prop
  | lexical {source : String} {fault : LexicalFault × Location} (htokens : Tokens.read source = .error fault) :
      Reports .tokens source (Tokens.report fault)
  | failure {job : Job} {source : String} {failure : Failure} {r : Report} (hjob : job ≠ .tokens)
      (hread : (Document.read source).value = .error failure) (hreport : failure.report? = some r) :
      Reports job source r

/-- Why a command that reads a file ends without a status. -/
inductive Crashes (d : Disk) (s : Setting) (a : Arguments) (path : Path) : Job → Fatal → Prop
  | path {job : Job} (hnull : path.hasNull = true) : Crashes d s a path job (.nullByte {})
  | undecodable {job : Job} {bytes : List UInt8} {e : Text.Utf8Error} (hread : d.read path = .ok bytes)
      (hdecode : Text.decodeUtf8 bytes = .error e) : Crashes d s a path job (.undecodable e)
  | numeral {job : Job} {source : String} {tooLong : Numeral.TooLong} (hjob : job ≠ .tokens)
      (htext : d.HasText path source) (hread : (Document.read source).value = .error (.numeral tooLong)) :
      Crashes d s a path job (.numeral tooLong)
  | invalid {job : Job} {source : String} {errors : List FieldError} (hjob : job ≠ .tokens)
      (htext : d.HasText path source) (hread : (Document.read source).value = .error (.invalid errors)) :
      Crashes d s a path job (.invalid errors)
  | indent {job : Job} {source : String} {r : Report} {e : CapacityFault} (htext : d.HasText path source)
      (hreports : Reports job source r) (hindent : CapacityFault.of? s.room (s.env.get .excerptIndent) = some e) :
      Crashes d s a path job (.indent e)
  | directory {source : String} {doc : Document} (htext : d.HasText path source)
      (hread : (Document.read source).value = .ok doc) (hbaseless : Baseless s a) :
      Crashes d s a path .compile .noDirectory
  | suffix {source : String} {doc : Document} (htext : d.HasText path source)
      (hread : (Document.read source).value = .ok doc) (hbased : ¬Baseless s a)
      (hout : Drawing.given a.output.join = none)
      (hsuffix : Path.isSuffix (s.env.get .outputSuffix).toList = false) :
      Crashes d s a path .compile (.suffix ⟨s.env.get .outputSuffix⟩)
  | output {source : String} {doc : Document} {out : Path} (htext : d.HasText path source)
      (hread : (Document.read source).value = .ok doc) (hbased : ¬Baseless s a)
      (hout : a.output ≠ some (some "-")) (htarget : target s a path = .ok out) (hnull : out.hasNull = true) :
      Crashes d s a path .compile (.nullByte {})

theorem imageBase_eq_error_iff (hnull : path.hasNull = false) :
    imageBase s a path = .error e ↔ Baseless s a ∧ e = .noDirectory := by
  rw [imageBase, Baseless]
  split
  · next hembed =>
    rw [Bool.and_eq_true, Bool.not_eq_true'] at hembed
    split
    · next hdir => simp [hembed, hdir, eq_comm]
    · next hdir =>
      obtain ⟨base, hbase⟩ := Config.exists_imageBase hnull s.place (a.baseDir.join.map Path.read)
        (s.env.lookup Config.Variable.imageBaseDir.name)
      rw [hbase]
      exact iff_of_false (fun h => by cases h) fun h => hdir h.1.2.2
  · next hembed =>
    refine iff_of_false (fun h => by cases h) fun h => hembed ?_
    simp [h.1.1, h.1.2.1]

theorem target_eq_error_iff {bad : Path.BadSuffix} : target s a path = .error bad ↔
    Drawing.given a.output.join = none ∧ Path.isSuffix (s.env.get .outputSuffix).toList = false ∧
      bad = ⟨s.env.get .outputSuffix⟩ := by
  rw [target]
  split
  · next h => simp [h]
  · next h => simp [h, Path.withSuffix_eq_error_iff]

/-- A report as it is written to the error output: with its stage, and with the excerpt. -/
def Setting.told (s : Setting) (source : String) (r : Report) : Entry :=
  .text (r.stage.word ++ " error: " ++ r.excerpt source (s.env.get .excerptIndent) ++ "\n")

/-- A failure is reported, or it is one of those that nothing is reported of. -/
theorem failed_cases (s : Setting) (source : String) (failure : Failure) :
    (∃ r, failure.report? = some r ∧ failed s source failure = reported s source r) ∨
      (∃ tooLong, failure = .numeral tooLong ∧ failed s source failure = .fatal (.numeral tooLong)) ∨
      ∃ errors, failure = .invalid errors ∧ failed s source failure = .fatal (.invalid errors) := by
  cases failure with
  | lexical | grammar | semantic => exact Or.inl ⟨_, rfl, rfl⟩
  | numeral tooLong => exact Or.inr (Or.inl ⟨tooLong, rfl, rfl⟩)
  | invalid errors => exact Or.inr (Or.inr ⟨errors, rfl, rfl⟩)

theorem failed_of_report {failure : Failure} {r : Report} (h : failure.report? = some r) :
    failed s source failure = reported s source r := by
  rcases failed_cases s source failure with ⟨r', hr, hfailed⟩ | ⟨tooLong, rfl, -⟩ | ⟨errors, rfl, -⟩
  · cases h.symm.trans hr
    exact hfailed
  · cases h
  · cases h

theorem reported_of_room {r : Report} (h : CapacityFault.of? s.room (s.env.get .excerptIndent) = none) :
    reported s source r = .reported 1 [s.told source r] := by
  rw [reported, Report.format, h]
  rfl

theorem reported_of_fault {r : Report} {fault : CapacityFault}
    (h : CapacityFault.of? s.room (s.env.get .excerptIndent) = some fault) :
    reported s source r = .fatal (.indent fault) := by
  rw [reported, Report.format, h]

theorem Reports.crashes {r : Report} (h : Reports job source r) (htext : d.HasText path source)
    (he : (reported s source r).exit = .error e) : Crashes d s a path job e := by
  cases hindent : CapacityFault.of? s.room (s.env.get .excerptIndent) with
  | none =>
      rw [reported_of_room hindent] at he
      cases he
  | some fault =>
      rw [reported_of_fault hindent] at he
      cases he
      exact .indent htext h hindent

theorem exit_faulted_eq_error_iff {what : String} {fault : Disk.Fault} :
    (faulted s what fault).exit = .error e ↔ fault = .nullByte {} ∧ e = .nullByte {} := by
  cases fault with
  | system cause p => exact iff_of_false (fun h => by cases h) fun h => by cases h.1
  | nullByte n =>
    constructor
    · rintro ⟨⟩
      exact ⟨rfl, rfl⟩
    · rintro ⟨-, rfl⟩
      rfl

variable {text : String}

theorem Delivers.crashes (h : Delivers d s a path doc text o d') (htext : d.HasText path source)
    (hread : (Document.read source).value = .ok doc) (hbased : ¬Baseless s a) (he : o.exit = .error e) :
    Crashes d s a path .compile e := by
  cases h with
  | printed => cases he
  | unnamed hout htarget =>
      cases he
      obtain ⟨hnone, hsuffix, rfl⟩ := target_eq_error_iff.mp htarget
      exact .suffix htext hread hbased hnone hsuffix
  | unwritten hout htarget hwrite =>
      obtain ⟨rfl, rfl⟩ := exit_faulted_eq_error_iff.mp he
      exact .output htext hread hbased hout htarget (Disk.write_eq_nullByte_iff.mp hwrite)
  | written => cases he

theorem Ends.crashes (h : Ends d s a path job o d') (he : o.exit = .error e) : Crashes d s a path job e := by
  cases h with
  | unread hread =>
      obtain ⟨rfl, rfl⟩ := exit_faulted_eq_error_iff.mp he
      exact .path (Disk.read_eq_nullByte_iff.mp hread)
  | undecodable hread hdecode =>
      cases he
      exact .undecodable hread hdecode
  | untokened htext htokens => exact (Reports.lexical htokens).crashes htext he
  | listed => cases he
  | @refused _ source failure hjob htext hread =>
      rcases failed_cases s source failure with ⟨r, hreport, hfailed⟩ | ⟨tooLong, rfl, -⟩ | ⟨errors, rfl, -⟩
      · rw [hfailed] at he
        exact (Reports.failure hjob hread hreport).crashes htext he
      · cases he
        exact .numeral hjob htext hread
      · cases he
        exact .invalid hjob htext hread
  | approved => cases he
  | baseless htext hread hbase =>
      cases he
      obtain ⟨hbaseless, rfl⟩ := (imageBase_eq_error_iff htext.hasNull_eq).mp hbase
      exact .directory htext hread hbaseless
  | drawn htext hread hbase hdraw hdelivers =>
      refine hdelivers.crashes htext hread (fun hbaseless => ?_) he
      rw [(imageBase_eq_error_iff htext.hasNull_eq).mpr ⟨hbaseless, rfl⟩] at hbase
      cases hbase

/-- A document is drawn and delivered where there is a directory for its images. -/
theorem exists_ends_drawn (htext : d.HasText path source) (hread : (Document.read source).value = .ok doc)
    (hbased : ¬Baseless s a) : ∃ base text notes, imageBase s a path = .ok base ∧
      (doc.draw (Image.loader? d.still s.place base none)).value = .ok text ∧
      ∀ o d', Delivers d s a path doc text o d' →
        Ends d s a path .compile
          ((o.after (s.notes notes)).after (s.notes (Document.read source).notes)) d' := by
  cases hbase : imageBase s a path with
  | error e => exact absurd ((imageBase_eq_error_iff htext.hasNull_eq).mp hbase).1 hbased
  | ok base =>
      obtain ⟨text, hdraw⟩ := exists_draw hread d s base
      exact ⟨base, text, _, rfl, hdraw, fun o d' => .drawn htext hread hbase hdraw⟩

theorem Crashes.exists_ends (h : Crashes d s a path job e) :
    ∃ o d', Ends d s a path job o d' ∧ o.exit = .error e := by
  cases h with
  | path hnull => exact ⟨_, _, .unread (Disk.read_eq_nullByte_iff.mpr hnull), rfl⟩
  | undecodable hread hdecode => exact ⟨_, _, .undecodable hread hdecode, rfl⟩
  | numeral hjob htext hread => exact ⟨_, _, .refused hjob htext hread, rfl⟩
  | invalid hjob htext hread => exact ⟨_, _, .refused hjob htext hread, rfl⟩
  | indent htext hreports hindent =>
      cases hreports with
      | lexical htokens =>
          refine ⟨_, _, .untokened htext htokens, ?_⟩
          rw [reported_of_fault hindent]
          rfl
      | failure hjob hread hreport =>
          refine ⟨_, _, .refused hjob htext hread, ?_⟩
          rw [failed_of_report hreport, reported_of_fault hindent]
          rfl
  | directory htext hread hbaseless =>
      have hbase := (imageBase_eq_error_iff htext.hasNull_eq).mpr ⟨hbaseless, rfl⟩
      exact ⟨_, _, .baseless htext hread hbase, rfl⟩
  | suffix htext hread hbased hnone hsuffix =>
      obtain ⟨base, text, notes, -, -, hends⟩ := exists_ends_drawn htext hread hbased
      have hout : a.output ≠ some (some "-") := by
        intro hout
        rw [hout] at hnone
        cases hnone
      exact ⟨_, _, hends _ _ (.unnamed hout (target_eq_error_iff.mpr ⟨hnone, hsuffix, rfl⟩)), rfl⟩
  | output htext hread hbased hout htarget hnull =>
      obtain ⟨base, text, notes, -, -, hends⟩ := exists_ends_drawn htext hread hbased
      exact ⟨_, _, hends _ _ (.unwritten hout htarget (Disk.write_eq_nullByte_iff.mpr hnull)), rfl⟩

theorem Ends.exit_eq_error_iff (h : Ends d s a path job o d') :
    o.exit = .error e ↔ Crashes d s a path job e := by
  refine ⟨h.crashes, fun hcrashes => ?_⟩
  obtain ⟨o', d'', hends, he⟩ := hcrashes.exists_ends
  obtain ⟨rfl, rfl⟩ := Prod.mk.injEq .. ▸ hends.run.symm.trans h.run
  exact he

theorem Crashes.exit_run {env : Config.Environment} {place args : List String} {room : Int} {file : String}
    (h : Crashes d (.start env place room) a (Path.read file) job e)
    (hargs : Arguments.read job.form args = .ok (a, file)) :
    (d.run (run env place room (job.name :: args))).1.exit = .error e := by
  obtain ⟨o, d', hends, he⟩ := h.exists_ends
  rw [run_job job place room hargs, hends.run]
  exact he

/-- What a command makes of a text that it does not refuse. -/
inductive Yields (d : Disk) (s : Setting) (a : Arguments) (path : Path) : Job → String → String → Prop
  | listing {source : String} {ts : Tokens} (htokens : Tokens.read source = .ok ts) :
      Yields d s a path .tokens source (String.join (ts.all.map listed))
  | approval {source : String} {doc : Document} (hread : (Document.read source).value = .ok doc) :
      Yields d s a path .check source (approval path doc)
  | drawing {source text : String} {doc : Document} {base : Option Path}
      (hread : (Document.read source).value = .ok doc) (hbase : imageBase s a path = .ok base)
      (hdraw : (doc.draw (Image.loader? d.still s.place base none)).value = .ok text) :
      Yields d s a path .compile source text

/-- Why a command ends with status one, and what it says at the end. -/
inductive Complains (d : Disk) (s : Setting) (a : Arguments) (path : Path) : Job → List Entry → Prop
  | unread {job : Job} {cause : Disk.Cause} {p : Path} (hread : d.read path = .error (.system cause p)) :
      Complains d s a path job
        (s.say .error ("Cannot read " ++ path.text ++ ": " ++ (Disk.Fault.system cause p).message))
  | refused {job : Job} {source : String} {r : Report} (htext : d.HasText path source)
      (hreports : Reports job source r) : Complains d s a path job [s.told source r]
  | unwritten {source text : String} {out : Path} {cause : Disk.Cause} {p : Path}
      (htext : d.HasText path source) (hyields : Yields d s a path .compile source text)
      (htarget : target s a path = .ok out)
      (hwrite : d.write out (Text.encodeUtf8 text) = (.error (.system cause p), d)) :
      Complains d s a path .compile
        (s.say .error ("Cannot write " ++ out.text ++ ": " ++ (Disk.Fault.system cause p).message))

/-- The command leaves what it makes of the text: it prints it, or writes it where the drawing goes. -/
def Answers (d d' : Disk) (s : Setting) (a : Arguments) (path : Path) (job : Job) (o : Outcome) : Prop :=
  o.exit = .ok 0 ∧ ∃ source text, d.HasText path source ∧ Yields d s a path job source text ∧
    (o.out = text ∨
      job = .compile ∧ ∃ out, target s a path = .ok out ∧ d'.read out = .ok (Text.encodeUtf8 text))

/-- The command ends with status one, and says why. -/
def Refuses (d : Disk) (s : Setting) (a : Arguments) (path : Path) (job : Job) (o : Outcome) : Prop :=
  o.exit = .ok 1 ∧ ∃ earlier last, o.err = earlier ++ last ∧ Complains d s a path job last

theorem Refuses.after (h : Refuses d s a path job o) (earlier : List Entry) :
    Refuses d s a path job (o.after earlier) := by
  obtain ⟨hexit, before, last, herr, hcomplains⟩ := h
  refine ⟨hexit, earlier ++ before, last, ?_, hcomplains⟩
  rw [List.append_assoc, ← herr]
  rfl

theorem refuses_reported {r : Report} (htext : d.HasText path source) (hreports : Reports job source r) :
    (∃ e, (reported s source r).exit = .error e) ∨ Refuses d s a path job (reported s source r) := by
  cases hindent : CapacityFault.of? s.room (s.env.get .excerptIndent) with
  | some fault => exact Or.inl ⟨.indent fault, by rw [reported_of_fault hindent]; rfl⟩
  | none =>
      rw [reported_of_room hindent]
      exact Or.inr ⟨rfl, [], _, rfl, .refused htext hreports⟩

theorem Delivers.answers_or_refuses (h : Delivers d s a path doc text o d') (htext : d.HasText path source)
    (hyields : Yields d s a path .compile source text) :
    (∃ e, o.exit = .error e) ∨ Answers d d' s a path .compile o ∨ Refuses d s a path .compile o := by
  cases h with
  | printed => exact Or.inr (Or.inl ⟨rfl, source, text, htext, hyields, Or.inl rfl⟩)
  | unnamed => exact Or.inl ⟨_, rfl⟩
  | @unwritten out fault hout htarget hwrite =>
      cases fault with
      | nullByte n => exact Or.inl ⟨_, rfl⟩
      | system cause p =>
          exact Or.inr (Or.inr ⟨rfl, [], _, rfl, .unwritten htext hyields htarget hwrite⟩)
  | written hout htarget hwrite =>
      refine Or.inr (Or.inl ⟨rfl, source, text, htext, hyields, Or.inr ⟨rfl, _, htarget, ?_⟩⟩)
      rcases Disk.write_cases hwrite with ⟨⟨fault, hfault⟩, -⟩ | ⟨-, hrefused, dir, name, hnames, hfree, rfl⟩
      · cases hfault
      · exact Disk.read_after hfree hnames hrefused

/-- A command has no status, or it leaves a result, or it says why not. -/
theorem Ends.answers_or_refuses (h : Ends d s a path job o d') :
    (∃ e, o.exit = .error e) ∨ Answers d d' s a path job o ∨ Refuses d s a path job o := by
  cases h with
  | @unread _ fault hread =>
      cases fault with
      | nullByte n => exact Or.inl ⟨_, rfl⟩
      | system cause p => exact Or.inr (Or.inr ⟨rfl, [], _, rfl, .unread hread⟩)
  | undecodable => exact Or.inl ⟨_, rfl⟩
  | untokened htext htokens => exact (refuses_reported htext (.lexical htokens)).imp_right Or.inr
  | listed htext htokens =>
      exact Or.inr (Or.inl ⟨rfl, _, _, htext, .listing htokens, Or.inl rfl⟩)
  | @refused _ source failure hjob htext hread =>
      rcases failed_cases s source failure with ⟨r, hreport, hfailed⟩ | ⟨tooLong, rfl, -⟩ | ⟨errors, rfl, -⟩
      · rw [hfailed]
        exact (refuses_reported htext (.failure hjob hread hreport)).imp_right fun h => Or.inr (h.after _)
      · exact Or.inl ⟨_, rfl⟩
      · exact Or.inl ⟨_, rfl⟩
  | approved htext hread => exact Or.inr (Or.inl ⟨rfl, _, _, htext, .approval hread, Or.inl rfl⟩)
  | baseless => exact Or.inl ⟨_, rfl⟩
  | drawn htext hread hbase hdraw hdelivers =>
      rcases hdelivers.answers_or_refuses htext (.drawing hread hbase hdraw) with hcrash | hanswers | hrefuses
      · exact Or.inl hcrash
      · exact Or.inr (Or.inl hanswers)
      · exact Or.inr (Or.inr ((hrefuses.after _).after _))

theorem Crashes.not_numeral (h : Crashes d s a path job e) (htext : d.HasText path source)
    (hruns : Numeral.RunsFit source.toList) :
    (∀ tooLong, e ≠ .numeral tooLong) ∧ ∀ errors, e ≠ .invalid errors := by
  cases h with
  | numeral hjob htext' hread =>
      cases htext.unique htext'
      exact ((Document.reported_read hruns).of_eq_error hread).elim
  | invalid hjob htext' hread =>
      cases htext.unique htext'
      exact ((Document.reported_read hruns).of_eq_error hread).elim
  | path | undecodable | indent | directory | suffix | output =>
      exact ⟨fun _ => Fatal.noConfusion, fun _ => Fatal.noConfusion⟩

/-- A command that reads a file ends without a status exactly for the reasons of `Crashes`, of which a
number or a value of a text is none where no row of digits is overlong. Else its status is zero, and it
leaves what it makes of the text, or the status is one, and it says why. -/
theorem run_exits {args : List String} {file : String} (hargs : Arguments.read job.form args = .ok (a, file))
    (d : Disk) (env : Config.Environment) (place : List String) (room : Int) :
    ∃ o d', d.run (run env place room (job.name :: args)) = (o, d') ∧
      (∀ e, o.exit = .error e ↔ Crashes d (.start env place room) a (Path.read file) job e) ∧
      (∀ source, d.HasText (Path.read file) source → Numeral.RunsFit source.toList → ∀ e, o.exit = .error e →
        (∀ tooLong, e ≠ .numeral tooLong) ∧ ∀ errors, e ≠ .invalid errors) ∧
      ((∃ e, o.exit = .error e) ∨ Answers d d' (.start env place room) a (Path.read file) job o ∨
        Refuses d (.start env place room) a (Path.read file) job o) := by
  obtain ⟨o, d', hends⟩ := exists_ends d (.start env place room) a (Path.read file) job
  refine ⟨o, d', ?_, fun e => hends.exit_eq_error_iff, fun source htext hruns e he => ?_,
    hends.answers_or_refuses⟩
  · rw [run_job job place room hargs, hends.run]
  · exact (hends.exit_eq_error_iff.mp he).not_numeral htext hruns

/-- A directory with a document, and with a file that is no text. -/
def shelf : Disk :=
  ⟨.dir [("page.gw", .file (Text.encodeUtf8 "A1: \x7b type: box \x7d")), ("page.svg", .file [0xFF])], []⟩

theorem hasText_shelf : shelf.HasText (Path.read "page.gw") "A1: \x7b type: box \x7d" := by
  have hdecode : Text.decodeUtf8 (Text.encodeUtf8 "A1: \x7b type: box \x7d") =
      .ok "A1: \x7b type: box \x7d".toList := by decide +kernel
  exact ⟨_, _, rfl, hdecode, by decide +kernel⟩

/-- The document is approved, and so its check has no reason to crash. -/
theorem run_exits_of_box : ∃ o d', shelf.run (run [] [] 80 ["check", "page.gw"]) = (o, d') ∧ o.exit = .ok 0 ∧
    o.out = "page.gw: OK (1 components, 4x3 grid, 16:9)\n" ∧
    ∀ e, ¬Crashes shelf (.start [] [] 80) { file := some "page.gw" } (Path.read "page.gw") .check e := by
  have hargs : Arguments.read (Job.form .check) ["page.gw"] =
      .ok ({ file := some "page.gw" }, "page.gw") := by decide +kernel
  obtain ⟨o, d', hrun, hcrashes, -, -⟩ := run_exits hargs shelf [] [] 80
  have hparts : (shelf.run (run [] [] 80 ["check", "page.gw"])).1.exit.toOption = some 0 ∧
      (shelf.run (run [] [] 80 ["check", "page.gw"])).1.out = "page.gw: OK (1 components, 4x3 grid, 16:9)\n" := by
    decide +kernel
  rw [show ["check", "page.gw"] = Job.check.name :: ["page.gw"] from rfl, hrun] at hparts
  have hexit := Results.toOption_eq_some.mp hparts.1
  refine ⟨o, d', hrun, hexit, hparts.2, fun e he => ?_⟩
  rw [(hcrashes e).mpr he] at hexit
  cases hexit

/-- A byte that starts no character ends a command without a status. -/
theorem run_undecodable : shelf.read (Path.read "page.svg") = .ok [0xFF] ∧
    (shelf.run (run [] [] 80 ["check", "page.svg"])).1.exit = .error (.undecodable ⟨.badStart, 0xFF, 0, 1⟩) := by
  have hargs : Arguments.read (Job.form .check) ["page.svg"] =
      .ok ({ file := some "page.svg" }, "page.svg") := by decide +kernel
  have hread : shelf.read (Path.read "page.svg") = .ok [0xFF] := rfl
  have hdecode : Text.decodeUtf8 [0xFF] = .error ⟨.badStart, 0xFF, 0, 1⟩ := by decide +kernel
  exact ⟨hread, (Crashes.undecodable hread hdecode).exit_run hargs⟩

end Command
end Wireframe
