import Wireframe.Command.Basic
import Wireframe.Compile
import Wireframe.Proofs.DiskWrites
import Wireframe.Proofs.DrawingImages

/-! How commands end. A command that reads a file ends in one of a few ways (`Command.Ends`), which the
file, the variables and the arguments tell, and which tell what it leaves behind: its outcome and the disk
(`Command.ends_of_run`). The images of a document are looked up before it is drawn, and the drawing is that
with the files of the disk as they are (`Command.run_withLoader`). -/

namespace Wireframe

namespace Disk

/-- The answers of a disk that nobody writes to. -/
def still (d : Disk) : Action.Handler Id where
  read p := d.read p
  write p bytes := (d.write p bytes).1

/-- The file at a path holds a text; all line ends in it count as line feeds. -/
def HasText (d : Disk) (p : Path) (source : String) : Prop :=
  ∃ bytes cs, d.read p = .ok bytes ∧ Text.decodeUtf8 bytes = .ok cs ∧
    source = String.ofList (Text.unifyNewlines cs)

variable {α β : Type} {d : Disk}

theorem run_read (d : Disk) (p : Path) (next : Except Fault (List UInt8) → Action α) :
    d.run (.read p next) = d.run (next (d.read p)) := rfl

theorem run_write (d : Disk) (p : Path) (bytes : List UInt8) (next : Except Fault Unit → Action α) :
    d.run (.write p bytes next) = (d.write p bytes).2.run (next (d.write p bytes).1) := rfl

theorem run_andThen (a : Action α) (f : α → Action β) (d : Disk) :
    d.run (a.andThen f) = (d.run a).2.run (f (d.run a).1) := by
  induction a generalizing d with
  | done a => rfl
  | read p next ih => exact ih (d.read p) d
  | write p bytes next ih => exact ih (d.write p bytes).1 (d.write p bytes).2

end Disk

/-- An action that only reads has the value that the disk answers for, and leaves the disk as it is. -/
theorem Action.ReadsOnly.run_eq {α : Type} {P : Path → Prop} {a : Action α} (h : a.ReadsOnly P) (d : Disk) :
    d.run a = (a.perform d.still, d) := by
  induction a with
  | done a => rfl
  | read p next ih => exact ih (d.read p) (h.2 _)
  | write p bytes next => exact h.elim

namespace Command

open Disk (HasText)

/-- The commands that read a file. -/
inductive Job
  | compile
  | check
  | tokens
  deriving DecidableEq, Repr

namespace Job

def name : Job → String
  | compile => "compile"
  | check => "check"
  | tokens => "tokens"

def form : Job → Form
  | compile => .compile
  | check => .check
  | tokens => .tokens

def action (s : Setting) (a : Arguments) (path : Path) : Job → Action Outcome
  | compile => Command.compile s a path
  | check => Command.check s path
  | tokens => Command.tokens s path

end Job

/-- What a command finds when it is started from the command line. -/
def Setting.start (env : Config.Environment) (place : List String) (room : Int) : Setting :=
  ⟨env, place, room, Log.fresh.configure (Level.ofName (env.get .logLevel))⟩

variable {d d' : Disk} {s : Setting} {a : Arguments} {path : Path} {job : Job} {o : Outcome}
  {source : String} {doc : Document} {base : Option Path}

theorem run_job {env : Config.Environment} {args : List String} {file : String} (job : Job)
    (place : List String) (room : Int) (h : Arguments.read job.form args = .ok (a, file)) :
    run env place room (job.name :: args) = job.action (.start env place room) a (Path.read file) := by
  cases job with
  | compile =>
      show withArguments .compile args (compile (.start env place room)) = _
      rw [withArguments, show Arguments.read .compile args = _ from h]
      rfl
  | check =>
      show withArguments .check args (fun _ => check (.start env place room)) = _
      rw [withArguments, show Arguments.read .check args = _ from h]
      rfl
  | tokens =>
      show withArguments .tokens args (fun _ => tokens (.start env place room)) = _
      rw [withArguments, show Arguments.read .tokens args = _ from h]
      rfl

theorem run_withSource (h : d.HasText path source) (next : String → Action Outcome) :
    d.run (withSource s path next) = d.run (next source) := by
  obtain ⟨bytes, cs, hread, hdecode, rfl⟩ := h
  rw [withSource, Disk.run_read, hread]
  simp only [hdecode]

theorem run_withDocument_of_ok {next : Document → Action Outcome} (h : (Document.read source).value = .ok doc)
    (hnext : d.run (next doc) = (o, d')) : d.run (withDocument s source next) =
      (o.after (s.notes (Document.read source).notes), d') := by
  rw [withDocument, Disk.run_andThen]
  simp only [h, hnext]
  rfl

theorem run_withDocument_of_error {e : Failure} (h : (Document.read source).value = .error e)
    (next : Document → Action Outcome) : d.run (withDocument s source next) =
      ((failed s source e).after (s.notes (Document.read source).notes), d) := by
  rw [withDocument, Disk.run_andThen]
  simp only [h]
  rfl

theorem mem_imageSources {src : String} :
    src ∈ imageSources doc ↔ ∃ c ∈ doc.components, c.source? = some src := by
  show src ∈ (doc.components.filterMap Component.source?).eraseDups ↔ _
  rw [List.mem_eraseDups, List.mem_filterMap]

/-- Each image is found as the files of the disk have it. -/
theorem run_fetchAll (d : Disk) (s : Setting) (base : Path) (srcs : List String) :
    d.run (fetchAll s base srcs) =
      (srcs.map fun src => (src, Image.fileLoader d.still s.place base src), d) := by
  induction srcs with
  | nil => rfl
  | cons src srcs ih =>
      have hreads : (Image.fetch s.place (some base) src).ReadsOnly fun _ => True :=
        Image.readsOnly_fetch fun _ _ => trivial
      rw [fetchAll, Disk.run_andThen, hreads.run_eq d, Disk.run_andThen, ih]
      rfl

/-- A document is drawn with the images that the files of the disk have. -/
theorem run_withLoader (d : Disk) :
    d.run (withLoader s base doc (drawn s a path doc)) =
      d.run (drawn s a path doc (Image.loader? d.still s.place base none)) := by
  cases base with
  | none => rfl
  | some base =>
      rw [withLoader, Disk.run_andThen, run_fetchAll]
      have hdraw : doc.draw (some (Images.loader ((imageSources doc).map fun src =>
          (src, Image.fileLoader d.still s.place base src)))) =
            doc.draw (Image.loader? d.still s.place (some base) none) := by
        refine Document.draw_congr fun c hc name hname => congrArg some ?_
        have hfound : name ∈ imageSources doc := mem_imageSources.mpr ⟨c, hc, hname⟩
        simp only [Images.loader, List.lookup_graph _ hfound, Option.getD_some]
      simp only [drawn, hdraw]

/-- How a drawing is delivered: it is printed, or written to a file, if that has a name and can be
written. -/
inductive Delivers (d : Disk) (s : Setting) (a : Arguments) (path : Path) (doc : Document) (text : String) :
    Outcome → Disk → Prop
  | printed (hout : a.output = some (some "-")) : Delivers d s a path doc text (.printed text) d
  | unnamed {e : Path.BadSuffix} (hout : a.output ≠ some (some "-")) (htarget : target s a path = .error e) :
      Delivers d s a path doc text (.fatal (.suffix e)) d
  | unwritten {out : Path} {fault : Disk.Fault} (hout : a.output ≠ some (some "-"))
      (htarget : target s a path = .ok out) (hwrite : d.write out (Text.encodeUtf8 text) = (.error fault, d)) :
      Delivers d s a path doc text (faulted s ("Cannot write " ++ out.text) fault) d
  | written {out : Path} {d' : Disk} (hout : a.output ≠ some (some "-")) (htarget : target s a path = .ok out)
      (hwrite : d.write out (Text.encodeUtf8 text) = (.ok (), d')) :
      Delivers d s a path doc text
        (.reported 0 (s.say .info s!"Wrote {out.text} ({doc.components.length} components)")) d'

variable {text : String}

theorem Delivers.run (h : Delivers d s a path doc text o d') :
    d.run (deliver s a path doc text) = (o, d') := by
  rw [deliver]
  cases h with
  | printed hout =>
      rw [if_pos hout]
      rfl
  | unnamed hout htarget =>
      rw [if_neg hout, htarget]
      rfl
  | unwritten hout htarget hwrite =>
      rw [if_neg hout, htarget]
      simp only [Disk.run_write, hwrite]
      rfl
  | written hout htarget hwrite =>
      rw [if_neg hout, htarget]
      simp only [Disk.run_write, hwrite]
      rfl

theorem exists_delivers (d : Disk) (s : Setting) (a : Arguments) (path : Path) (doc : Document)
    (text : String) : ∃ o d', Delivers d s a path doc text o d' := by
  by_cases hout : a.output = some (some "-")
  · exact ⟨_, _, .printed hout⟩
  cases htarget : target s a path with
  | error e => exact ⟨_, _, .unnamed hout htarget⟩
  | ok out =>
      obtain ⟨answer, d', hwrite⟩ : ∃ answer d', d.write out (Text.encodeUtf8 text) = (answer, d') :=
        ⟨_, _, rfl⟩
      rcases Disk.write_cases hwrite with ⟨⟨fault, rfl⟩, rfl⟩ | ⟨rfl, -⟩
      · exact ⟨_, _, .unwritten hout htarget hwrite⟩
      · exact ⟨_, _, .written hout htarget hwrite⟩

/-- How a command ends that reads a file. -/
inductive Ends (d : Disk) (s : Setting) (a : Arguments) (path : Path) : Job → Outcome → Disk → Prop
  | unread {job : Job} {fault : Disk.Fault} (hread : d.read path = .error fault) :
      Ends d s a path job (faulted s ("Cannot read " ++ path.text) fault) d
  | undecodable {job : Job} {bytes : List UInt8} {e : Text.Utf8Error} (hread : d.read path = .ok bytes)
      (hdecode : Text.decodeUtf8 bytes = .error e) : Ends d s a path job (.fatal (.undecodable e)) d
  | untokened {source : String} {fault : LexicalFault × Location} (htext : d.HasText path source)
      (htokens : Tokens.read source = .error fault) :
      Ends d s a path .tokens (reported s source (Tokens.report fault)) d
  | listed {source : String} {ts : Tokens} (htext : d.HasText path source)
      (htokens : Tokens.read source = .ok ts) :
      Ends d s a path .tokens (.printed (String.join (ts.all.map listed))) d
  | refused {job : Job} {source : String} {e : Failure} (hjob : job ≠ .tokens) (htext : d.HasText path source)
      (hread : (Document.read source).value = .error e) :
      Ends d s a path job ((failed s source e).after (s.notes (Document.read source).notes)) d
  | approved {source : String} {doc : Document} (htext : d.HasText path source)
      (hread : (Document.read source).value = .ok doc) :
      Ends d s a path .check
        ((Outcome.printed (approval path doc)).after (s.notes (Document.read source).notes)) d
  | baseless {source : String} {doc : Document} {e : Fatal} (htext : d.HasText path source)
      (hread : (Document.read source).value = .ok doc) (hbase : imageBase s a path = .error e) :
      Ends d s a path .compile ((Outcome.fatal e).after (s.notes (Document.read source).notes)) d
  | drawn {source text : String} {doc : Document} {base : Option Path} {o : Outcome} {d' : Disk}
      (htext : d.HasText path source) (hread : (Document.read source).value = .ok doc)
      (hbase : imageBase s a path = .ok base)
      (hdraw : (doc.draw (Image.loader? d.still s.place base none)).value = .ok text)
      (hdelivers : Delivers d s a path doc text o d') :
      Ends d s a path .compile
        ((o.after (s.notes (doc.draw (Image.loader? d.still s.place base none)).notes)).after
          (s.notes (Document.read source).notes)) d'

theorem Ends.run (h : Ends d s a path job o d') : d.run (job.action s a path) = (o, d') := by
  cases h with
  | unread hread =>
      cases job <;> exact (Disk.run_read d path _).trans (by rw [hread]; rfl)
  | undecodable hread hdecode =>
      cases job <;> exact (Disk.run_read d path _).trans (by rw [hread]; simp only [hdecode]; rfl)
  | untokened htext htokens =>
      rw [Job.action, tokens, run_withSource htext, htokens]
      rfl
  | listed htext htokens =>
      rw [Job.action, tokens, run_withSource htext, htokens]
      rfl
  | refused hjob htext hread =>
      cases job with
      | compile =>
          rw [Job.action, compile, run_withSource htext]
          exact run_withDocument_of_error hread _
      | check =>
          rw [Job.action, check, run_withSource htext]
          exact run_withDocument_of_error hread _
      | tokens => exact absurd rfl hjob
  | approved htext hread =>
      rw [Job.action, check, run_withSource htext]
      exact run_withDocument_of_ok hread rfl
  | baseless htext hread hbase =>
      rw [Job.action, compile, run_withSource htext]
      refine run_withDocument_of_ok hread ?_
      simp only [hbase]
      rfl
  | drawn htext hread hbase hdraw hdelivers =>
      rw [Job.action, compile, run_withSource htext]
      refine run_withDocument_of_ok hread ?_
      simp only [hbase, run_withLoader, Command.drawn, hdraw, Disk.run_andThen, hdelivers.run]
      rfl

/-- A document that has been read is drawn with the images that the files of the disk have. -/
theorem exists_draw (h : (Document.read source).value = .ok doc) (d : Disk) (s : Setting)
    (base : Option Path) : ∃ text, (doc.draw (Image.loader? d.still s.place base none)).value = .ok text := by
  obtain ⟨p, hof, -⟩ := Document.exists_parts h
  exact ⟨_, hof.value_draw_of_told (Document.untold?_files d.still s.place base doc)⟩

theorem exists_ends (d : Disk) (s : Setting) (a : Arguments) (path : Path) (job : Job) :
    ∃ o d', Ends d s a path job o d' := by
  cases hread : d.read path with
  | error fault => exact ⟨_, _, .unread hread⟩
  | ok bytes =>
      cases hdecode : Text.decodeUtf8 bytes with
      | error e => exact ⟨_, _, .undecodable hread hdecode⟩
      | ok cs =>
          have htext : d.HasText path (String.ofList (Text.unifyNewlines cs)) :=
            ⟨bytes, cs, hread, hdecode, rfl⟩
          by_cases hjob : job = .tokens
          · subst hjob
            cases htokens : Tokens.read (String.ofList (Text.unifyNewlines cs)) with
            | error fault => exact ⟨_, _, .untokened htext htokens⟩
            | ok ts => exact ⟨_, _, .listed htext htokens⟩
          cases hdocument : (Document.read (String.ofList (Text.unifyNewlines cs))).value with
          | error e => exact ⟨_, _, .refused hjob htext hdocument⟩
          | ok doc =>
              cases job with
              | tokens => exact absurd rfl hjob
              | check => exact ⟨_, _, .approved htext hdocument⟩
              | compile =>
                  cases hbase : imageBase s a path with
                  | error e => exact ⟨_, _, .baseless htext hdocument hbase⟩
                  | ok base =>
                      obtain ⟨text, hdraw⟩ := exists_draw hdocument d s base
                      obtain ⟨o, d', hdelivers⟩ := exists_delivers d s a path doc text
                      exact ⟨_, _, .drawn htext hdocument hbase hdraw hdelivers⟩

/-- What a run leaves behind is one of the ways to end. -/
theorem ends_of_run (h : d.run (job.action s a path) = (o, d')) : Ends d s a path job o d' := by
  obtain ⟨o', d'', hends⟩ := exists_ends d s a path job
  obtain ⟨rfl, rfl⟩ := Prod.mk.injEq .. ▸ h.symm.trans hends.run
  exact hends

end Command
end Wireframe
