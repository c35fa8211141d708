import Wireframe.Proofs.CommandExits

/-! Where drawings go. Without a name for its output, `compile` writes to the place beside its source that
has the suffix of drawings, and changes nothing else. That place is the source itself where the source has
this suffix already: then it is lost (`Command.run_spares`). The disk has no links, and a file is written as a
whole or not at all. -/

namespace Wireframe

namespace Path

/-- The last name without its suffix. -/
def stem (p : Path) : String :=
  String.ofList (p.name.toList.take (p.name.toList.length - (suffixOf p.name.toList).length))

variable {p q : Path} {suffix : String}

theorem suffixOf_suffix (name : List Char) : suffixOf name <:+ name := by
  simp only [suffixOf]
  split
  · next h =>
    -- what stands before the tail ends with the dot that the tail was cut at
    have hsplit := List.takeWhile_append_dropWhile (p := (· ≠ '.')) (l := name.reverse)
    cases hrest : name.reverse.dropWhile (· ≠ '.') with
    | nil =>
        rw [hrest, List.append_nil] at hsplit
        rw [hsplit, List.reverse_reverse] at h
        omega
    | cons c rest =>
        have hdot : c = '.' := by
          have hhead := List.head?_dropWhile_not (· ≠ '.') name.reverse
          rw [hrest] at hhead
          simpa using hhead
        refine ⟨rest.reverse, ?_⟩
        rw [hrest, hdot] at hsplit
        have hname := congrArg List.reverse hsplit
        simpa using hname
  · exact List.nil_suffix

theorem stem_append_suffix (p : Path) : p.stem ++ p.suffix = p.name := by
  have h := List.suffix_iff_eq_append.mp (suffixOf_suffix p.name.toList)
  rw [stem, suffix, ← String.ofList_append, h, String.ofList_toList]

theorem withSuffix_eq_ok_iff : p.withSuffix suffix = .ok q ↔
    isSuffix suffix.toList = true ∧ q = ⟨p.root, p.names.dropLast ++ [p.stem ++ suffix]⟩ := by
  rw [withSuffix]
  split
  · next h => simp [h, stem, eq_comm]
  · next h => simp [h]

/-- The name with another suffix is the name itself where the suffix is no other one. -/
theorem stem_append_eq_name_iff : p.stem ++ suffix = p.name ↔ suffix = p.suffix := by
  rw [← p.stem_append_suffix]
  exact String.append_right_inj _

end Path

namespace Disk

variable {d d' : Disk} {p q : Path} {suffix : String} {old new : List UInt8}

/-- What is written under another suffix to the last name stands in the directory of this name. -/
theorem exists_names_beside (hread : d.read p = .ok old) (hsuffix : p.withSuffix suffix = .ok q)
    (hwrite : d.write q new = (.ok (), d')) :
    ∃ dir, d.Names p dir p.name ∧ d.tree.item? (dir ++ [p.name]) = some (.file old) ∧
      d.Names q dir (p.stem ++ suffix) ∧ d.tree.item? (dir ++ [p.stem ++ suffix]) ≠ some .dir ∧
      d' = d.after dir (p.stem ++ suffix) new := by
  obtain ⟨-, rfl⟩ := Path.withSuffix_eq_ok_iff.mp hsuffix
  rcases write_cases hwrite with ⟨⟨fault, hfault⟩, -⟩ | ⟨-, -, dir, name, hnames, hfree, rfl⟩
  · cases hfault
  obtain rfl : name = p.stem ++ suffix := by
    have hlast := hnames.names
    simp only [List.dropLast_concat, List.append_cancel_left_eq, List.cons.injEq, and_true] at hlast
    exact hlast.symm
  have hdir := hnames.walk
  simp only [List.dropLast_concat] at hdir
  have hne : p.names ≠ [] := by
    intro hnil
    -- the path would lead to the directory that is written to, and that is no file
    obtain ⟨goal, hgoal, hfile⟩ := contents_eq_ok_iff.mp (read_eq_ok_iff.mp hread).2
    rw [hnil] at hgoal hdir
    cases hgoal.symm.trans hdir
    rw [hnames.isDir] at hfile
    cases hfile
  obtain ⟨dir', name', hsource, hfile⟩ := exists_names_of_read hread hne
  cases hsource.walk.symm.trans hdir
  obtain rfl : p.name = name' := by
    rw [Path.name, hsource.names, List.getLast?_concat]
    rfl
  exact ⟨dir, hsource, hfile, hnames, hfree, rfl⟩

/-- What is written takes the place of the file that has the suffix already, and leaves any other one. -/
theorem read_beside (hread : d.read p = .ok old) (hsuffix : p.withSuffix suffix = .ok q)
    (hwrite : d.write q new = (.ok (), d')) :
    d'.read p = if p.suffix = suffix then .ok new else d.read p := by
  obtain ⟨dir, hsource, hfile, hnames, hfree, rfl⟩ := exists_names_beside hread hsuffix hwrite
  by_cases hsame : p.suffix = suffix
  · rw [if_pos hsame]
    rw [Path.stem_append_eq_name_iff.mpr hsame.symm] at hfree ⊢
    exact read_after hfree hsource (read_eq_ok_iff.mp hread).1
  · rw [if_neg hsame, hread]
    refine read_after_of_ne hfree hnames hsource ?_ hread hfile
    intro heq
    simp only [List.append_cancel_left_eq, List.cons.injEq, and_true] at heq
    exact hsame (Path.stem_append_eq_name_iff.mp heq.symm).symm

end Disk

namespace Command

variable {d d' : Disk} {s : Setting} {a : Arguments} {path : Path} {o : Outcome}

theorem exit_fatal_ne_zero (e : Fatal) : (Outcome.fatal e).exit ≠ .ok 0 := by
  simp [Outcome.fatal]

theorem exit_faulted_ne_zero (what : String) (fault : Disk.Fault) : (faulted s what fault).exit ≠ .ok 0 := by
  cases fault with
  | system cause p => simp [faulted, Outcome.reported]
  | nullByte e => exact exit_fatal_ne_zero _

theorem exit_failed_ne_zero (source : String) (failure : Failure) :
    (failed s source failure).exit ≠ .ok 0 := by
  rcases failed_cases s source failure with ⟨r, -, hfailed⟩ | ⟨tooLong, -, hfailed⟩ | ⟨errors, -, hfailed⟩
  · rw [hfailed, reported]
    split
    · exact exit_fatal_ne_zero _
    · simp [Outcome.reported]
  · exact hfailed ▸ exit_fatal_ne_zero _
  · exact hfailed ▸ exit_fatal_ne_zero _

/-- A compilation without a name for its output fails and changes nothing, or it writes the drawing. -/
theorem Ends.exit_or_written (h : Ends d s a path .compile o d') (hout : a.output = none) :
    o.exit ≠ .ok 0 ∧ d' = d ∨ o.exit = .ok 0 ∧ ∃ source text out, d.HasText path source ∧
      Yields d s a path .compile source text ∧ path.withSuffix (s.env.get .outputSuffix) = .ok out ∧
      d.write out (Text.encodeUtf8 text) = (.ok (), d') := by
  cases h with
  | unread => exact Or.inl ⟨exit_faulted_ne_zero _ _, rfl⟩
  | undecodable => exact Or.inl ⟨exit_fatal_ne_zero _, rfl⟩
  | refused => exact Or.inl ⟨exit_failed_ne_zero _ _, rfl⟩
  | baseless => exact Or.inl ⟨exit_fatal_ne_zero _, rfl⟩
  | drawn htext hread hbase hdraw hdelivers =>
      have htarget : target s a path = path.withSuffix (s.env.get .outputSuffix) := by
        rw [target, hout]
        rfl
      cases hdelivers with
      | printed hprinted =>
          rw [hout] at hprinted
          cases hprinted
      | unnamed => exact Or.inl ⟨exit_fatal_ne_zero _, rfl⟩
      | unwritten => exact Or.inl ⟨exit_faulted_ne_zero _ _, rfl⟩
      | written _ hnamed hwrite =>
          exact Or.inr ⟨rfl, _, _, _, htext, .drawing hread hbase hdraw, htarget ▸ hnamed, hwrite⟩

/-- The file that a drawing has been written to is the one beside the source, and no other file changes. -/
structure Written (d d' : Disk) (path : Path) (suffix text : String) (dir : List String) : Prop where
  /-- The source stands in the directory. -/
  source : d.Names path dir path.name
  place : d'.place = d.place
  /-- What stands anywhere after it. -/
  item : ∀ other, d'.tree.item? other =
    if other = dir ++ [path.stem ++ suffix] then some (.file (Text.encodeUtf8 text)) else d.tree.item? other

/-- A compilation without a name for its output changes at most the file beside its source that has the
suffix of drawings. The source is left as it is, unless it has this suffix itself: then the drawing takes
its place. -/
theorem run_spares {args : List String} {file : String} (hargs : Arguments.read .compile args = .ok (a, file))
    (hout : a.output = none) (d : Disk) (env : Config.Environment) (place : List String) (room : Int) :
    ∃ o d', d.run (run env place room ("compile" :: args)) = (o, d') ∧
      (o.exit ≠ .ok 0 → d' = d) ∧
      (o.exit = .ok 0 → ∃ source text dir, d.HasText (Path.read file) source ∧
        Yields d (.start env place room) a (Path.read file) .compile source text ∧
        Written d d' (Path.read file) (env.get .outputSuffix) text dir ∧
        d'.read (Path.read file) =
          if (Path.read file).suffix = env.get .outputSuffix then .ok (Text.encodeUtf8 text)
          else d.read (Path.read file)) := by
  obtain ⟨o, d', hends⟩ := exists_ends d (.start env place room) a (Path.read file) .compile
  refine ⟨o, d', (congrArg d.run (run_job .compile place room hargs)).trans hends.run, ?_, ?_⟩
  · rcases hends.exit_or_written hout with ⟨-, hsame⟩ | ⟨hexit, -⟩
    · exact fun _ => hsame
    · exact fun hfails => absurd hexit hfails
  · intro hexit
    rcases hends.exit_or_written hout with ⟨hfails, -⟩ | ⟨-, source, text, out, htext, hyields, hsuffix, hwrite⟩
    · exact absurd hexit hfails
    have ⟨old, _, hread, _⟩ := htext
    have hlost := Disk.read_beside hread hsuffix hwrite
    obtain ⟨dir, hsource, -, hnames, hfree, rfl⟩ := Disk.exists_names_beside hread hsuffix hwrite
    exact ⟨source, text, dir, htext, hyields, ⟨hsource, rfl, Disk.item?_after hfree hnames⟩, hlost⟩

/-- The drawing takes the place of what has its name, and the source beside it stays. -/
theorem run_spares_of_page : ∃ o d', shelf.run (run [] [] 80 ["compile", "page.gw"]) = (o, d') ∧ o.exit = .ok 0 ∧
    d'.read (Path.read "page.gw") = shelf.read (Path.read "page.gw") ∧
    ∀ other, other ≠ ["page.svg"] → d'.tree.item? other = shelf.tree.item? other := by
  have hargs : Arguments.read .compile ["page.gw"] = .ok ({ file := some "page.gw" }, "page.gw") := by
    decide +kernel
  obtain ⟨o, d', hrun, -, hwritten⟩ := run_spares hargs rfl shelf [] [] 80
  have hexit : (shelf.run (run [] [] 80 ["compile", "page.gw"])).1.exit = .ok 0 :=
    Results.toOption_eq_some.mp (by decide +kernel)
  rw [hrun] at hexit
  obtain ⟨source, text, dir, -, -, hbeside, hread⟩ := hwritten hexit
  obtain rfl : dir = [] := by
    cases hbeside.source.walk
    rfl
  refine ⟨o, d', hrun, hexit, hread, fun other hother => ?_⟩
  rw [hbeside.item, if_neg]
  exact hother

/-- A document whose name has the suffix of drawings is lost. -/
theorem run_overwrites : ∃ d : Disk,
    d.read (Path.read "page.svg") = .ok (Text.encodeUtf8 "A1: \x7b type: box \x7d") ∧
    (d.run (run [] [] 80 ["compile", "page.svg"])).1.exit = .ok 0 ∧
    (d.run (run [] [] 80 ["compile", "page.svg"])).2.read (Path.read "page.svg") ≠
      d.read (Path.read "page.svg") := by
  obtain ⟨d, hd⟩ : ∃ d : Disk,
    d = ⟨.dir [("page.svg", .file (Text.encodeUtf8 "A1: \x7b type: box \x7d"))], []⟩ := ⟨_, rfl⟩
  refine ⟨d, ?_, ?_, ?_⟩
  · rw [hd]
    decide +kernel
  · rw [hd]
    exact Results.toOption_eq_some.mp (by decide +kernel)
  · rw [hd]
    decide +kernel

end Command
end Wireframe
