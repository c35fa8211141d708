import Wireframe.Keyed
import Wireframe.Proofs.ImagePaths

/-! Writing a file. At each place of a tree stands a file, a directory or nothing, and a file that is put
into a directory changes what stands at its own place alone (`Disk.Node.item?_put`). So names lead where
they led before, a path that has been written to is read back as what was written, and one that leads
elsewhere is read as before (`Disk.read_after`). -/

namespace Wireframe.Disk

/-- What stands at a place. -/
inductive Item
  | file (bytes : List UInt8)
  | dir
  deriving DecidableEq

namespace Node

def item : Node → Item
  | file bytes => .file bytes
  | dir _ => .dir

/-- What stands where the names lead, if anything. -/
def item? (n : Node) (place : List String) : Option Item := (n.find? place).map item

variable {n new : Node} {name other : String} {names place : List String} {bytes : List UInt8}

@[simp] theorem item?_nil (n : Node) : n.item? [] = some n.item := rfl

theorem item?_cons (n : Node) (name : String) (names : List String) :
    n.item? (name :: names) = (n.child? name).bind (·.item? names) := by
  rw [item?, find?, Option.map_bind]
  rfl

theorem item?_eq_dir_iff : n.item? place = some .dir ↔ ∃ entries, n.find? place = some (.dir entries) := by
  rw [item?, Option.map_eq_some_iff]
  constructor
  · rintro ⟨found, hfound, hitem⟩
    cases found with
    | file bytes => cases hitem
    | dir entries => exact ⟨entries, hfound⟩
  · rintro ⟨entries, hentries⟩
    exact ⟨.dir entries, hentries, rfl⟩

theorem item?_eq_file_iff : n.item? place = some (.file bytes) ↔ n.find? place = some (.file bytes) := by
  rw [item?, Option.map_eq_some_iff]
  constructor
  · rintro ⟨found, hfound, hitem⟩
    cases found with
    | file bytes =>
        cases hitem
        exact hfound
    | dir entries => cases hitem
  · exact fun hfound => ⟨.file bytes, hfound, rfl⟩

theorem insert_eq_keyed (name : String) (n : Node) (entries : List (String × Node)) :
    insert name n entries = Keyed.insert name n entries := by
  induction entries with
  | nil => rfl
  | cons e entries ih =>
      rw [insert, Keyed.insert, ih]
      split
      · next h => rw [h]
      · rfl

theorem lookup_insert (name other : String) (n : Node) (entries : List (String × Node)) :
    (insert name n entries).lookup other = if other = name then some n else entries.lookup other := by
  rw [insert_eq_keyed, Keyed.lookup_insert]

theorem child?_put (n new : Node) (name other : String) (names : List String) :
    (n.put new (name :: names)).child? other =
      if other = name then some (((n.child? name).getD (dir [])).put new names) else n.child? other := by
  cases n with
  | file old => exact lookup_insert name other _ []
  | dir entries => exact lookup_insert name other _ entries

/-- A file that is put into a directory, where no directory stands, changes its own place alone. -/
theorem item?_put (hdir : n.item? place = some .dir) (hfree : n.item? (place ++ [name]) ≠ some .dir)
    (bytes : List UInt8) (other : List String) :
    (n.put (.file bytes) (place ++ [name])).item? other =
      if other = place ++ [name] then some (.file bytes) else n.item? other := by
  induction place generalizing n other with
  | nil =>
      cases other with
      | nil => exact hdir.symm
      | cons first rest =>
          rw [List.nil_append, item?_cons, child?_put, item?_cons]
          by_cases hfirst : first = name
          · subst hfirst
            rw [List.nil_append, item?_cons] at hfree
            cases rest with
            | nil => simp [put, item]
            | cons second rest =>
                -- nothing stands below a file, neither before nor after
                have hbelow : (n.child? first).bind (·.item? (second :: rest)) = none := by
                  cases hchild : n.child? first with
                  | none => rfl
                  | some child =>
                      cases child with
                      | file old => rfl
                      | dir entries =>
                          rw [hchild] at hfree
                          exact absurd rfl hfree
                rw [if_pos rfl, hbelow, if_neg (by simp), put]
                rfl
          · simp [hfirst]
  | cons first place ih =>
      rw [item?_cons] at hdir
      obtain ⟨child, hchild, hitem⟩ := Option.bind_eq_some_iff.mp hdir
      rw [List.cons_append, item?_cons, hchild, Option.bind_some] at hfree
      cases other with
      | nil =>
          cases n with
          | file old => cases hchild
          | dir entries => rfl
      | cons next rest =>
          rw [List.cons_append, item?_cons, child?_put, item?_cons]
          by_cases hnext : next = first
          · subst hnext
            simp [hchild, ih hitem hfree]
          · simp [hnext]

theorem item?_append_singleton {entries : List (String × Node)} (h : n.find? place = some (.dir entries))
    (name : String) : n.item? (place ++ [name]) = (entries.lookup name).map item := by
  rw [item?, find?_append, h, Option.bind_some, find?, child?]
  cases entries.lookup name <;> rfl

/-- What stands below the root stands in a directory. -/
theorem item?_dropLast (h : (n.item? place).isSome) (hne : place ≠ []) :
    n.item? place.dropLast = some .dir := by
  obtain ⟨found, hfound⟩ := Option.isSome_iff_exists.mp (Option.isSome_map.symm.trans h)
  rw [← List.dropLast_append_getLast hne] at hfound
  obtain ⟨entries, hentries, -⟩ := exists_entries hfound
  exact item?_eq_dir_iff.mpr ⟨entries, hentries⟩

/-- Directories stay directories, and what is there stays there. -/
structure Keeps (tree tree' : Node) : Prop where
  dir : ∀ place, tree.item? place = some .dir → tree'.item? place = some .dir
  isSome : ∀ place, (tree.item? place).isSome → (tree'.item? place).isSome

theorem keeps_put (hdir : n.item? place = some .dir) (hfree : n.item? (place ++ [name]) ≠ some .dir)
    (bytes : List UInt8) : Keeps n (n.put (.file bytes) (place ++ [name])) where
  dir other hother := by
    rw [item?_put hdir hfree, if_neg, hother]
    rintro rfl
    exact hfree hother
  isSome other hother := by
    rw [item?_put hdir hfree]
    split
    · rfl
    · exact hother

end Node

variable {tree tree' : Node} {place names dir dir' goal : List String} {name name' : String} {p q : Path}
  {bytes : List UInt8} {d d' : Disk} {answer : Except Fault Unit}

theorem walk_cons_eq_ok_iff : walk tree place (name :: names) = .ok goal ↔
    tree.item? place = some .dir ∧
      if name = ".." then walk tree place.dropLast names = .ok goal
      else isTooLong name = false ∧ (tree.item? (place ++ [name])).isSome ∧
        walk tree (place ++ [name]) names = .ok goal := by
  rw [walk, Node.item?_eq_dir_iff]
  split
  · next entries hentries =>
    simp only [hentries, Option.some.injEq, Node.dir.injEq, exists_eq', true_and,
      Node.item?_append_singleton hentries, Option.isSome_map]
    split
    · rfl
    · split
      · simp_all
      · split <;> simp_all
  · next hnot =>
    constructor
    · rintro ⟨⟩
    · rintro ⟨⟨entries, hentries⟩, -⟩
      exact absurd hentries (hnot entries)

theorem walk_append (names more : List String) :
    walk tree place (names ++ more) = walk tree place names >>= fun goal => walk tree goal more := by
  induction names generalizing place with
  | nil => rfl
  | cons name names ih =>
      rw [List.cons_append, walk, walk]
      split
      · split
        · exact ih
        · split
          · rfl
          · split
            · exact ih
            · rfl
      · rfl

/-- Names lead where they led before. -/
theorem Node.Keeps.walk (h : tree.Keeps tree') (hwalk : walk tree place names = .ok goal) :
    Disk.walk tree' place names = .ok goal := by
  induction names generalizing place with
  | nil =>
      rw [Disk.walk] at hwalk ⊢
      exact hwalk
  | cons name names ih =>
      rw [walk_cons_eq_ok_iff] at hwalk ⊢
      refine ⟨h.dir place hwalk.1, ?_⟩
      split
      · next hup =>
        rw [if_pos hup] at hwalk
        exact ih hwalk.2
      · next hdown =>
        rw [if_neg hdown] at hwalk
        obtain ⟨-, hshort, hsome, hrest⟩ := hwalk
        exact ⟨hshort, h.isSome _ hsome, ih hrest⟩

/-- A path names something in a directory. -/
structure Names (d : Disk) (p : Path) (dir : List String) (name : String) : Prop where
  names : p.names = p.names.dropLast ++ [name]
  walk : Disk.walk d.tree (d.origin p) p.names.dropLast = .ok dir
  isDir : d.tree.item? dir = some .dir
  notUp : name ≠ ".."
  short : isTooLong name = false

theorem Names.of_keeps (h : d.Names p dir name) (hkeeps : d.tree.Keeps tree') :
    Names { d with tree := tree' } p dir name :=
  ⟨h.names, hkeeps.walk h.walk, hkeeps.dir dir h.isDir, h.notUp, h.short⟩

theorem Names.walk_eq (h : d.Names p dir name) (hsome : (d.tree.item? (dir ++ [name])).isSome) :
    Disk.walk d.tree (d.origin p) p.names = .ok (dir ++ [name]) := by
  rw [h.names, walk_append, h.walk]
  refine walk_cons_eq_ok_iff.mpr ⟨h.isDir, ?_⟩
  rw [if_neg h.notUp]
  exact ⟨h.short, hsome, rfl⟩

theorem contents_eq_ok_iff : d.contents p = .ok bytes ↔
    ∃ goal, walk d.tree (d.origin p) p.names = .ok goal ∧ d.tree.item? goal = some (.file bytes) := by
  rw [contents, Results.bind_eq_ok]
  refine exists_congr fun goal => and_congr_right fun _ => ?_
  rw [Node.item?_eq_file_iff]
  split
  · next old hold =>
    simp only [hold, Option.some.injEq, Node.file.injEq]
    exact ⟨fun h => by cases h; rfl, fun h => h ▸ rfl⟩
  · next hother => simp [hother]
  · next hnone => simp [hnone]

theorem read_eq_ok_iff : d.read p = .ok bytes ↔ refused? p = none ∧ d.contents p = .ok bytes := by
  rw [read]
  cases refused? p with
  | some fault => simp
  | none => simp [Results.mapError_eq_ok]

/-- A file that is read stands in a directory, unless its path has no names. -/
theorem exists_names_of_read (h : d.read p = .ok bytes) (hne : p.names ≠ []) :
    ∃ dir name, d.Names p dir name ∧ d.tree.item? (dir ++ [name]) = some (.file bytes) := by
  obtain ⟨goal, hgoal, hfile⟩ := contents_eq_ok_iff.mp (read_eq_ok_iff.mp h).2
  obtain ⟨name, hnames⟩ : ∃ name, p.names = p.names.dropLast ++ [name] :=
    ⟨_, (List.dropLast_append_getLast hne).symm⟩
  rw [hnames, walk_append] at hgoal
  obtain ⟨dir, hdir, hlast⟩ := Results.bind_eq_ok.mp hgoal
  obtain ⟨hisDir, hlast⟩ := walk_cons_eq_ok_iff.mp hlast
  by_cases hup : name = ".."
  · -- two dots lead to a directory, and never to a file
    rw [if_pos hup] at hlast
    cases hlast
    exfalso
    by_cases hroot : dir = []
    · subst hroot
      rw [List.dropLast_nil, hisDir] at hfile
      cases hfile
    · rw [Node.item?_dropLast (by rw [hisDir]; rfl) hroot] at hfile
      cases hfile
  · rw [if_neg hup] at hlast
    obtain ⟨hshort, -, hlast⟩ := hlast
    cases hlast
    exact ⟨dir, name, ⟨hnames, hdir, hisDir, hup, hshort⟩, hfile⟩

/-- A path that names a file is read as this file. -/
theorem Names.read_eq (h : d.Names p dir name) (hrefused : refused? p = none)
    (hfile : d.tree.item? (dir ++ [name]) = some (.file bytes)) : d.read p = .ok bytes :=
  read_eq_ok_iff.mpr ⟨hrefused, contents_eq_ok_iff.mpr ⟨_, h.walk_eq (by rw [hfile]; rfl), hfile⟩⟩

/-- What a path is written to is a place in a directory where no directory stands. -/
theorem exists_names_of_destination (h : d.destination p = .ok goal) :
    ∃ dir name, d.Names p dir name ∧ d.tree.item? (dir ++ [name]) ≠ some .dir ∧ goal = dir ++ [name] := by
  obtain ⟨dir, hdir, hgoal⟩ := Results.bind_eq_ok.mp h
  split at hgoal
  · cases hgoal
  · next name entries hlast hentries =>
    split at hgoal
    · cases hgoal
    · next hup =>
      split at hgoal
      · cases hgoal
      · next hshort =>
        split at hgoal
        · cases hgoal
        · next hfree =>
          cases hgoal
          have hnames : p.names = p.names.dropLast ++ [name] :=
            (List.dropLast_append_getLast? name hlast).symm
          refine ⟨dir, name, ⟨hnames, hdir, Node.item?_eq_dir_iff.mpr ⟨entries, hentries⟩, hup,
            Bool.eq_false_of_not_eq_true hshort⟩, fun hitem => hfree ?_, rfl⟩
          rw [Node.item?_append_singleton hentries] at hitem
          obtain ⟨found, hfound, hdirectory⟩ := Option.map_eq_some_iff.mp hitem
          rw [hfound]
          cases found with
          | file old => cases hdirectory
          | dir entries => rfl
  · cases hgoal

/-- The disk after a file has been put where a path leads. -/
def after (d : Disk) (dir : List String) (name : String) (bytes : List UInt8) : Disk :=
  { d with tree := d.tree.put (.file bytes) (dir ++ [name]) }

/-- A write fails and changes nothing, or it puts the file in its place. -/
theorem write_cases (h : d.write p bytes = (answer, d')) : (∃ fault, answer = .error fault) ∧ d' = d ∨
    answer = .ok () ∧ refused? p = none ∧ ∃ dir name, d.Names p dir name ∧
      d.tree.item? (dir ++ [name]) ≠ some .dir ∧ d' = d.after dir name bytes := by
  rw [write] at h
  split at h
  · cases h
    exact Or.inl ⟨⟨_, rfl⟩, rfl⟩
  · next hrefused =>
    split at h
    · cases h
      exact Or.inl ⟨⟨_, rfl⟩, rfl⟩
    · next goal hgoal =>
      cases h
      obtain ⟨dir, name, hnames, hfree, rfl⟩ := exists_names_of_destination hgoal
      exact Or.inr ⟨rfl, hrefused, dir, name, hnames, hfree, rfl⟩

section After

variable (hfree : d.tree.item? (dir ++ [name]) ≠ some .dir)
include hfree

theorem item?_after (hnames : d.Names p dir name) (place : List String) :
    (d.after dir name bytes).tree.item? place =
      if place = dir ++ [name] then some (.file bytes) else d.tree.item? place :=
  Node.item?_put hnames.isDir hfree bytes place

/-- What has been written is read back. -/
theorem read_after (hnames : d.Names p dir name) (hrefused : refused? p = none) :
    (d.after dir name bytes).read p = .ok bytes := by
  have hnames' : (d.after dir name bytes).Names p dir name :=
    hnames.of_keeps (Node.keeps_put hnames.isDir hfree bytes)
  exact hnames'.read_eq hrefused ((item?_after hfree hnames _).trans (if_pos rfl))

/-- A file at another place is read as before. -/
theorem read_after_of_ne {old : List UInt8} (hnames : d.Names p dir name) (hother : d.Names q dir' name')
    (hne : dir' ++ [name'] ≠ dir ++ [name]) (hread : d.read q = .ok old)
    (hfile : d.tree.item? (dir' ++ [name']) = some (.file old)) : (d.after dir name bytes).read q = .ok old := by
  have hother' : (d.after dir name bytes).Names q dir' name' :=
    hother.of_keeps (Node.keeps_put hnames.isDir hfree bytes)
  refine hother'.read_eq (read_eq_ok_iff.mp hread).1 ?_
  exact (item?_after hfree hnames _).trans ((if_neg hne).trans hfile)

end After

end Wireframe.Disk
