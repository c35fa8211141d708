import Wireframe.Disk.Tree
import Wireframe.Image
import Wireframe.Proofs.Results
import Wireframe.Proofs.TextSplit

/-! Images below a base directory. A relative source is resolved exactly when its parts, walked from the
base one after the other, lead to the base or below it, and then to where they lead
(`Image.resolve_contained`). Paths are compared name by name, so a neighbour of the base with a longer name
is outside of it. On a disk a path without two dots leads straight down, so what is read depends on nothing
but what is below the base (`Disk.read_congr`). -/

namespace Wireframe

namespace Path

/-- The parts of a text between its slashes. -/
structure AreParts (parts : List String) (text : String) : Prop where
  noSlash : ∀ part ∈ parts, '/' ∉ part.toList
  joined : "/".intercalate parts = text

/-- Where the parts of a path lead from a place: an empty part and a dot stay, two dots lead up and stay
at the root, and any other part leads down. -/
inductive Leads : List String → List String → List String → Prop
  | here {place : List String} : Leads place [] place
  | stay {place parts goal : List String} {part : String} (h : part = "" ∨ part = ".") :
      Leads place parts goal → Leads place (part :: parts) goal
  | up {place parts goal : List String} :
      Leads place.dropLast parts goal → Leads place (".." :: parts) goal
  | down {place parts goal : List String} {part : String} (h : part ∉ ["", ".", ".."]) :
      Leads (place ++ [part]) parts goal → Leads place (part :: parts) goal

variable {place names parts goal b : List String} {text : String}

theorem areParts_splitAt (text : String) :
    AreParts ((Text.splitAt '/' text.toList).map String.ofList) text where
  noSlash part hpart := by
    obtain ⟨piece, hpiece, rfl⟩ := List.mem_map.mp hpart
    rw [String.toList_ofList]
    exact Text.not_mem_of_mem_splitAt hpiece
  joined := by
    have hid : String.toList ∘ String.ofList = id := funext fun _ => String.toList_ofList
    have hslash : "/".toList = ['/'] := by rfl
    rw [← String.toList_inj, String.toList_intercalate, List.map_map, hid, List.map_id, hslash,
      Text.intercalate_splitAt]

/-- The walk over the names that are kept is the walk over all parts. -/
theorem leads_walk (place parts : List String) :
    Leads place parts (walk place (parts.filter fun part => part ≠ "" && part ≠ ".")) := by
  induction parts generalizing place with
  | nil => exact .here
  | cons part parts ih =>
      by_cases hstay : part = "" ∨ part = "."
      · have hdropped : (part :: parts).filter (fun part => part ≠ "" && part ≠ ".") =
            parts.filter fun part => part ≠ "" && part ≠ "." :=
          List.filter_cons_of_neg (by simpa [imp_iff_not_or] using hstay)
        rw [hdropped]
        exact .stay hstay (ih place)
      · have hkept : (part :: parts).filter (fun part => part ≠ "" && part ≠ ".") =
            part :: parts.filter fun part => part ≠ "" && part ≠ "." :=
          List.filter_cons_of_pos (by simpa using hstay)
        rw [hkept, walk, List.foldl_cons]
        by_cases hup : part = ".."
        · subst hup
          exact .up (ih place.dropLast)
        · rw [if_neg hup]
          exact .down (by simpa [hup] using hstay) (ih (place ++ [part]))

/-- Where somebody can be on a disk: none of the names leads up or holds a null character. -/
def IsPlace (place : List String) : Prop := ∀ name ∈ place, name ≠ ".." ∧ '\x00' ∉ name.toList

theorem IsPlace.walk (h : IsPlace place) (hnames : ∀ name ∈ names, '\x00' ∉ name.toList) :
    IsPlace (walk place names) := by
  induction names generalizing place with
  | nil => exact h
  | cons name names ih =>
      obtain ⟨hname, hnames⟩ := List.forall_mem_cons.mp hnames
      rw [Path.walk, List.foldl_cons]
      split
      · exact ih (fun other hother => h other (List.mem_of_mem_dropLast hother)) hnames
      · next hup =>
        have hnext := List.forall_mem_append.mpr ⟨h, List.forall_mem_singleton.mpr ⟨hup, hname⟩⟩
        exact ih hnext hnames

/-- Where no name leads up, the walk ends below its start. -/
theorem walk_of_isPlace (h : IsPlace names) (place : List String) : walk place names = place ++ names := by
  induction names generalizing place with
  | nil => exact (List.append_nil place).symm
  | cons name names ih =>
      obtain ⟨⟨hname, -⟩, hnames⟩ := List.forall_mem_cons.mp h
      rw [walk, List.foldl_cons, if_neg hname]
      show walk (place ++ [name]) names = _
      rw [ih hnames, List.append_assoc, List.singleton_append]

theorem hasNull_eq_false_iff {p : Path} :
    p.hasNull = false ↔ ∀ name ∈ p.names, '\x00' ∉ name.toList := by
  simp only [hasNull, List.any_eq_false, List.contains_iff_mem]

theorem hasNull_read (h : '\x00' ∉ text.toList) : (read text).hasNull = false := by
  rw [hasNull_eq_false_iff]
  intro name hname hnull
  obtain ⟨hpart, -⟩ := List.mem_filter.mp hname
  obtain ⟨piece, hpiece, rfl⟩ := List.mem_map.mp hpart
  rw [String.toList_ofList] at hnull
  exact h (Text.mem_of_mem_splitAt hpiece hnull)

theorem isAbsolute_read (h : text.toList.head? ≠ some '/') : (read text).isAbsolute = false := by
  have hroot : Root.ofChars text.toList = .none := by
    rw [Root.ofChars.eq_def]
    split <;> simp_all
  rw [isAbsolute, read, hroot]
  rfl

theorem isPlace_of_resolve {p q : Path} (hplace : IsPlace place) (h : p.resolve place = .ok q) :
    IsPlace q.names := by
  rw [resolve] at h
  split at h
  · cases h
  · next hnull =>
    cases h
    refine IsPlace.walk ?_ (hasNull_eq_false_iff.mp (Bool.eq_false_of_not_eq_true hnull))
    split
    · exact fun name hname => absurd hname List.not_mem_nil
    · exact hplace

/-- A relative path below a place is resolved by a walk from this place, whoever asks. -/
theorem resolve_join {p : Path} (hb : IsPlace b) (hp : p.isAbsolute = false) (hnull : p.hasNull = false)
    (place : List String) : (Path.join ⟨.slash, b⟩ p).resolve place = .ok ⟨.slash, walk b p.names⟩ := by
  have hjoined : Path.join ⟨.slash, b⟩ p = ⟨.slash, b ++ p.names⟩ := by
    rw [join, hp]
    rfl
  have hnone : (⟨.slash, b ++ p.names⟩ : Path).hasNull = false :=
    hasNull_eq_false_iff.mpr (List.forall_mem_append.mpr
      ⟨fun name hname => (hb name hname).2, hasNull_eq_false_iff.mp hnull⟩)
  rw [hjoined, resolve, hnone]
  show Except.ok (Path.mk .slash (walk [] (b ++ p.names))) = _
  rw [walk, List.foldl_append]
  show Except.ok (Path.mk .slash (walk (walk [] b) p.names)) = _
  rw [walk_of_isPlace hb, List.nil_append]

end Path

namespace Disk

open Wireframe.Path (IsPlace)

variable {tree tree' sub : Node} {place names b s : List String} {d d' : Disk}

theorem Node.find?_append (n : Node) (names more : List String) :
    n.find? (names ++ more) = (n.find? names).bind (·.find? more) := by
  induction names generalizing n with
  | nil => rfl
  | cons name names ih =>
      simp only [List.cons_append, find?]
      cases n.child? name with
      | none => rfl
      | some child => exact ih child

/-- The directory above what is there has its name. -/
theorem exists_entries (h : tree.find? (place ++ name :: names) = some sub) :
    ∃ entries, tree.find? place = some (.dir entries) ∧ (entries.lookup name).isSome = true := by
  rw [Node.find?_append] at h
  obtain ⟨n, hn, hsub⟩ := Option.bind_eq_some_iff.mp h
  rw [Node.find?] at hsub
  obtain ⟨child, hchild, -⟩ := Option.bind_eq_some_iff.mp hsub
  cases n with
  | file bytes => cases hchild
  | dir entries => exact ⟨entries, hn, Option.isSome_iff_exists.mpr ⟨child, hchild⟩⟩

/-- The way down to what is there, and on from it. -/
theorem walk_append_of_find? (place : List String) (h : tree.find? (place ++ names) = some sub)
    (hnames : IsPlace names) (more : List String) :
    walk tree place (names ++ more) =
      if names.any isTooLong then .error .nameTooLong else walk tree (place ++ names) more := by
  induction names generalizing place with
  | nil => rw [List.append_nil]; rfl
  | cons name names ih =>
      obtain ⟨⟨hname, -⟩, hrest⟩ := List.forall_mem_cons.mp hnames
      obtain ⟨entries, hentries, hlookup⟩ := exists_entries h
      rw [List.cons_append, walk, hentries]
      by_cases hlong : isTooLong name = true
      · simp only [if_neg hname, List.any_cons, hlong, if_true, Bool.true_or]
      · have hnext : tree.find? (place ++ [name] ++ names) = some sub := by
          rwa [List.append_assoc, List.singleton_append]
        simp only [if_neg hname, hlookup, if_true, ih _ hnext hrest, List.any_cons,
          Bool.eq_false_of_not_eq_true hlong, Bool.false_eq_true, if_false, Bool.false_or, List.append_assoc,
          List.singleton_append]

/-- Names lead the same way on trees that agree below a place. -/
theorem walk_congr (h : tree.find? b = tree'.find? b) (hnames : IsPlace names) (s : List String) :
    walk tree (b ++ s) names = walk tree' (b ++ s) names := by
  induction names generalizing s with
  | nil => rw [walk, walk]
  | cons name names ih =>
      obtain ⟨⟨hname, -⟩, hrest⟩ := List.forall_mem_cons.mp hnames
      have hsame : tree.find? (b ++ s) = tree'.find? (b ++ s) := by
        rw [Node.find?_append, Node.find?_append, h]
      simp only [walk, hsame, if_neg hname, List.append_assoc, ih hrest]

/-- Names without two dots lead straight down. -/
theorem eq_append_of_walk {goal : List String} (hnames : IsPlace names)
    (h : walk tree place names = .ok goal) : goal = place ++ names := by
  induction names generalizing place with
  | nil =>
      rw [walk] at h
      cases h
      exact (List.append_nil goal).symm
  | cons name names ih =>
      obtain ⟨⟨hname, -⟩, hrest⟩ := List.forall_mem_cons.mp hnames
      rw [walk] at h
      split at h
      · simp only [if_neg hname] at h
        split at h
        · cases h
        split at h
        · rw [ih hrest h, List.append_assoc, List.singleton_append]
        · cases h
      · cases h

/-- What a path below a place leads to is the same on disks that agree there. -/
theorem read_congr {p : Path} (hroot : p.root = .slash) (hp : IsPlace p.names) (hbelow : b <+: p.names)
    (h : d.tree.find? b = d'.tree.find? b) (hsub : (d.tree.find? b).isSome = true) :
    d.read p = d'.read p := by
  obtain ⟨s, hs⟩ := hbelow
  obtain ⟨hb, hrest⟩ := List.forall_mem_append.mp (show IsPlace (b ++ s) from hs ▸ hp)
  obtain ⟨sub, hsub⟩ := Option.isSome_iff_exists.mp hsub
  have hwalk (d : Disk) (hsub : d.tree.find? b = some sub) :
      walk d.tree [] p.names = if b.any isTooLong then .error .nameTooLong else walk d.tree b s := by
    rw [← hs, walk_append_of_find? [] hsub hb, List.nil_append]
  have hcontents : d.contents p = d'.contents p := by
    have horigin (d : Disk) : d.origin p = [] := by
      rw [origin, Path.isAbsolute, hroot]
      rfl
    have hsame : walk d.tree b s = walk d'.tree b s := by
      rw [← List.append_nil b]
      exact walk_congr h hrest []
    rw [contents, contents, horigin, horigin, hwalk d hsub, hwalk d' (h ▸ hsub), ← hsame]
    split
    · rfl
    · cases hgoal : walk d.tree b s with
      | error cause => rfl
      | ok goal =>
          have hfind : d.tree.find? goal = d'.tree.find? goal := by
            rw [eq_append_of_walk hrest hgoal, Node.find?_append, Node.find?_append, h]
          simp only [bind, Except.bind, hfind]
  rw [read, read, hcontents]

end Disk

namespace Action

variable {α : Type} {P : Path → Prop} {d d' : Disk}

/-- An action that writes nothing and reads no other paths, whatever the answers are. -/
def ReadsOnly (P : Path → Prop) : Action α → Prop
  | done _ => True
  | read path next => P path ∧ ∀ answer, (next answer).ReadsOnly P
  | write _ _ _ => False

/-- An action has the same value on disks that agree on what it reads. -/
theorem ReadsOnly.run_congr {a : Action α} (h : a.ReadsOnly P) (hsame : ∀ p, P p → d.read p = d'.read p) :
    (d.run a).1 = (d'.run a).1 := by
  induction a with
  | done a => rfl
  | read path next ih =>
      obtain ⟨hpath, hnext⟩ := h
      show (d.run (next (d.read path))).1 = (d'.run (next (d'.read path))).1
      rw [hsame path hpath]
      exact ih _ (hnext _)
  | write path bytes next => exact h.elim

end Action

namespace Image

open Wireframe.Path (IsPlace AreParts Leads)

variable {P : Path → Prop} {place : List String} {base : Option Path} {src : String}

/-- Nothing is read but the path that the source is resolved to. -/
theorem readsOnly_fetch (h : ∀ path, resolve place base src = .ok path → P path) :
    (fetch place base src).ReadsOnly P := by
  rw [fetch]
  cases htarget : target place base src with
  | error fault => trivial
  | ok found =>
      obtain ⟨path, hresolve, -⟩ := Results.bind_eq_ok.mp htarget
      obtain rfl : found.1 = path := by
        rw [target, hresolve] at htarget
        simp only [bind, Except.bind] at htarget
        split at htarget <;> cases htarget
        rfl
      exact ⟨h found.1 hresolve, fun answer => trivial⟩

/-- A relative source without a null character is resolved exactly when walking its parts from the base,
whether what they name is there or not, ends at the base or below it, and then to where the walk ends. So
its image is read below the base, along a path that never leads up, and is the same on all disks that agree
at the base. -/
theorem resolve_contained {base : Path} {b : List String} (src : String) (hplace : IsPlace place)
    (hbase : base.resolve place = .ok ⟨.slash, b⟩) (hrelative : src.toList.head? ≠ some '/')
    (hnull : '\x00' ∉ src.toList) :
    ∃ parts goal, AreParts parts src ∧ Leads b parts goal ∧
      (b <+: goal → resolve place (some base) src = .ok ⟨.slash, goal⟩) ∧
      (¬b <+: goal → resolve place (some base) src = .error (.escapes src)) ∧
      (fetch place (some base) src).ReadsOnly (fun p => p.root = .slash ∧ IsPlace p.names ∧ b <+: p.names) ∧
      ∀ d d' : Disk, (d.tree.find? b).isSome = true → d.tree.find? b = d'.tree.find? b →
        (d.run (fetch place (some base) src)).1 = (d'.run (fetch place (some base) src)).1 := by
  have hread := Path.hasNull_read hnull
  have habsolute := Path.isAbsolute_read hrelative
  have hb : IsPlace b := Path.isPlace_of_resolve hplace hbase
  have hgoal : IsPlace (Path.walk b (Path.read src).names) := hb.walk (Path.hasNull_eq_false_iff.mp hread)
  have hresolve : resolve place (some base) src =
      if b <+: Path.walk b (Path.read src).names then .ok ⟨.slash, Path.walk b (Path.read src).names⟩
      else .error (.escapes src) := by
    have hjoin := Path.resolve_join hb habsolute hread place
    simp only [resolve, habsolute, hbase, hjoin, Except.mapError, bind, Except.bind,
      List.isPrefixOf_iff_prefix, Bool.false_eq_true, if_false]
    rfl
  have honly : (fetch place (some base) src).ReadsOnly
      (fun p => p.root = .slash ∧ IsPlace p.names ∧ b <+: p.names) := by
    refine readsOnly_fetch fun path hpath => ?_
    rw [hresolve] at hpath
    split at hpath <;> cases hpath
    exact ⟨rfl, hgoal, ‹_›⟩
  refine ⟨_, _, Path.areParts_splitAt src, Path.leads_walk b _, fun hbelow => ?_, fun hout => ?_, honly,
    fun d d' hsome hsame => honly.run_congr fun p hp => Disk.read_congr hp.1 hp.2.1 hp.2.2 hsame hsome⟩
  · exact hresolve.trans (if_pos hbelow)
  · exact hresolve.trans (if_neg hout)

/-- The source leaves the base and comes back; a neighbour of the base has a longer name. -/
theorem resolve_contained_of_neighbour :
    ∃ (place b : List String) (base : Path) (src neighbour : String),
      place = ["home"] ∧ base = Path.read "img/" ∧ b = ["home", "img"] ∧
      src = "../img/./a//b/../logo.png" ∧ neighbour = "../img2/logo.png" ∧
      resolve place (some base) src = .ok ⟨.slash, ["home", "img", "a", "logo.png"]⟩ ∧
      resolve place (some base) neighbour = .error (.escapes neighbour) ∧
      (∃ parts goal, AreParts parts src ∧ Leads b parts goal ∧
        (b <+: goal → resolve place (some base) src = .ok ⟨.slash, goal⟩)) ∧
      ∃ parts goal, AreParts parts neighbour ∧ Leads b parts goal ∧ ¬b <+: goal := by
  obtain ⟨place, hplace⟩ : ∃ place, place = ["home"] := ⟨_, rfl⟩
  obtain ⟨base, hbase⟩ : ∃ base, base = Path.read "img/" := ⟨_, rfl⟩
  have hclean : IsPlace place := by
    rw [hplace, IsPlace]
    decide
  have hresolved : base.resolve place = .ok ⟨.slash, ["home", "img"]⟩ := by
    rw [hplace, hbase]
    decide +kernel
  have hback : resolve place (some base) "../img/./a//b/../logo.png" =
      .ok ⟨.slash, ["home", "img", "a", "logo.png"]⟩ := by
    rw [hplace, hbase]
    decide +kernel
  have hescapes : resolve place (some base) "../img2/logo.png" = .error (.escapes "../img2/logo.png") := by
    rw [hplace, hbase]
    decide +kernel
  obtain ⟨parts, goal, hparts, hleads, hbelow, -⟩ :=
    resolve_contained "../img/./a//b/../logo.png" hclean hresolved (by decide) (by decide)
  obtain ⟨aside, out, haside, houtward, hout, -⟩ :=
    resolve_contained "../img2/logo.png" hclean hresolved (by decide) (by decide)
  refine ⟨place, _, base, _, _, hplace, hbase, rfl, rfl, rfl, hback, hescapes,
    ⟨parts, goal, hparts, hleads, hbelow⟩, aside, out, haside, houtward, fun hbegins => ?_⟩
  rw [hout hbegins] at hescapes
  cases hescapes

end Image
end Wireframe
