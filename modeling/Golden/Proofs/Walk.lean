import Golden.Proofs.Spelling
import Golden.Tree
import Mathlib.Data.List.Basic

/-!
# Ways through a tree

A path is followed piece by piece. From a directory, a piece leads to the directory itself, or to
the one above it, or to what has the piece for its name there; from a file no piece leads anywhere.
On the way to a directory the pieces that lead nowhere can be left out and put in, so that only the
steps of a path matter. A file is reached by a step down from the directory that contains it.

## Main definitions

* `Tree.IsDirectory` — a directory, with directories all the way down to it
* `Tree.IsName` — a text that can be the name of something in a directory
* `Tree.Leads` — where one piece leads
* `Tree.SameOutline` — two trees have directories and files at the same locations

## Main results

* `Tree.walk_cons_eq_ok_iff`, `Tree.walk_append_eq_ok_iff` — where pieces lead, one after the other
* `Tree.Leads.isDirectory_dropLast`, `Tree.isDirectory_dropLast_of_walk` — a way stays below
  directories
* `Tree.walk_filter_isStep`, `Tree.walk_of_filter_isStep` — only steps matter
* `Tree.locate_directory` — the directory of a path to a file contains that file
* `Tree.locate_join_eq_ok_iff` — where a name below a path leads
* `Tree.SameOutline.locate_eq` — a path leads to the same in trees of the same outline
-/

namespace Golden.Tree

variable {t : Tree} {l k place dir cwd : Location} {piece name : Text} {ps qs : List Text}
  {path base : Path}

/-! ### Directories -/

/-- A directory, with directories all the way down to it. -/
def IsDirectory (t : Tree) (l : Location) : Prop :=
  ∀ k, k <+: l → t.node? k = some .directory

theorem isDirectory_nil (t : Tree) : t.IsDirectory [] := by
  intro k hk
  rw [List.prefix_nil.mp hk]
  rfl

theorem IsDirectory.node? (h : t.IsDirectory l) : t.node? l = some .directory :=
  h l List.prefix_rfl

theorem IsDirectory.dropLast (h : t.IsDirectory l) : t.IsDirectory l.dropLast :=
  fun k hk => h k (hk.trans l.dropLast_prefix)

/-- One name farther down is a directory if one stands there. -/
theorem isDirectory_concat_iff :
    t.IsDirectory (l ++ [name]) ↔ t.IsDirectory l ∧ t.node? (l ++ [name]) = some .directory := by
  constructor
  · intro h
    exact ⟨fun k hk => h k (hk.trans (List.prefix_append l [name])), h.node?⟩
  · intro h k hk
    obtain ⟨habove, hnode⟩ := h
    obtain rfl | hk := List.prefix_concat_iff.mp hk
    · exact hnode
    · exact habove k hk

theorem isDirectory_of_dropLast (habove : t.IsDirectory l.dropLast)
    (hnode : t.node? l = some .directory) : t.IsDirectory l := by
  obtain rfl | ⟨front, name, rfl⟩ := l.eq_nil_or_concat'
  · exact isDirectory_nil t
  · rw [List.dropLast_concat] at habove
    exact isDirectory_concat_iff.mpr ⟨habove, hnode⟩

/-! ### One piece -/

/-- A text that can be the name of something in a directory. -/
structure IsName (name : Text) : Prop where
  isStep : Path.isStep name = true
  ne_above : name ≠ ['.', '.']
  short : (Utf8.encode name).length ≤ maxName

/-- A piece leads from a location to another. -/
inductive Leads (t : Tree) : Location → Text → Location → Prop
  /-- The piece names nothing. -/
  | idle {l : Location} {piece : Text} (hdir : t.node? l = some .directory)
      (hidle : Path.isStep piece = false) : Leads t l piece l
  /-- The piece is that for the directory above; the root is above itself. -/
  | up {l : Location} (hdir : t.node? l = some .directory) : Leads t l ['.', '.'] l.dropLast
  /-- The piece is the name of something. -/
  | down {l : Location} {name : Text} (hdir : t.node? l = some .directory) (hname : IsName name)
      (hnode : (t.node? (l ++ [name])).isSome = true) : Leads t l name (l ++ [name])

/-- Pieces lead wherever the others lead from where the first one leads. -/
theorem walk_cons_eq_ok_iff :
    t.walk l (piece :: ps) = .ok place ↔ ∃ k, t.Leads l piece k ∧ t.walk k ps = .ok place := by
  constructor
  · intro h
    rw [walk] at h
    cases hdir : t.node? l with
    | none => simp [hdir] at h
    | some node =>
      cases node with
      | file content kind => simp [hdir] at h
      | directory =>
        simp only [hdir] at h
        by_cases hidle : Path.isStep piece = false
        · rw [if_pos (by simp [hidle])] at h
          exact ⟨l, .idle hdir hidle, h⟩
        have hstep : Path.isStep piece = true := by simpa using hidle
        rw [if_neg (by simp [hstep])] at h
        by_cases habove : piece = ['.', '.']
        · rw [if_pos habove] at h
          exact ⟨l.dropLast, habove ▸ .up hdir, h⟩
        rw [if_neg habove] at h
        by_cases hlong : maxName < (Utf8.encode piece).length
        · simp [hlong] at h
        rw [if_neg hlong] at h
        by_cases hnone : (t.node? (l ++ [piece])).isNone = true
        · simp [hnone] at h
        rw [if_neg hnone] at h
        have hnode : (t.node? (l ++ [piece])).isSome = true := by
          simpa [Option.isSome_iff_ne_none] using hnone
        exact ⟨l ++ [piece], .down hdir ⟨hstep, habove, Nat.le_of_not_lt hlong⟩ hnode, h⟩
  · intro h
    obtain ⟨k, hleads, hrest⟩ := h
    rw [walk]
    cases hleads with
    | idle hdir hidle => simpa [hdir, hidle] using hrest
    | up hdir =>
      have hstep : Path.isStep ['.', '.'] = true := rfl
      simpa [hdir, hstep] using hrest
    | down hdir hname hnode =>
      have hsome : (t.node? (l ++ [piece])).isNone = false := by
        simpa [Option.isSome_iff_ne_none] using hnode
      simpa [hdir, hname.isStep, hname.ne_above, Nat.not_lt.mpr hname.short, hsome] using hrest

/-- A piece leads from a directory. -/
theorem Leads.node? (h : t.Leads l piece k) : t.node? l = some .directory := by
  cases h with
  | idle hdir => exact hdir
  | up hdir => exact hdir
  | down hdir => exact hdir

/-- A piece does not lead out of what is below directories. -/
theorem Leads.isDirectory_dropLast (h : t.Leads l piece k) (habove : t.IsDirectory l.dropLast) :
    t.IsDirectory k.dropLast := by
  cases h with
  | idle => exact habove
  | up => exact habove.dropLast
  | down hdir =>
    rw [List.dropLast_concat]
    exact isDirectory_of_dropLast habove hdir

/-! ### Pieces -/

theorem walk_append_eq_ok_iff :
    t.walk l (ps ++ qs) = .ok place ↔ ∃ k, t.walk l ps = .ok k ∧ t.walk k qs = .ok place := by
  induction ps generalizing l with
  | nil => simp [walk]
  | cons piece rest ih =>
    simp only [List.cons_append, walk_cons_eq_ok_iff, ih]
    constructor
    · intro h
      obtain ⟨m, hleads, k, hrest, hqs⟩ := h
      exact ⟨k, ⟨m, hleads, hrest⟩, hqs⟩
    · intro h
      obtain ⟨k, ⟨m, hleads, hrest⟩, hqs⟩ := h
      exact ⟨m, hleads, k, hrest, hqs⟩

/-- A way leads to names that it begins with or that are among its pieces. -/
theorem mem_of_walk (h : t.walk l ps = .ok place) (hname : name ∈ place) : name ∈ l ∨ name ∈ ps := by
  induction ps generalizing l with
  | nil =>
    obtain rfl := Except.ok.inj h
    exact .inl hname
  | cons piece rest ih =>
    obtain ⟨k, hleads, hrest⟩ := walk_cons_eq_ok_iff.mp h
    obtain hk | hrest := ih hrest
    · cases hleads with
      | idle => exact .inl hk
      | up => exact .inl (List.dropLast_subset _ hk)
      | down =>
        obtain hl | hpiece := List.mem_append.mp hk
        · exact .inl hl
        · exact .inr (List.mem_singleton.mp hpiece ▸ List.mem_cons_self)
    · exact .inr (List.mem_cons_of_mem piece hrest)

/-- A way does not lead out of what is below directories. -/
theorem isDirectory_dropLast_of_walk (h : t.walk l ps = .ok k) (habove : t.IsDirectory l.dropLast) :
    t.IsDirectory k.dropLast := by
  induction ps generalizing l with
  | nil =>
    obtain rfl := Except.ok.inj h
    exact habove
  | cons piece rest ih =>
    obtain ⟨m, hleads, hrest⟩ := walk_cons_eq_ok_iff.mp h
    exact ih hrest (hleads.isDirectory_dropLast habove)

/-- A way to a directory begins at one. -/
theorem node?_of_walk (h : t.walk l ps = .ok k) (hdir : t.node? k = some .directory) :
    t.node? l = some .directory := by
  cases ps with
  | nil =>
    obtain rfl := Except.ok.inj h
    exact hdir
  | cons piece rest =>
    obtain ⟨m, hleads, -⟩ := walk_cons_eq_ok_iff.mp h
    exact hleads.node?

/-- Pieces that lead nowhere can be left out. -/
theorem walk_filter_isStep (h : t.walk l ps = .ok k) :
    t.walk l (ps.filter Path.isStep) = .ok k := by
  induction ps generalizing l with
  | nil => exact h
  | cons piece rest ih =>
    obtain ⟨m, hleads, hrest⟩ := walk_cons_eq_ok_iff.mp h
    by_cases hstep : Path.isStep piece = true
    · rw [List.filter_cons_of_pos hstep]
      exact walk_cons_eq_ok_iff.mpr ⟨m, hleads, ih hrest⟩
    · rw [List.filter_cons_of_neg hstep]
      -- Of the three kinds of pieces only the first is left out.
      cases hleads with
      | idle => exact ih hrest
      | up => exact absurd rfl hstep
      | down _ hname => exact absurd hname.isStep hstep

/-- On the way to a directory, pieces that lead nowhere can be put in. -/
theorem walk_of_filter_isStep (h : t.walk l (ps.filter Path.isStep) = .ok k)
    (hdir : t.node? k = some .directory) : t.walk l ps = .ok k := by
  induction ps generalizing l with
  | nil => exact h
  | cons piece rest ih =>
    by_cases hstep : Path.isStep piece = true
    · rw [List.filter_cons_of_pos hstep] at h
      obtain ⟨m, hleads, hrest⟩ := walk_cons_eq_ok_iff.mp h
      exact walk_cons_eq_ok_iff.mpr ⟨m, hleads, ih hrest⟩
    · rw [List.filter_cons_of_neg hstep] at h
      -- An idle piece needs a directory to stand in, and there is one because the way ends at one.
      have hhere : t.Leads l piece l := .idle (node?_of_walk h hdir) (Bool.eq_false_iff.mpr hstep)
      exact walk_cons_eq_ok_iff.mpr ⟨l, hhere, ih h⟩

/-- What is no directory is reached by a last step down from one. -/
theorem exists_of_walk_steps (habove : t.IsDirectory l) (hsteps : ∀ piece ∈ ps, Path.isStep piece)
    (h : t.walk l ps = .ok place) (hfile : t.node? place ≠ some .directory) :
    ∃ front dir name, ps = front ++ [name] ∧ place = dir ++ [name] ∧ t.walk l front = .ok dir ∧
      t.IsDirectory dir := by
  obtain rfl | ⟨front, name, rfl⟩ := ps.eq_nil_or_concat'
  · obtain rfl := Except.ok.inj h
    exact absurd habove.node? hfile
  · obtain ⟨dir, hfront, hlast⟩ := walk_append_eq_ok_iff.mp h
    obtain ⟨k, hleads, hend⟩ := walk_cons_eq_ok_iff.mp hlast
    obtain rfl := Except.ok.inj hend
    have hdir : t.IsDirectory dir :=
      isDirectory_of_dropLast (isDirectory_dropLast_of_walk hfront habove.dropLast) hleads.node?
    -- The step is no step up, since what is above a directory is one, too.
    cases hleads with
    | idle _ hidle => simp [hsteps name (by simp)] at hidle
    | up => exact absurd hdir.dropLast.node? hfile
    | down => exact ⟨front, dir, name, rfl, rfl, hfront, hdir⟩

/-! ### Paths -/

/-- Where a path is followed from. -/
def start (cwd : Location) (path : Path) : Location :=
  if Path.isAbsolute path then [] else cwd

theorem start_congr (h : Path.isAbsolute path = Path.isAbsolute base) (cwd : Location) :
    start cwd path = start cwd base := by
  rw [start, start, h]

theorem isDirectory_start (hcwd : t.IsDirectory cwd) (path : Path) :
    t.IsDirectory (start cwd path) := by
  rw [start]
  by_cases h : Path.isAbsolute path = true
  · rw [if_pos h]
    exact isDirectory_nil t
  · rw [if_neg h]
    exact hcwd

theorem locate_eq_ok_iff :
    t.locate cwd path = .ok place ↔ '\x00' ∉ path ∧ path ≠ [] ∧
      (Utf8.encode path).length ≤ maxPath ∧
        t.walk (start cwd path) (Path.pieces path) = .ok place := by
  rw [locate, ← start]
  by_cases hnul : '\x00' ∈ path
  · simp [hnul]
  by_cases hempty : path = []
  · simp [hempty]
  by_cases hlong : maxPath < (Utf8.encode path).length
  · simp [hnul, hempty, hlong, Nat.not_le.mpr hlong]
  · simp [hnul, hempty, hlong, Nat.le_of_not_lt hlong]

/-- What a path to a file ends with is the name of that file in a directory, behind a way to that
directory. -/
theorem exists_of_locate (hcwd : t.IsDirectory cwd) (h : t.locate cwd path = .ok place)
    (hfile : t.node? place ≠ some .directory) :
    ∃ front dir name, Path.steps path = front ++ [name] ∧ place = dir ++ [name] ∧
      t.walk (start cwd path) front = .ok dir ∧ t.IsDirectory dir := by
  obtain ⟨-, -, -, hwalk⟩ := locate_eq_ok_iff.mp h
  have hproper : ∀ piece ∈ Path.steps path, Path.isStep piece = true :=
    fun piece hpiece => List.of_mem_filter hpiece
  exact exists_of_walk_steps (isDirectory_start hcwd path) hproper (walk_filter_isStep hwalk) hfile

/-- **The directory of a path to a file contains that file.** However the path is spelled, what it
names lies in the directory to which its parent leads, under a name of its own. -/
theorem locate_directory (hcwd : t.IsDirectory cwd) (h : t.locate cwd path = .ok place)
    (hfile : t.node? place ≠ some .directory) :
    ∃ dir name, place = dir ++ [name] ∧ t.IsDirectory dir ∧
      t.locate cwd (Path.directory path) = .ok dir := by
  obtain ⟨hnul, hne, hshort, -⟩ := locate_eq_ok_iff.mp h
  -- Without the idle pieces, the last step is what the directory of the path lacks.
  obtain ⟨front, dir, name, hsplit, hplace, hfront, hdir⟩ := exists_of_locate hcwd h hfile
  refine ⟨dir, name, hplace, hdir, ?_⟩
  have hstart : start cwd (Path.directory path) = start cwd path :=
    start_congr (Path.isAbsolute_directory (by simp [hsplit])) cwd
  have hdirectory : Path.steps (Path.directory path) = front := by
    rw [Path.steps_directory, hsplit, List.dropLast_concat]
  refine locate_eq_ok_iff.mpr ⟨?_, Path.directory_ne_nil path, ?_, ?_⟩
  · obtain hbegins | hhere := Path.directory_isPrefix_or_eq path
    · exact fun hmem => hnul (hbegins.subset hmem)
    · rw [hhere]
      decide
  · obtain ⟨behind, hpath⟩ | hhere := Path.directory_isPrefix_or_eq path
    · rw [← hpath, Utf8.encode, List.flatMap_append, List.length_append] at hshort
      exact (Nat.le_add_right _ _).trans hshort
    · rw [hhere]
      decide
  · rw [hstart]
    rw [← hdirectory] at hfront
    exact walk_of_filter_isStep hfront hdir.node?

/-- Where a name below a path leads: to what has the name in the directory to which the path leads,
if the two together are no longer than a path may be. -/
theorem locate_join_eq_ok_iff (hbase : t.locate cwd base = .ok dir)
    (hdir : t.node? dir = some .directory) (hname : IsName name) (hslash : '/' ∉ name)
    (hnul : '\x00' ∉ name) :
    t.locate cwd (Path.join base name) = .ok place ↔
      (Utf8.encode (Path.join base name)).length ≤ maxPath ∧ place = dir ++ [name] ∧
        (t.node? (dir ++ [name])).isSome = true := by
  obtain ⟨hnul', hne, -, hwalk⟩ := locate_eq_ok_iff.mp hbase
  obtain ⟨front, hpieces, hfront⟩ := Path.exists_pieces_join hne hslash
  have hstart : start cwd (Path.join base name) = start cwd base :=
    start_congr (Path.isAbsolute_join hne name) cwd
  -- The pieces in front of the name take the steps of the path, and so they lead to the directory.
  have hsteps : t.walk (start cwd base) (front.filter Path.isStep) = .ok dir := by
    rw [hfront]
    exact walk_filter_isStep hwalk
  have hway := walk_of_filter_isStep hsteps hdir
  have hplain : '\x00' ∉ Path.join base name ∧ Path.join base name ≠ [] := by
    obtain ⟨slash, hslash, hjoin⟩ := Path.exists_join_eq hne name
    rw [hjoin]
    obtain rfl | rfl := hslash <;> simp [hnul, hnul', hne]
  rw [locate_eq_ok_iff, hstart, hpieces, walk_append_eq_ok_iff]
  constructor
  · intro h
    obtain ⟨-, -, hshort, k, hk, hlast⟩ := h
    obtain rfl := Except.ok.inj (hway.symm.trans hk)
    obtain ⟨m, hleads, hend⟩ := walk_cons_eq_ok_iff.mp hlast
    obtain rfl := Except.ok.inj hend
    cases hleads with
    | idle _ hidle => simp [hname.isStep] at hidle
    | up => exact absurd rfl hname.ne_above
    | down _ _ hnode => exact ⟨hshort, rfl, hnode⟩
  · intro h
    obtain ⟨hshort, rfl, hnode⟩ := h
    have hlast : t.walk dir [name] = .ok (dir ++ [name]) :=
      walk_cons_eq_ok_iff.mpr ⟨_, .down hdir hname hnode, rfl⟩
    exact ⟨hplain.1, hplain.2, hshort, dir, hway, hlast⟩

/-! ### Trees with the same outline -/

/-- Two trees have directories and files at the same locations, whatever is in the files. -/
def SameOutline (t t' : Tree) : Prop :=
  ∀ l, (t.node? l).map Node.isFile = (t'.node? l).map Node.isFile

namespace SameOutline

variable {t' : Tree}

/-- The same stands at a location in both trees. -/
theorem cases (h : t.SameOutline t') (l : Location) :
    (t.node? l = none ∧ t'.node? l = none) ∨
    (t.node? l = some .directory ∧ t'.node? l = some .directory) ∨
    ∃ content kind content' kind', t.node? l = some (.file content kind) ∧
      t'.node? l = some (.file content' kind') := by
  have hl := h l
  cases hnode : t.node? l with
  | none =>
    rw [hnode, Option.map_none, eq_comm, Option.map_eq_none_iff] at hl
    exact .inl ⟨rfl, hl⟩
  | some node =>
    rw [hnode, Option.map_some, eq_comm, Option.map_eq_some_iff] at hl
    obtain ⟨node', hnode', hfile⟩ := hl
    cases node <;> cases node' <;> simp_all [Node.isFile]

/-- Pieces lead to the same location. -/
theorem walk_eq (h : t.SameOutline t') (l : Location) (pieces : List Text) :
    t.walk l pieces = t'.walk l pieces := by
  induction pieces generalizing l with
  | nil => rfl
  | cons piece rest ih =>
    have hbelow : (t.node? (l ++ [piece])).isNone = (t'.node? (l ++ [piece])).isNone := by
      have hsame := congrArg Option.isNone (h (l ++ [piece]))
      rwa [Option.isNone_map, Option.isNone_map] at hsame
    obtain ⟨hnone, hnone'⟩ | ⟨hdir, hdir'⟩ | ⟨_, _, _, _, hfile, hfile'⟩ := h.cases l
    · rw [walk, walk, hnone, hnone']
    · rw [walk, walk, hdir, hdir', hbelow]
      simp only [ih]
    · rw [walk, walk, hfile, hfile']

theorem locate_eq (h : t.SameOutline t') (cwd : Location) (path : Path) :
    t.locate cwd path = t'.locate cwd path := by
  rw [locate, locate, h.walk_eq]

theorem isFile_eq (h : t.SameOutline t') (cwd : Location) (path : Path) :
    t.isFile cwd path = t'.isFile cwd path := by
  rw [isFile, isFile, h.locate_eq]
  cases t'.locate cwd path with
  | error cause => rfl
  | ok l =>
    have hl := congrArg (Option.any id) (h l)
    rwa [Option.any_map, Option.any_map] at hl

end SameOutline

end Golden.Tree
