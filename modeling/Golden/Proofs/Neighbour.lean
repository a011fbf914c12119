import Golden.Proofs.Pipeline
import Golden.Proofs.Walk

/-!
# The configuration beside a subject

The configuration for a test case is looked for by the spelling of its path, in the directory of the
path; the subject is run where the file of the test case really lies. These are one directory,
however the path is spelled, and so a configuration that lies there is found. The only exception is
a path so long that the name of a configuration does not fit where that of the test case did.

## Main definitions

* `Tree.HoldsFile` — a directory holds a regular file of some name
* `Settings.InReach` — the places for a configuration are no longer than a path may be

## Main results

* `Settings.isFile_join_iff` — when a configuration is found under a name
* `World.settings_lie_beside_subject` — the configuration is found where the subject is run
-/

namespace Golden

variable {w : World} {testCase path : Path} {place dir : Location} {bytes : Bytes} {name : Text}

/-- A directory holds a regular file of some name. -/
def Tree.HoldsFile (t : Tree) (dir : Location) (name : Text) : Prop :=
  ∃ content kind, t.node? (dir ++ [name]) = some (.file content kind)

namespace Settings

/-- The places at which the configuration for a test case may lie are no longer than a path may be.
-/
def InReach (testCase : Path) : Prop :=
  ∀ path ∈ candidates testCase, (Utf8.encode path).length ≤ Tree.maxPath

theorem isName_of_mem_fileNames (h : name ∈ fileNames) :
    Tree.IsName name ∧ '/' ∉ name ∧ '\x00' ∉ name := by
  have hall : ∀ name ∈ fileNames, (Path.isStep name = true ∧ name ≠ ['.', '.'] ∧
      (Utf8.encode name).length ≤ Tree.maxName) ∧ '/' ∉ name ∧ '\x00' ∉ name := by
    decide
  obtain ⟨⟨hstep, habove, hshort⟩, hplain⟩ := hall name h
  exact ⟨⟨hstep, habove, hshort⟩, hplain⟩

/-- The names of configurations are equally long, and so all the places for one are. -/
theorem length_join_fileName (h : name ∈ fileNames) (testCase : Path) :
    (Utf8.encode (Path.join (Path.directory testCase) name)).length =
      (Utf8.encode (Path.slashed (Path.directory testCase))).length + 13 := by
  have hall : ∀ name ∈ fileNames, (Utf8.encode name).length = 13 := by decide
  have hjoin : Path.join (Path.directory testCase) name =
      Path.slashed (Path.directory testCase) ++ name := by
    simp [Path.join, Path.directory_ne_nil]
  rw [hjoin, Utf8.encode, List.flatMap_append, List.length_append]
  exact congrArg _ (hall name h)

theorem inReach_iff (h : name ∈ fileNames) :
    InReach testCase ↔
      (Utf8.encode (Path.join (Path.directory testCase) name)).length ≤ Tree.maxPath := by
  constructor
  · intro hreach
    exact hreach _ (List.mem_map_of_mem h)
  · intro hshort path hpath
    obtain ⟨other, hother, rfl⟩ := List.mem_map.mp hpath
    rwa [length_join_fileName hother, ← length_join_fileName h]

/-- A configuration is found under a name if one lies in the directory of the test case, and its
place is in reach. -/
theorem isFile_join_iff (hdir : w.tree.locate w.directory (Path.directory testCase) = .ok dir)
    (hnode : w.tree.node? dir = some .directory) (hname : name ∈ fileNames) :
    w.isFile (Path.join (Path.directory testCase) name) = true ↔
      InReach testCase ∧ w.tree.HoldsFile dir name := by
  obtain ⟨hplain, hslash, hnul⟩ := isName_of_mem_fileNames hname
  rw [World.isFile_iff, inReach_iff hname]
  simp only [World.HasFile, Tree.locate_join_eq_ok_iff hdir hnode hplain hslash hnul]
  constructor
  · intro h
    obtain ⟨place, content, ⟨hshort, rfl, -⟩, kind, hfile⟩ := h
    exact ⟨hshort, content, kind, hfile⟩
  · intro h
    obtain ⟨hshort, content, kind, hfile⟩ := h
    exact ⟨dir ++ [name], content, ⟨hshort, rfl, by rw [hfile]; rfl⟩, kind, hfile⟩

/-- A configuration is found if one of its names is that of a file in the directory of the test
case, and the places for one are in reach. -/
theorem isSome_locate_iff (hdir : w.tree.locate w.directory (Path.directory testCase) = .ok dir)
    (hnode : w.tree.node? dir = some .directory) :
    (locate w testCase).isSome = true ↔
      InReach testCase ∧ ∃ file ∈ fileNames, w.tree.HoldsFile dir file := by
  rw [locate, List.find?_isSome]
  constructor
  · intro h
    obtain ⟨path, hpath, hfile⟩ := h
    obtain ⟨file, hmem, rfl⟩ := List.mem_map.mp hpath
    obtain ⟨hreach, hholds⟩ := (isFile_join_iff hdir hnode hmem).mp hfile
    exact ⟨hreach, file, hmem, hholds⟩
  · intro h
    obtain ⟨hreach, file, hmem, hholds⟩ := h
    exact ⟨_, List.mem_map_of_mem hmem, (isFile_join_iff hdir hnode hmem).mpr ⟨hreach, hholds⟩⟩

/-- What is found is one of the places for a configuration, and a file lies there. -/
theorem exists_of_locate (hdir : w.tree.locate w.directory (Path.directory testCase) = .ok dir)
    (hnode : w.tree.node? dir = some .directory) (h : locate w testCase = some path) :
    ∃ file ∈ fileNames, path = Path.join (Path.directory testCase) file ∧
      ∃ content, w.HasFile path (dir ++ [file]) content := by
  obtain ⟨file, hmem, rfl⟩ := List.mem_map.mp (List.mem_of_find?_eq_some h)
  obtain ⟨hplain, hslash, hnul⟩ := isName_of_mem_fileNames hmem
  obtain ⟨place, content, hhas⟩ := World.isFile_iff.mp (List.find?_some h)
  obtain ⟨-, rfl, -⟩ := (Tree.locate_join_eq_ok_iff hdir hnode hplain hslash hnul).mp hhas.1
  exact ⟨file, hmem, rfl, content, hhas⟩

end Settings

namespace World

/-- **The configuration lies where the subject is run.** However the path of a test case is spelled,
its directory leads to the directory that contains the file of the test case. This is where the
subject is run, with the name of that file as its argument, and where the configuration is looked
for: if a file of one of its names is there it is found, the first name going before the other,
unless the path for it would be longer than a path may be; then none is found. -/
theorem settings_lie_beside_subject (hdirectory : w.tree.IsDirectory w.directory)
    (hfile : w.HasFile testCase place bytes) :
    ∃ dir name, place = dir ++ [name] ∧ w.tree.IsDirectory dir ∧
      w.tree.locate w.directory (Path.directory testCase) = .ok dir ∧
      (∀ exe stdin o program order, w.order exe testCase stdin o = .ok (program, order) →
        order.directory = dir ∧ order.arguments = [name]) ∧
      (∀ path, Settings.locate w testCase = some path → ∃ file ∈ Settings.fileNames,
        path = Path.join (Path.directory testCase) file ∧
          ∃ content, w.HasFile path (dir ++ [file]) content) ∧
      (Settings.InReach testCase →
        ((Settings.locate w testCase).isSome ↔
          ∃ file ∈ Settings.fileNames, w.tree.HoldsFile dir file) ∧
        (w.tree.HoldsFile dir "checkrun.yaml".toList → Settings.locate w testCase =
          some (Path.join (Path.directory testCase) "checkrun.yaml".toList))) ∧
      (¬ Settings.InReach testCase → Settings.locate w testCase = none) := by
  obtain ⟨hplace, kind, hnode⟩ := id hfile
  have hnot : w.tree.node? place ≠ some .directory := by simp [hnode]
  obtain ⟨dir, name, rfl, hdir, hlocate⟩ := Tree.locate_directory hdirectory hplace hnot
  have hsome := Settings.isSome_locate_iff hlocate hdir.node?
  refine ⟨dir, name, rfl, hdir, hlocate, ?_, ?_, fun hreach => ⟨?_, fun hyaml => ?_⟩, ?_⟩
  · intro exe stdin o program order horder
    obtain ⟨-, input, -, rfl⟩ := (order_eq_ok_iff hfile).mp horder
    simp [Execution.orderAt]
  · intro path
    exact Settings.exists_of_locate hlocate hdir.node?
  · rw [hsome]
    exact and_iff_right hreach
  · -- The first name is looked for first.
    have hfirst :=
      (Settings.isFile_join_iff hlocate hdir.node? List.mem_cons_self).mpr ⟨hreach, hyaml⟩
    rw [Settings.locate, Settings.candidates, Settings.fileNames, List.map_cons,
      List.find?_cons_of_pos hfirst]
  · intro hfar
    rw [← Option.not_isSome_iff_eq_none, hsome]
    exact fun h => hfar h.1

/-- A subject's directory beside another one, in which there are a test case `c`, a directory with
the first name of a configuration and a file with the second. -/
def crooked : World where
  tree := ⟨[([['w']], .directory), ([['w'], ['s']], .directory), ([['w'], ['d']], .directory),
    ([['w'], ['d'], ['c']], .file [] .plain),
    ([['w'], ['d'], "checkrun.yaml".toList], .directory),
    ([['w'], ['d'], "checkrun.toml".toList], .file [] .plain)]⟩
  directory := [['w'], ['s']]
  environ := []
  programs := .unknown

/-- A roundabout path leads to the test case, and its directory to the file beside it. -/
theorem settings_lie_beside_subject_crooked :
    crooked.tree.IsDirectory crooked.directory ∧
      crooked.HasFile "..//./s/../d/./c".toList [['w'], ['d'], ['c']] [] ∧
      crooked.tree.locate crooked.directory (Path.directory "..//./s/../d/./c".toList) =
        .ok [['w'], ['d']] ∧
      Settings.InReach "..//./s/../d/./c".toList ∧
      (Settings.locate crooked "..//./s/../d/./c".toList).isSome = true := by
  have hroot := Tree.isDirectory_nil crooked.tree
  have hparent : crooked.tree.IsDirectory [['w']] := Tree.isDirectory_concat_iff.mpr ⟨hroot, rfl⟩
  have hdirectory : crooked.tree.IsDirectory crooked.directory :=
    Tree.isDirectory_concat_iff.mpr ⟨hparent, rfl⟩
  have hfile : crooked.HasFile "..//./s/../d/./c".toList [['w'], ['d'], ['c']] [] :=
    ⟨by decide +kernel, .plain, rfl⟩
  have hreach : Settings.InReach "..//./s/../d/./c".toList := by
    rw [Settings.InReach]
    decide +kernel
  obtain ⟨dir, name, hplace, -, hlocate, -, -, hfound, -⟩ :=
    settings_lie_beside_subject hdirectory hfile
  have hsplit : [['w'], ['d']] ++ [['c']] = dir ++ [name] := hplace
  obtain ⟨rfl, -⟩ := List.append_inj' hsplit rfl
  have hholds : crooked.tree.HoldsFile [['w'], ['d']] "checkrun.toml".toList := ⟨[], .plain, rfl⟩
  exact ⟨hdirectory, hfile, hlocate, hreach, (hfound hreach).1.mpr ⟨_, by decide, hholds⟩⟩

end World

/-! ### Paths that are too long -/

/-- A path behind some number of components `.`. -/
def Path.windingTo (path : Path) : Nat → Path
  | 0 => path
  | n + 1 => '.' :: '/' :: windingTo path n

namespace Path

theorem pieces_windingTo (path : Path) (n : Nat) :
    pieces (path.windingTo n) = List.replicate n ['.'] ++ pieces path := by
  induction n with
  | zero => rfl
  | succ n ih =>
    have hslash : pieces (['.'] ++ '/' :: path.windingTo n) =
        [['.']] ++ pieces (path.windingTo n) := pieces_append_slash ['.'] _
    rw [windingTo]
    exact hslash.trans (by rw [ih]; rfl)

theorem length_encode_windingTo (path : Path) (n : Nat) :
    (Utf8.encode (path.windingTo n)).length = 2 * n + (Utf8.encode path).length := by
  induction n with
  | zero => simp [windingTo]
  | succ n ih =>
    have hdot : Utf8.encode (path.windingTo (n + 1)) =
        Utf8.encode ['.', '/'] ++ Utf8.encode (path.windingTo n) := rfl
    rw [hdot, List.length_append, ih]
    have htwo : (Utf8.encode ['.', '/']).length = 2 := by decide
    omega

theorem nul_not_mem_windingTo (h : '\x00' ∉ path) (n : Nat) : '\x00' ∉ path.windingTo n := by
  induction n with
  | zero => exact h
  | succ n ih => simp [windingTo, ih]

/-- The directory of a winding path winds as much. -/
theorem directory_windingTo (n : Nat) :
    directory (windingTo ['d', '/', 'c'] (n + 1)) = windingTo ['d'] (n + 1) := by
  -- Behind the component `.` that the path begins with, its pieces are those of its directory and
  -- a name.
  have hpieces (path : Path) : pieces ('/' :: path.windingTo n) =
      ([] :: List.replicate n ['.']) ++ pieces path := by
    rw [List.cons_append, ← pieces_windingTo]
    rfl
  have hname : (pieces ('/' :: windingTo ['d', '/', 'c'] n)).reverse =
      ['c'] :: (pieces ('/' :: windingTo ['d'] n)).reverse := by
    have hboth : pieces ['d', '/', 'c'] = pieces ['d'] ++ [['c']] := rfl
    rw [hpieces, hpieces, hboth, ← List.append_assoc, List.reverse_concat]
  have hdirectory : dropIdle (pieces ('/' :: windingTo ['d'] n)).reverse =
      (pieces ('/' :: windingTo ['d'] n)).reverse := by
    have hone : pieces ['d'] = [['d']] := rfl
    rw [hpieces, hone, List.reverse_concat]
    rfl
  have hdrop : dropIdle (pieces ('/' :: windingTo ['d', '/', 'c'] n)).reverse =
      ['c'] :: (pieces ('/' :: windingTo ['d'] n)).reverse := by
    rw [hname]
    rfl
  have hanchor : anchorLength (windingTo ['d', '/', 'c'] (n + 1)) = 1 := rfl
  have hbehind : (windingTo ['d', '/', 'c'] (n + 1)).drop 1 =
      '/' :: windingTo ['d', '/', 'c'] n := rfl
  have hparent : parent? (windingTo ['d', '/', 'c'] (n + 1)) = some (windingTo ['d'] (n + 1)) := by
    simp only [parent?, hanchor, hbehind, hdrop, hdirectory, List.reverse_reverse, ofPieces_pieces]
    rfl
  simp only [directory, hparent]
  rfl

end Path

namespace World

/-- A directory in which a test case `c` and a configuration lie. -/
def distant : World where
  tree := ⟨[([['d']], .directory), ([['d'], ['c']], .file [] .plain),
    ([['d'], "checkrun.yaml".toList], .file [] .plain)]⟩
  directory := []
  environ := []
  programs := .unknown

/-- The path of the test case is just short enough to be followed, and that of the configuration
beside it is too long, so that it is not found. -/
theorem settings_out_of_reach_distant :
    distant.tree.IsDirectory distant.directory ∧
      distant.HasFile (Path.windingTo ['d', '/', 'c'] 2043) ([['d']] ++ [['c']]) [] ∧
      ¬ ((Settings.locate distant (Path.windingTo ['d', '/', 'c'] 2043)).isSome ↔
        ∃ file ∈ Settings.fileNames, distant.tree.HoldsFile [['d']] file) := by
  have hroot : distant.tree.IsDirectory distant.directory := Tree.isDirectory_nil _
  have hfile : distant.HasFile (Path.windingTo ['d', '/', 'c'] 2043) ([['d']] ++ [['c']]) [] := by
    refine ⟨Tree.locate_eq_ok_iff.mpr ⟨?_, List.cons_ne_nil _ _, ?_, ?_⟩, .plain, rfl⟩
    · exact Path.nul_not_mem_windingTo (by decide) 2043
    · rw [Path.length_encode_windingTo]
      decide
    · rw [Path.pieces_windingTo, Tree.walk_append_eq_ok_iff]
      -- The components in front lead nowhere.
      have hidle (n : Nat) : (List.replicate n ['.']).filter Path.isStep = [] := by
        simp [Path.isStep]
      refine ⟨[], Tree.walk_of_filter_isStep ?_ hroot.node?, by decide⟩
      rw [hidle]
      rfl
  have hfar : ¬ Settings.InReach (Path.windingTo ['d', '/', 'c'] 2043) := by
    have hne : Path.windingTo ['d'] 2043 ≠ [] := List.cons_ne_nil _ _
    obtain ⟨slash, -, hjoin⟩ := Path.exists_join_eq hne "checkrun.yaml".toList
    have hlength : (Utf8.encode (Path.windingTo ['d'] 2043)).length = 2 * 2043 + 1 :=
      Path.length_encode_windingTo ['d'] 2043
    have hname : (Utf8.encode "checkrun.yaml".toList).length = 13 := by decide
    rw [Settings.inReach_iff List.mem_cons_self, Path.directory_windingTo, hjoin, Utf8.encode,
      List.flatMap_append, List.flatMap_append, List.length_append, List.length_append,
      ← Utf8.encode, ← Utf8.encode, ← Utf8.encode, hlength, hname, Tree.maxPath]
    omega
  have hholds : distant.tree.HoldsFile [['d']] "checkrun.yaml".toList := ⟨[], .plain, rfl⟩
  obtain ⟨dir, name, -, -, -, -, -, -, hnone⟩ := settings_lie_beside_subject hroot hfile
  refine ⟨hroot, hfile, fun h => ?_⟩
  have hsome := h.mpr ⟨_, List.mem_cons_self, hholds⟩
  rw [hnone hfar] at hsome
  exact Bool.noConfusion hsome

end World

end Golden
