import Golden.Fault
import Golden.Subject.Script
import Golden.Text.Utf8

/-!
# File trees

The directories and regular files below a root, without symbolic links. A path is followed piece by
piece from where it starts; every piece but the last has to lead to a directory, and so does the
last one if a slash comes behind it.

## Main definitions

* `Location` — the names that lead from the root to a node
* `Node` — a directory, or a regular file with its content and kind
* `Tree` — the nodes by their locations
* `Tree.put`, `Tree.remove` — writing and deleting
* `Tree.locate` — where a path leads
* `Tree.isFile`, `Tree.kind`, `Tree.readText` — what a path names, and the text of a file

## Main results

* `Tree.node?_remove_self`, `Tree.node?_replace_self` — what is found at a location after a change
* `Tree.node?_remove_of_ne`, `Tree.node?_replace_of_ne` — a change touches no other location
-/

namespace Golden

/-- The names that lead from the root to a node. -/
abbrev Location := List Text

/-- The path of a location. -/
def Location.path (l : Location) : Path :=
  if l = [] then ['/'] else l.flatMap ('/' :: ·)

/-- The locations above a location, the root first. -/
def Location.above (l : Location) : List Location :=
  (List.range l.length).map (l.take ·)

/-- What the system does with a regular file that it is told to run. -/
inductive FileKind where
  /-- It is not executable. -/
  | plain
  /-- It is executable; what it does is up to the system. -/
  | executable
  /-- It is a program that acts by a script. -/
  | scripted (script : Script)

/-- A node of a tree. -/
inductive Node where
  | directory
  | file (content : Bytes) (kind : FileKind)

/-- Whether a node is a regular file. -/
def Node.isFile : Node → Bool
  | directory => false
  | file _ _ => true

/-- What kind of file a node is; a directory is none. -/
def Node.kind? : Node → Option FileKind
  | directory => none
  | file _ kind => some kind

/-- The nodes below a root, by their locations; the root itself is a directory. -/
structure Tree where
  entries : List (Location × Node)

namespace Tree

/-- The tree of a root without anything below it. -/
def empty : Tree := ⟨[]⟩

/-- The node at a location. -/
def node? (t : Tree) (l : Location) : Option Node :=
  if l = [] then some .directory else t.entries.lookup l

/-- Delete what stands at a location. -/
def remove (t : Tree) (l : Location) : Tree :=
  ⟨t.entries.filter (·.1 != l)⟩

/-- Put a node at a location, in the place of what stands there. -/
def replace (t : Tree) (l : Location) (node : Node) : Tree :=
  ⟨(l, node) :: (t.remove l).entries⟩

theorem lookup_filter_self (l : Location) (entries : List (Location × Node)) :
    (entries.filter (·.1 != l)).lookup l = none := by
  rw [List.lookup_eq_none_iff]
  intro e he
  have h := (List.mem_filter.1 he).2
  rw [bne_iff_ne] at h
  simp [Ne.symm h]

theorem lookup_filter_of_ne {l k : Location} (h : k ≠ l) (entries : List (Location × Node)) :
    (entries.filter (·.1 != l)).lookup k = entries.lookup k := by
  induction entries with
  | nil => rfl
  | cons e rest ih =>
    rcases e with ⟨place, node⟩
    by_cases he : place = l
    · have hk : (k == place) = false := by simpa [he] using h
      rw [List.filter_cons_of_neg (by simp [he]), ih, List.lookup_cons, hk]
    · rw [List.filter_cons_of_pos (by simp [he]), List.lookup_cons, List.lookup_cons, ih]

/-- Nothing is left at a location where something was deleted. -/
theorem node?_remove_self {l : Location} (h : l ≠ []) (t : Tree) :
    (t.remove l).node? l = none := by
  simp [node?, remove, h, lookup_filter_self]

/-- Deleting touches no other location. -/
theorem node?_remove_of_ne {l k : Location} (h : k ≠ l) (t : Tree) :
    (t.remove l).node? k = t.node? k := by
  simp [node?, remove, lookup_filter_of_ne h]

/-- A node is found where it was put. -/
theorem node?_replace_self {l : Location} (h : l ≠ []) (t : Tree) (node : Node) :
    (t.replace l node).node? l = some node := by
  simp [node?, replace, h]

/-- Putting a node touches no other location. -/
theorem node?_replace_of_ne {l k : Location} (h : k ≠ l) (t : Tree) (node : Node) :
    (t.replace l node).node? k = t.node? k := by
  have hk : (k == l) = false := by simpa using h
  simp [node?, replace, List.lookup_cons, hk, remove, lookup_filter_of_ne h]

/-- Make a directory at a location, unless something stands there. -/
def ensure (t : Tree) (l : Location) : Tree :=
  if (t.node? l).isSome then t else t.replace l .directory

/-- Put a node at a location, and directories on the way to it where there is nothing. -/
def put (t : Tree) (l : Location) (node : Node) : Tree :=
  ((Location.above l).foldl ensure t).replace l node

/-- The greatest number of bytes in a name. -/
def maxName : Nat := 255

/-- The greatest number of bytes in a path. -/
def maxPath : Nat := 4095

/-- Follow pieces of a path from a location on. -/
def walk (t : Tree) : Location → List Text → Except Cause Location
  | l, [] => .ok l
  | l, piece :: rest =>
    match t.node? l with
    | none => .error .noSuchFile
    | some (.file _ _) => .error .notDirectory
    | some .directory =>
      if !Path.isStep piece then walk t l rest
      else if piece = ['.', '.'] then walk t l.dropLast rest
      else if maxName < (Utf8.encode piece).length then .error .nameTooLong
      else if (t.node? (l ++ [piece])).isNone then .error .noSuchFile
      else walk t (l ++ [piece]) rest

/-- Where a path leads from a directory; there is a node at the location that this answers. -/
def locate (t : Tree) (cwd : Location) (path : Path) : Except Cause Location :=
  if '\x00' ∈ path then .error .nulInName
  else if path = [] then .error .noSuchFile
  else if maxPath < (Utf8.encode path).length then .error .nameTooLong
  else t.walk (if Path.isAbsolute path then [] else cwd) (Path.pieces path)

/-- Whether a path names a regular file. -/
def isFile (t : Tree) (cwd : Location) (path : Path) : Bool :=
  match t.locate cwd path with
  | .error _ => false
  | .ok l => (t.node? l).any Node.isFile

/-- What kind of file a path names; a directory is none. -/
def kind (t : Tree) (cwd : Location) (path : Path) : Except Cause (Option FileKind) :=
  (t.locate cwd path).map fun l => (t.node? l).bind Node.kind?

/-- The content of the regular file that a path names. -/
def readBytes (t : Tree) (cwd : Location) (path : Path) : Except Cause Bytes := do
  match t.node? (← t.locate cwd path) with
  | none => .error .noSuchFile
  | some .directory => .error .isDirectory
  | some (.file content _) => .ok content

/-- The text of the regular file that a path names. -/
def readText (t : Tree) (cwd : Location) (path : Path) : Except Cause Text := do
  match Utf8.decode? (← t.readBytes cwd path) with
  | none => .error .notText
  | some text => .ok text

end Tree

end Golden
