import Golden.Behaviour

/-!
# The world of a run

What everything here depends on besides its arguments: the files, the directory from which relative
paths are followed, the environment of the runner, and what the programs of the system do. Nothing
changes it.

## Main definitions

* `World` — files, directory, environment and programs
* `World.isFile`, `World.require`, `World.readText`, `World.readBytes` — the files that a path names
* `World.locate`, `World.absolute` — where a path leads
-/

namespace Golden

/-- The files, the directory from which relative paths are followed, the environment, and the
programs. -/
structure World where
  tree : Tree
  directory : Location
  environ : Environment
  programs : Programs

namespace World

/-- Whether a path names a regular file. -/
def isFile (w : World) (path : Path) : Bool :=
  w.tree.isFile w.directory path

/-- A path has to name a regular file. -/
def require (w : World) (path : Path) : Except Fault Unit :=
  if w.isFile path then .ok () else .error (.inputNotFound path)

/-- The content of the regular file that a path names. -/
def readBytes (w : World) (path : Path) : Except Fault Bytes :=
  (w.tree.readBytes w.directory path).mapError (Fault.unreadable path)

/-- The text of the regular file that a path names. -/
def readText (w : World) (path : Path) : Except Fault Text :=
  (w.tree.readText w.directory path).mapError (Fault.unreadable path)

/-- Where a path leads. -/
def locate (w : World) (path : Path) : Except Fault Location :=
  (w.tree.locate w.directory path).mapError (Fault.unresolvable path)

/-- A path that means the same from every directory. -/
def absolute (w : World) (path : Path) : Except Fault Path :=
  match Path.absolute w.directory.path path with
  | some whole => .ok whole
  | none => .error (.unresolvable path .emptyPath)

end World

end Golden
