import Golden.Environment
import Golden.Tree

/-!
# The behaviour of programs

What an executable does is up to the system: it may be machine code, or its first line may name a
program that interprets it, which may be a file of that sort itself. None of this is told here. What
is told is how a program depends on the files: it looks at some of them, one after the other, and
what it has seen so far decides where it looks next and what becomes of it in the end.

## Main definitions

* `Launch.Order` — what a program is started with
* `Behaviour` — where a program looks, and what becomes of it
* `Behaviour.run` — what becomes of it among given files
* `Programs` — the behaviour of all programs
-/

namespace Golden

/-- What a program is started with. -/
structure Launch.Order where
  arguments : List Text
  /-- Where the program runs. -/
  directory : Location
  input : Bytes
  /-- The environment of the program; the first value of a name counts. -/
  environ : Environment

/-- Where a program looks, and what becomes of it. -/
inductive Behaviour where
  /-- It has been run and has left a trace, or it cannot be run. -/
  | ends (result : Except Cause Trace)
  /-- It finds out where a path leads and what kind of file is there. -/
  | find (path : Path) (next : Except Cause (Option FileKind) → Behaviour)
  /-- It reads the file that a path names. -/
  | read (path : Path) (next : Except Cause Bytes → Behaviour)

/-- What becomes of a program that runs in a directory. -/
def Behaviour.run (t : Tree) (directory : Location) : Behaviour → Except Cause Trace
  | ends result => result
  | find path next => (next (t.kind directory path)).run t directory
  | read path next => (next (t.readBytes directory path)).run t directory

/-- The behaviour of the program that a path names, by what it is started with. -/
abbrev Programs := Launch.Order → Path → Behaviour

/-- The programs of a system that can run none. -/
def Programs.unknown : Programs :=
  fun _ _ => .ends (.error .execFormat)

end Golden
