import Golden.Session

/-!
# The program

Reads the files that a command line names, and those at which the executable looks, into a tree,
asks for the report on it, and prints the report. What happens in between is decided without any
input or output. What the executables of the system do is handed in.

## Main definitions

* `Program.paths` — the paths that a command line depends on
* `Program.explore` — the files at which a program looks
* `Program.world` — the files and the environment that a command line depends on
* `Program.carryOut` — the program
-/

namespace Golden.Program

/-- The paths that a command line depends on. -/
def paths (i : Invocation) : List Path :=
  [i.executable, i.testCase] ++ i.stdin.toList ++ Settings.candidates i.testCase

/-- Put a node where a path leads, and directories at every place that the path goes through. -/
def lay (t : Tree) (cwd : Location) (path : Path) (node : Node) : Tree :=
  let base := if Path.isAbsolute path then [] else cwd
  let steps := Path.steps path
  let through := (List.range steps.length).map fun n =>
    Change.place base (Path.ofPieces (steps.take n))
  (through.foldl Tree.ensure t).put (Change.place base path) node

/-- Add what a path names to a tree, if it names anything. -/
def add (cwd : Location) (t : Tree) (path : Path) : IO Tree := do
  let place := (← IO.currentDir) / String.ofList cwd.path / String.ofList path
  try
    match (← place.metadata).type with
    | .dir => return lay t cwd path .directory
    | _ => return lay t cwd path (.file (← IO.FS.readBinFile place).toList .executable)
  catch _ => return t

/-- Add what a program looks at to a tree. -/
def explore (cwd : Location) : Behaviour → Tree → IO Tree
  | .ends _, t => return t
  | .find path next, t => do
    let t ← add cwd t path
    explore cwd (next (t.kind cwd path)) t
  | .read path next, t => do
    let t ← add cwd t path
    explore cwd (next (t.readBytes cwd path)) t

/-- The variables of the environment that a configuration refers to. -/
def environment (settings : Option (Path × Settings)) : IO Environment := do
  let values := (settings.map fun s => s.2.env.entries.map Prod.snd).getD []
  let entries ← (values.flatMap Template.names).mapM fun name => do
    return (← IO.getEnv (String.ofList name)).map fun value => (name, Utf8.encode value.toList)
  return entries.filterMap id

/-- What the executable of a command line is started with, and its path. -/
def order (w : World) (i : Invocation) : Except Fault (Path × Launch.Order) := do
  let settings ← w.effective i.testCase ⟨i.timeout, i.separateStderr⟩
  w.order i.executable i.testCase i.stdin settings.runOptions

/-- The files and the environment that a command line depends on. -/
def world (programs : Programs) (i : Invocation) : IO World := do
  let cwd := Path.steps (← IO.currentDir).toString.toList
  let tree ← (paths i).foldlM (add cwd) (Tree.empty.put cwd .directory)
  let files : World := ⟨tree, cwd, [], programs⟩
  match Settings.loadFor files i.testCase with
  | .error _ => return files
  | .ok settings =>
    let known := { files with environ := ← environment settings }
    match order known i with
    | .error _ => return known
    | .ok (program, order) =>
      return { known with tree := ← explore order.directory (programs order program) tree }

/-- The remarks about the test case of a command line. -/
def remarks (w : World) (i : Invocation) : List Text :=
  match TestCase.load w i.testCase with
  | .error _ => []
  | .ok case => (Directive.warnings case.directives).map Directive.Warning.message

/-- Print a report and answer its exit code. -/
def tell (r : Report) : IO UInt32 := do
  IO.print (String.ofList r.output)
  return UInt32.ofNat r.exitCode

/-- Carry out a command line and answer its exit code, if there is a report. -/
def carryOut (programs : Programs) (arguments : List Text) : IO (Option UInt32) := do
  match CommandLine.read arguments with
  | .run i =>
    let w ← world programs i
    for remark in remarks w i do
      IO.eprintln (String.ofList remark)
    (w.report arguments).mapM tell
  | _ => (World.report ⟨.empty, [], [], programs⟩ arguments).mapM tell

end Golden.Program
