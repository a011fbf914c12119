import Golden.Launch
import Golden.Settings
import Golden.World

/-!
# Execution

The subject is run once on a test case: in the directory of the test case, with the name of its file
as the only argument, and with a file as input if one is given. Nothing is started before the test
case and the input are known to be regular files.

The output runs through one pipe if it is captured together, and through one pipe a stream if it is
captured apart. First the subject is waited for and then the pipes are read, each to its end, which
comes when nothing holds the pipe open any more. One limit bounds all of this: a subject that does
not end within it, or leaves something behind that holds a pipe open, has no outcome but a fault. If
there is no limit, what is left behind is waited for until it closes the pipes, and a subject that
never ends is waited for without end: then there is no answer, not even a fault.

## Main definitions

* `Execution.environment` — the environment that the subject gets
* `Pipe`, `Trace.mergedPipe`, `Trace.pipe` — what the output of a run goes through
* `Execution.proceed` — going on from a stage that may fail to one that may never answer
* `Execution.wait`, `Execution.collect` — waiting for the end of a subject, and for that of a pipe
* `Execution.outcome` — what is captured of a run
* `World.launch` — the run of a subject on a test case
* `World.execute` — the outcome of that run
-/

namespace Golden

/-- A pipe that carries output: the bytes that were written to it, and whether something still holds
it open. -/
structure Pipe where
  bytes : Bytes
  held : Bool

/-- The one pipe of a run whose two streams are captured together. -/
def Trace.mergedPipe (t : Trace) : Pipe :=
  ⟨t.merged, t.held⟩

/-- The pipe of one stream of a run whose streams are captured apart. -/
def Trace.pipe (stream : Stream) (t : Trace) : Pipe :=
  ⟨t.only stream, t.holds stream⟩

namespace Execution

/-- The environment that the subject gets: what is configured, and behind it what is inherited. -/
def environment (environ : Environment) (o : RunOptions) : Environment :=
  o.env.entries.map (fun v => (v.1, Utf8.encode v.2)) ++ if o.inheritEnv then environ else []

/-- Go on with the answer of a stage, unless it fails. What comes next may never answer. -/
def proceed {α β : Type} (stage : Except Fault α) (next : α → Option (Except Fault β)) :
    Option (Except Fault β) :=
  match stage with
  | .ok answer => next answer
  | .error fault => some (.error fault)

/-- Wait until a run has ended. Without a limit, nobody comes back from a run that never does. -/
def wait (limit : Option Duration) (t : Trace) : Option (Except Fault Termination) :=
  match t.ending, limit with
  | some ending, _ => some (.ok ending)
  | none, some limit => some (.error (.timeout limit))
  | none, none => none

/-- Read a pipe to its end. Without a limit, whatever holds the pipe open is waited for. -/
def collect (limit : Option Duration) (p : Pipe) : Except Fault Bytes :=
  match limit with
  | none => .ok p.bytes
  | some limit => if p.held then .error (.timeout limit) else .ok p.bytes

/-- What is captured of a run that has ended, once its pipes are read. -/
def gather (o : RunOptions) (t : Trace) (ending : Termination) : Except Fault Outcome :=
  match o.capture with
  | .merged => do
    let output ← collect o.limit t.mergedPipe
    return ⟨Outcome.linesOf output, [], ending⟩
  | .separate => do
    let output ← collect o.limit (t.pipe .out)
    let errors ← collect o.limit (t.pipe .err)
    return ⟨Outcome.linesOf output, Outcome.linesOf errors, ending⟩

/-- The outcome of a run, or the fault that it goes on for too long; nothing for a run that is
waited for without end. -/
def outcome (o : RunOptions) (t : Trace) : Option (Except Fault Outcome) :=
  (wait o.limit t).map (·.bind (gather o t))

/-- The content of the file that is given as input; nothing without one. -/
def input (w : World) : Option Path → Except Fault Bytes
  | none => .ok []
  | some path => w.readBytes path

end Execution

namespace World

open Execution

/-- What the subject is started with, and the path of its program, once the test case and the input
are known to be regular files. -/
def order (w : World) (exe testCase : Path) (stdin : Option Path) (o : RunOptions) :
    Except Fault (Path × Launch.Order) := do
  let program ← w.absolute exe
  let case ← w.locate testCase
  let input ← Execution.input w stdin
  return (program,
    { arguments := case.getLast?.toList
      directory := case.dropLast
      input := input
      environ := environment w.environ o })

/-- The run of a subject that is started on a test case. -/
def launch (w : World) (exe testCase : Path) (stdin : Option Path) (o : RunOptions) :
    Except Fault Trace := do
  w.require testCase
  stdin.forM w.require
  let (program, order) ← w.order exe testCase stdin o
  (Launch.run w.programs w.tree order program).mapError (Fault.launch program)

/-- The outcome of running a subject on a test case; nothing if it is waited for without end. -/
def execute (w : World) (exe testCase : Path) (stdin : Option Path) (o : RunOptions) :
    Option (Except Fault Outcome) :=
  proceed (w.launch exe testCase stdin o) (outcome o)

end World

end Golden
