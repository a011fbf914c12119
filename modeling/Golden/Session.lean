import Golden.Report

/-!
# Sessions

A session is a sequence of steps over one directory. A step first deletes and writes files there,
then asks one thing; its environment and its subject are there for that step alone. The answer looks
at the files and changes none of them. A step whose subject is waited for without end is not
answered, and keeps no other step from being asked.

## Main definitions

* `Change` — what a step does to the files
* `Query`, `Answer` — what a step asks for, and what it is told
* `World.answer` — the answer in a world
* `Step`, `Session` — a step, and the directory that the steps share
* `Session.run` — the answers to the steps

## Main results

* `Session.run_append` — a session goes on from the files that its steps have left
-/

namespace Golden

/-- What a step does to the files: some are deleted, and then some are written. -/
structure Change where
  removed : List Path
  written : List (Path × Node)

namespace Change

/-- The location of a path below a directory. -/
def place (base : Location) (path : Path) : Location :=
  (Path.steps path).foldl (fun l name => if name = ['.', '.'] then l.dropLast else l ++ [name]) base

/-- Delete the regular file at a location, if there is one. -/
def delete (t : Tree) (l : Location) : Tree :=
  if (t.node? l).any Node.isFile then t.remove l else t

/-- The files after a change below a directory. -/
def apply (base : Location) (t : Tree) (c : Change) : Tree :=
  let t := c.removed.foldl (fun t path => delete t (place base path)) t
  c.written.foldl (fun t w => t.put (place base w.1) w.2) t

end Change

/-- What a step asks for. -/
inductive Query where
  /-- The configuration in a file. -/
  | settings (path : Path)
  /-- The configuration that applies to a test case, and what it makes of the defaults. -/
  | applied (testCase : Path) (overrides : Overrides)
  /-- A test case. -/
  | testCase (path : Path)
  /-- The outcome of a run. -/
  | outcome (exe testCase : Path) (stdin : Option Path) (options : RunOptions)
  /-- What a command line leads to. -/
  | report (arguments : List Text)

/-- What is known about the configuration for a test case: where it lies, what is in it, and what
holds under it. -/
structure Applied where
  located : Option Path
  loaded : Except Fault (Option (Path × Settings))
  /-- What holds if the configuration can be loaded. -/
  effective : Except Fault Effective

/-- What a step is told; nothing about a subject that is waited for without end. -/
inductive Answer where
  | settings (answer : Except Fault Settings)
  | applied (answer : Applied)
  | testCase (answer : Except Fault TestCase)
  | outcome (answer : Option (Except Fault Outcome))
  | report (answer : Option Report)

/-- The answer in a world. -/
def World.answer (w : World) : Query → Answer
  | .settings path => .settings (Settings.load w path)
  | .applied testCase overrides =>
    .applied
      { located := Settings.locate w testCase
        loaded := Settings.loadFor w testCase
        effective := w.effective testCase overrides }
  | .testCase path => .testCase (TestCase.load w path)
  | .outcome exe testCase stdin options => .outcome (w.execute exe testCase stdin options)
  | .report arguments => .report (w.report arguments)

/-- A step of a session. -/
structure Step where
  change : Change
  environ : Environment
  /-- A program that is there for this step. -/
  subject : Option Script
  query : Query

/-- What the steps of a session share: a directory, the place of the program that a step may bring,
and the other programs. -/
structure Session where
  directory : Location
  subject : Location
  programs : Programs

namespace Session

/-- The files with the program of a step among them. -/
def withSubject (s : Session) (t : Tree) : Option Script → Tree
  | none => t
  | some script => t.put s.subject (.file [] (.scripted script))

/-- The world of a step over the files that its change has left. -/
def world (s : Session) (t : Tree) (step : Step) : World :=
  ⟨s.withSubject t step.subject, s.directory, step.environ, s.programs⟩

/-- The answers to steps that begin with the given files. -/
def run (s : Session) : Tree → List Step → List Answer
  | _, [] => []
  | t, step :: rest =>
    let t := step.change.apply s.directory t
    (s.world t step).answer step.query :: run s t rest

/-- The files that steps leave: those that their changes make of the first ones. -/
def filesAfter (s : Session) (t : Tree) (steps : List Step) : Tree :=
  steps.foldl (fun t step => step.change.apply s.directory t) t

/-- A session goes on from the files that its steps have left. -/
theorem run_append (s : Session) (t : Tree) (steps more : List Step) :
    s.run t (steps ++ more) = s.run t steps ++ s.run (s.filesAfter t steps) more := by
  induction steps generalizing t with
  | nil => rfl
  | cons step rest ih => simp [run, filesAfter, ih]

/-- Every step is told one thing. -/
theorem length_run (s : Session) (t : Tree) (steps : List Step) :
    (s.run t steps).length = steps.length := by
  induction steps generalizing t with
  | nil => rfl
  | cons step rest ih => simp [run, ih]

end Session

end Golden
