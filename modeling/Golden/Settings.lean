import Golden.Environment
import Golden.Fault
import Golden.Template
import Golden.Variables

/-!
# Settings

A configuration file gives defaults for the test cases beside it, the command line overrides the
file, and the file overrides what is built in. A flag can separate the two output streams but never
merge them again, and a limit of zero seconds is a setting and not an absence: it lifts the limit.

## Main definitions

* `Settings` — what a configuration file says
* `Overrides` — what the command line says
* `Effective` — what holds for a run
* `Settings.expandAll` — the variables of a configuration with their references put in
* `Effective.resolve` — file and command line put together
* `RunOptions` — what a run needs to know
-/

namespace Golden

/-- Which streams make up the matched output. -/
inductive Capture where
  /-- Both streams, in the order of their writes. -/
  | merged
  /-- The output stream alone; the error stream is kept for the report. -/
  | separate
  deriving DecidableEq

/-- What a configuration file says. -/
structure Settings where
  /-- The limit in seconds. -/
  timeout : Option Nat
  mergeStderr : Option Bool
  inheritEnv : Option Bool
  env : Variables

namespace Settings

/-- A file that says nothing. -/
def empty : Settings := ⟨none, none, none, .empty⟩

/-- The problem that a flaw in a value makes. -/
def problemOf (value : Text) : Template.Flaw → Problem
  | .unset name => .unset name
  | .unclosed => .unterminated value

/-- Expand variables one after the other; a reference means a variable that is already expanded, or
else one of the environment. -/
def expandFrom (environ : Environment) :
    Variables → List (Text × Text) → Except Problem Variables
  | done, [] => .ok done
  | done, (name, value) :: rest =>
    match Template.expand (fun n => (done.value? n).or (environ.text? n)) value with
    | .error flaw => .error (problemOf value flaw)
    | .ok expanded => expandFrom environ (done.put name expanded) rest

/-- The variables of a configuration with their references put in. -/
def expandAll (environ : Environment) (env : Variables) : Except Problem Variables :=
  expandFrom environ .empty env.entries

end Settings

/-- What the command line says. -/
structure Overrides where
  timeout : Option Nat
  separateStderr : Bool
  deriving DecidableEq

/-- A command line that says nothing. -/
def Overrides.none : Overrides := ⟨.none, false⟩

/-- What a run needs to know. -/
structure RunOptions where
  limit : Option Duration
  capture : Capture
  /-- Whether the subject gets the environment of the runner. -/
  inheritEnv : Bool
  /-- The variables that are set on top of it. -/
  env : Variables

/-- What holds for a run. -/
structure Effective where
  timeoutSecs : Nat
  capture : Capture
  inheritEnv : Bool
  env : Variables

namespace Effective

/-- The limit that holds if nothing else is said. -/
def defaultTimeoutSecs : Nat := 60

/-- What holds if nothing is said. -/
def default : Effective := ⟨defaultTimeoutSecs, .merged, true, .empty⟩

/-- What a configuration file makes of the defaults. -/
def ofSettings (environ : Environment) (path : Path) (s : Settings) : Except Fault Effective :=
  match Settings.expandAll environ s.env with
  | .error problem => .error (.config path problem)
  | .ok env => .ok
    { timeoutSecs := s.timeout.getD defaultTimeoutSecs
      capture := if s.mergeStderr = some false then .separate else .merged
      inheritEnv := s.inheritEnv.getD true
      env := env }

/-- What the command line makes of the settings below it. -/
def override (e : Effective) (o : Overrides) : Effective :=
  { e with
    timeoutSecs := o.timeout.getD e.timeoutSecs
    capture := if o.separateStderr then .separate else e.capture }

/-- What holds for a run under a configuration file, if there is one, and a command line. -/
def resolve (environ : Environment) (file : Option (Path × Settings)) (o : Overrides) :
    Except Fault Effective :=
  match file with
  | none => .ok (default.override o)
  | some (path, s) => (ofSettings environ path s).map (override · o)

/-- What a run needs to know; no limit is set if it is zero seconds. -/
def runOptions (e : Effective) : RunOptions where
  limit := if e.timeoutSecs = 0 then none else some (.ofSecs e.timeoutSecs)
  capture := e.capture
  inheritEnv := e.inheritEnv
  env := e.env

end Effective

end Golden
