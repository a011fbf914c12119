import Golden.Outcome

/-!
# Scripts

What a subject does, as a list of actions, and what a run of it leaves behind. The order of the
writes is kept across the two streams, so that capturing them together and capturing them apart are
two views of one run.

## Main definitions

* `Grip`, `Action`, `Script` — what a subject does
* `Scene` — what a subject is started with
* `Trace` — what a run wrote, how it ended, and which streams something still holds open
* `Script.run` — the run of a script

## Main results

* `Trace.merged_after`, `Trace.only_after` — what one more write does to the two views of a run
* `Trace.holds_after`, `Trace.holds_hold` — what a write and a start do to the streams held open
-/

namespace Golden

/-- One of the two output streams. -/
inductive Stream where
  | out
  | err
  deriving DecidableEq

/-- Which streams something holds open. -/
inductive Grip where
  | both
  | only (stream : Stream)
  deriving DecidableEq

/-- Whether a stream is among those that are held open. -/
def Grip.holds : Grip → Stream → Bool
  | both, _ => true
  | only held, stream => held = stream

/-- One thing that a subject does. -/
inductive Action where
  /-- Write bytes to a stream. -/
  | write (stream : Stream) (bytes : Bytes)
  /-- Copy the rest of the input to the output. -/
  | copyInput
  /-- Write the number of arguments and then each of them in brackets, one a line. -/
  | showArguments
  /-- Write the working directory. -/
  | showDirectory
  /-- Write a variable of the environment and its value. -/
  | showVariable (name : Text)
  /-- End with an exit code. -/
  | exit (code : Int)
  /-- End by a signal. -/
  | signal (number : Int)
  /-- Do nothing for ever. -/
  | hang
  /-- Start something that outlives the subject and holds some of its output open, for longer than
  any limit but not for ever. -/
  | background (grip : Grip := .both)
  deriving DecidableEq

/-- What a subject does, in order; it exits with code zero when nothing is left to do. -/
abbrev Script := List Action

/-- What a subject is started with. -/
structure Scene where
  arguments : List Text
  directory : Text
  input : Bytes
  /-- The value of a variable of the environment. -/
  value? : Text → Option Bytes

/-- What a run leaves behind. -/
structure Trace where
  /-- The bytes that were written, in order, each piece with its stream. -/
  writes : List (Stream × Bytes)
  /-- How the run ended, if it did. -/
  ending : Option Termination
  /-- Whether something that the subject started still holds a stream open. -/
  holds : Stream → Bool

namespace Trace

/-- A run that wrote some bytes before it went on in the given way. -/
def after (stream : Stream) (bytes : Bytes) (t : Trace) : Trace :=
  { t with writes := (stream, bytes) :: t.writes }

/-- A run that started something with a grip on its output before it went on in the given way. -/
def hold (grip : Grip) (t : Trace) : Trace :=
  { t with holds := fun stream => grip.holds stream || t.holds stream }

/-- Whether any of the output is held open. -/
def held (t : Trace) : Bool :=
  t.holds .out || t.holds .err

/-- All bytes that were written, in order. -/
def merged (t : Trace) : Bytes :=
  t.writes.flatMap (·.2)

/-- The bytes that were written to one stream. -/
def only (stream : Stream) (t : Trace) : Bytes :=
  (t.writes.filter (·.1 = stream)).flatMap (·.2)

@[simp] theorem merged_after (stream : Stream) (bytes : Bytes) (t : Trace) :
    (t.after stream bytes).merged = bytes ++ t.merged := by
  simp [after, merged]

@[simp] theorem only_after (stream s : Stream) (bytes : Bytes) (t : Trace) :
    (t.after s bytes).only stream = (if s = stream then bytes else []) ++ t.only stream := by
  by_cases h : s = stream <;> simp [after, only, h]

@[simp] theorem holds_after (stream s : Stream) (bytes : Bytes) (t : Trace) :
    (t.after s bytes).holds stream = t.holds stream := rfl

@[simp] theorem holds_hold (grip : Grip) (stream : Stream) (t : Trace) :
    (t.hold grip).holds stream = (grip.holds stream || t.holds stream) := rfl

end Trace

namespace Script

/-- Text as the bytes of a line. -/
def lineOf (text : Text) : Bytes :=
  Utf8.encode (text ++ ['\n'])

/-- The lines that show the arguments. -/
def argumentLines (arguments : List Text) : Bytes :=
  lineOf (Numeral.decimal arguments.length) ++
    arguments.flatMap fun a => lineOf ('[' :: a ++ [']'])

/-- The line that shows a variable. -/
def variableLine (name : Text) (value : Option Bytes) : Bytes :=
  Utf8.encode (name ++ ['=']) ++ value.getD (Utf8.encode "<unset>".toList) ++ Utf8.encode ['\n']

/-- The run of a script in a scene, with the given bytes left of the input. An exit code is what a
byte can hold. -/
def runFrom (scene : Scene) : Bytes → Script → Trace
  | _, [] => ⟨[], some (.exited 0), fun _ => false⟩
  | input, .write stream bytes :: rest => (runFrom scene input rest).after stream bytes
  | input, .copyInput :: rest => (runFrom scene [] rest).after .out input
  | input, .showArguments :: rest =>
    (runFrom scene input rest).after .out (argumentLines scene.arguments)
  | input, .showDirectory :: rest =>
    (runFrom scene input rest).after .out (lineOf scene.directory)
  | input, .showVariable name :: rest =>
    (runFrom scene input rest).after .out (variableLine name (scene.value? name))
  | _, .exit code :: _ => ⟨[], some (.exited (code % 256)), fun _ => false⟩
  | _, .signal number :: _ => ⟨[], some (.signaled number), fun _ => false⟩
  | _, .hang :: _ => ⟨[], none, fun _ => false⟩
  | input, .background grip :: rest => (runFrom scene input rest).hold grip

/-- The run of a script in a scene. -/
def run (scene : Scene) (script : Script) : Trace :=
  runFrom scene scene.input script

end Script

end Golden
