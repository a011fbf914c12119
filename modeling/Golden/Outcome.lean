import Golden.Text.Lines
import Golden.Text.Numeral
import Golden.Text.Utf8

/-!
# Outcomes

What a finished run of the subject leaves behind: the lines of its output and the way it ended.

## Main definitions

* `Termination` — an exit code or a fatal signal
* `Outcome` — the output lines, the separately captured error lines and the termination
* `Outcome.linesOf` — the lines of the bytes that a stream carried
-/

namespace Golden

/-- How the subject ended. -/
inductive Termination where
  | exited (code : Int)
  | signaled (signal : Int)
  deriving DecidableEq

/-- How a termination is shown. -/
def Termination.text : Termination → Text
  | exited code => "exit code ".toList ++ Numeral.decimalInt code
  | signaled signal => "signal ".toList ++ Numeral.decimalInt signal

/-- What a run leaves behind. -/
structure Outcome where
  /-- The lines that the directives are matched against. -/
  lines : List Text
  /-- The lines of the error stream if it is captured apart, none otherwise. -/
  stderr : List Text
  termination : Termination
  deriving DecidableEq

namespace Outcome

/-- The lines of the bytes that a stream carried; bytes that are no text become replacement
characters. -/
def linesOf (bytes : Bytes) : List Text :=
  (Utf8.decodeLossy bytes).lines

/-- All captured lines, those of the error stream last. -/
def dump (o : Outcome) : List Text :=
  o.lines ++ o.stderr

end Outcome

end Golden
