import Golden.Directive
import Golden.Outcome

/-!
# Verdicts

The output of a run is held against the directives of a test case. Checks are searched for one after
the other, each from the line on which the one before it was found; a found line is never given up
again, and two checks may be found on the same line. Only when every check is found does the way in
which the subject ended matter.

## Main definitions

* `Failure` — why a run does not satisfy its directives
* `Verdict` — pass or failure
* `Verdict.search` — the first line from a position on that contains a pattern
* `Verdict.follow` — the fold over the directives
* `Verdict.judge` — the verdict on an outcome
* `Verdict.found` — the checks that are found, each with its output line
-/

namespace Golden

/-- Why a run does not satisfy its directives. -/
inductive Failure where
  /-- No line at or below the line of the last found check contains the pattern. -/
  | checkNotFound (line : Nat) (pattern : Text)
  /-- The subject exited with another code, and zero was expected. -/
  | unexpectedExit (actual : Int) (output : List Text)
  /-- The subject exited with another code than the one other than zero that was expected. -/
  | exitMismatch (actual expected : Int)
  /-- The subject was killed by a signal. -/
  | signaled (signal expected : Int) (output : List Text)
  deriving DecidableEq

namespace Failure

/-- Output lines below a heading. -/
def below (heading : Text) (output : List Text) : Text :=
  heading ++ output.flatMap ('\n' :: ·)

/-- How a failure is shown. -/
def text : Failure → Text
  | checkNotFound line _ =>
    "CHECK on line ".toList ++ Numeral.decimal line ++ " not found".toList
  | unexpectedExit actual output =>
    below ("Process exited with code ".toList ++ Numeral.decimalInt actual ++ "; output:".toList)
      output
  | exitMismatch actual expected =>
    "Exit code ".toList ++ Numeral.decimalInt actual ++ " does not match expected value of ".toList ++
      Numeral.decimalInt expected
  | signaled signal expected output =>
    below
      ("Process terminated by signal ".toList ++ Numeral.decimalInt signal ++
        " (expected exit code ".toList ++ Numeral.decimalInt expected ++ "); output:".toList)
      output

end Failure

/-- Whether a run satisfies its directives. -/
inductive Verdict where
  | pass
  | fail (failure : Failure)
  deriving DecidableEq

namespace Verdict

/-- A check that was found: its line in the test case, and the output line, counted from one. -/
structure Found where
  checkLine : Nat
  outputLine : Nat
  deriving DecidableEq

/-- What is known after some directives: where the search goes on, which exit code is expected so
far, and which checks were found. -/
structure Progress where
  cursor : Nat
  expected : Int
  found : List Found
  deriving DecidableEq

/-- What is known before the first directive. -/
def Progress.start : Progress := ⟨0, 0, []⟩

/-- The position of the first line from `cursor` on that contains the pattern. -/
def search (output : List Text) (cursor : Nat) (pattern : Text) : Option Nat :=
  ((output.drop cursor).findIdx? (Text.occursIn pattern)).map (cursor + ·)

/-- Follow the directives in order; the check at which the search ends, if one is not found. -/
def follow (output : List Text) : Progress → List Directive → Progress × Option Failure
  | p, [] => (p, none)
  | p, .exit code _ :: rest => follow output { p with expected := code } rest
  | p, .check pattern line :: rest =>
    match search output p.cursor pattern with
    | none => (p, some (.checkNotFound line pattern))
    | some i => follow output { p with cursor := i, found := p.found ++ [⟨line, i + 1⟩] } rest

/-- What is wrong with the way in which the subject ended, if anything is. -/
def exitFailure? (outcome : Outcome) (expected : Int) : Option Failure :=
  match outcome.termination with
  | .exited actual =>
    if actual = expected then none
    else if expected = 0 then some (.unexpectedExit actual outcome.dump)
    else some (.exitMismatch actual expected)
  | .signaled signal => some (.signaled signal expected outcome.dump)

/-- The verdict for an optional failure. -/
def ofFailure? : Option Failure → Verdict
  | none => pass
  | some failure => fail failure

/-- The verdict on an outcome. -/
def judge (directives : List Directive) (outcome : Outcome) : Verdict :=
  match follow outcome.lines .start directives with
  | (_, some failure) => fail failure
  | (p, none) => ofFailure? (exitFailure? outcome p.expected)

/-- The checks that are found on output lines, up to the first that is not. -/
def found (directives : List Directive) (output : List Text) : List Found :=
  (follow output .start directives).1.found

end Verdict

end Golden
