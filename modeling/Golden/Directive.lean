import Golden.Text.Blank
import Golden.Text.Lines
import Golden.Text.Numeral

/-!
# Directives

A test case is an ordinary text file that is also the subject's input. A line that begins with one
of two marks carries an expectation about the run; every other line means nothing here. Lines are
numbered from one.

## Main definitions

* `Directive` — an expected pattern or an expected exit code, with its line
* `Directive.ofLine` — what one line says
* `Directive.parse` — the directives of a content, in the order of its lines
* `Directive.expectedExit` — the exit code that a list of directives asks for
* `Directive.warnings` — the exit directives that override an earlier one
-/

namespace Golden

/-- An expectation that a test case states about the run. -/
inductive Directive where
  /-- The pattern occurs in a line of the output, not above the line of an earlier check. -/
  | check (pattern : Text) (line : Nat)
  /-- The subject exits with the code. -/
  | exit (code : Int) (line : Nat)
  deriving DecidableEq

/-- An exit directive whose payload is not an integer. -/
structure Malformed where
  line : Nat
  payload : Text
  deriving DecidableEq

namespace Directive

/-- The mark of an expected pattern. -/
def checkMark : Text := "# CHECK: ".toList

/-- The mark of an expected exit code. -/
def exitMark : Text := "# EXIT ".toList

/-- The line on which a directive stands. -/
def line : Directive → Nat
  | check _ n => n
  | exit _ n => n

/-- What one line says: a directive, nothing, or an exit directive that is malformed. A pattern is
the untouched rest of its line; the payload of an exit directive may have blanks around it. -/
def ofLine (number : Nat) (line : Text) : Except Malformed (Option Directive) :=
  match after? checkMark line with
  | some pattern => .ok (some (check pattern number))
  | none =>
    match after? exitMark line with
    | none => .ok none
    | some payload =>
      match Numeral.int32? (Text.trimmed payload) with
      | some code => .ok (some (exit code number))
      | none => .error ⟨number, payload⟩

/-- The directives of lines, the first of which has the given number. -/
def ofLines : Nat → List Text → Except Malformed (List Directive)
  | _, [] => .ok []
  | number, line :: rest => do
    let first ← ofLine number line
    let others ← ofLines (number + 1) rest
    return first.toList ++ others

/-- The directives of a content, or its first malformed exit directive. -/
def parse (content : Text) : Except Malformed (List Directive) :=
  ofLines 1 content.lines

/-- The code of an exit directive. -/
def code? : Directive → Option Int
  | check _ _ => none
  | exit code _ => some code

/-- The exit code that the directives ask for: that of the last exit directive, zero without one. -/
def expectedExit (directives : List Directive) : Int :=
  (directives.reverse.findSome? code?).getD 0

/-- A remark that an exit directive stands on a line below an earlier one. -/
structure Warning where
  line : Nat
  previous : Nat
  deriving DecidableEq

/-- The wording of a remark. -/
def Warning.message (w : Warning) : Text :=
  "multiple EXIT directives; the one on line ".toList ++ Numeral.decimal w.line ++
    " takes effect".toList

/-- The remarks about directives that follow an exit directive on line `previous`, if any. -/
def warningsAfter (previous : Option Nat) : List Directive → List Warning
  | [] => []
  | check _ _ :: rest => warningsAfter previous rest
  | exit _ line :: rest =>
    (previous.map fun p => ⟨line, p⟩).toList ++ warningsAfter (some line) rest

/-- One remark for every exit directive but the first, with the line of the nearest one above. -/
def warnings (directives : List Directive) : List Warning :=
  warningsAfter none directives

end Directive

end Golden
