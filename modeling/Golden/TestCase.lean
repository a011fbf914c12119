import Golden.Directive
import Golden.World

/-!
# Test cases

A test case is a regular file of text; its lines carry the directives.

## Main definitions

* `TestCase` — a path with the lines and the directives of its file
* `TestCase.load` — the test case that a path names
-/

namespace Golden

/-- A test case: where it was found, its lines, and what it expects. -/
structure TestCase where
  path : Path
  lines : List Text
  directives : List Directive
  deriving DecidableEq

namespace TestCase

/-- The exit code that a test case asks for. -/
def expectedExit (t : TestCase) : Int :=
  Directive.expectedExit t.directives

/-- The fault that a malformed exit directive is. -/
def faultOf (m : Malformed) : Fault :=
  .malformedDirective m.line m.payload

/-- The test case that a content is. -/
def ofContent (path : Path) (content : Text) : Except Fault TestCase :=
  ((Directive.parse content).mapError faultOf).map fun directives =>
    ⟨path, content.lines, directives⟩

/-- The test case that a path names. -/
def load (w : World) (path : Path) : Except Fault TestCase := do
  w.require path
  ofContent path (← w.readText path)

end TestCase

end Golden
