import Golden.CommandLine
import Golden.Execution
import Golden.Settings.File
import Golden.TestCase
import Golden.Verdict

/-!
# Reports

A command line is carried out in stages: the test case is read, then the configuration beside it,
then the subject is run, and at last its output is held against the directives. The earliest stage
that fails speaks. A run that passes says nothing; everything else that goes wrong is printed, and
told by the exit code. While a subject that never ends is waited for without a limit, there is no
report.

## Main definitions

* `World.effective` — the settings that hold for a test case
* `World.verdict` — the verdict that a complete command line leads to
* `Report` — what a command line leads to
* `World.report` — what arguments lead to, if they lead to anything
* `Report.exitCode`, `Report.output` — how it is told
-/

namespace Golden

/-- What a command line leads to. -/
inductive Report where
  | verdict (verdict : Verdict)
  | fault (fault : Fault)
  | help
  | version
  | usage
  deriving DecidableEq

namespace World

/-- The settings that hold for a test case under the configuration that applies to it. -/
def effective (w : World) (testCase : Path) (o : Overrides) : Except Fault Effective := do
  Effective.resolve w.environ (← Settings.loadFor w testCase) o

/-- The verdict that a complete command line leads to, if the subject is not waited for without
end. -/
def verdict (w : World) (i : Invocation) : Option (Except Fault Verdict) :=
  Execution.proceed (TestCase.load w i.testCase) fun case =>
    Execution.proceed (w.effective i.testCase ⟨i.timeout, i.separateStderr⟩) fun settings =>
      (w.execute i.executable case.path i.stdin settings.runOptions).map
        (·.map (Verdict.judge case.directives))

end World

namespace Report

/-- The report on a complete command line. -/
def ofVerdict : Except Fault Verdict → Report
  | .ok v => verdict v
  | .error f => fault f

end Report

namespace World

/-- What arguments lead to, if the subject is not waited for without end. -/
def report (w : World) (arguments : List Text) : Option Report :=
  match CommandLine.read arguments with
  | .run i => (w.verdict i).map Report.ofVerdict
  | .help => some .help
  | .version => some .version
  | .usage => some .usage

end World

namespace Report

/-- The line that tells the version. -/
def versionLine : Text := "checkrun 0.1.0\n".toList

/-- How the program is called. -/
def synopsis : Text :=
  "Usage: checkrun [OPTIONS] <EXECUTABLE> <TEST_CASE> [STDIN]\n".toList

/-- The help page. -/
def helpPage : Text :=
  "Run a tool on a test case and verify its embedded CHECK/EXIT directives\n\n".toList ++
    synopsis ++
    ("\nArguments:\n" ++
      "  <EXECUTABLE>  Executable under test\n" ++
      "  <TEST_CASE>   Test case file, passed to the executable as its only argument\n" ++
      "  [STDIN]       File to redirect to the executable's standard input\n" ++
      "\nOptions:\n" ++
      "      --timeout <SECS>   Kill the executable after this many seconds (0 disables the limit)\n" ++
      "      --separate-stderr  Match against stdout only instead of merged stdout and stderr\n" ++
      "  -v, --verbose          Log progress to stderr\n" ++
      "  -h, --help             Print help\n" ++
      "  -V, --version          Print version\n").toList

/-- What is printed about a wrong command line. -/
def usageError : Text :=
  "error: the arguments are not understood\n\n".toList ++ synopsis ++
    "\nFor more information, try '--help'.\n".toList

/-- What is printed. -/
def output : Report → Text
  | .verdict .pass => []
  | .verdict (.fail failure) => failure.text ++ ['\n']
  | .fault f => f.message ++ ['\n']
  | .help => helpPage
  | .version => versionLine
  | .usage => usageError

/-- The exit code. -/
def exitCode : Report → Nat
  | .verdict .pass | .help | .version => 0
  | .verdict (.fail _) | .fault _ | .usage => 1

end Report

end Golden
