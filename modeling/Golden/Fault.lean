import Golden.Duration
import Golden.Path
import Golden.Text.Quoted

/-!
# Faults

Everything that ends a run before a verdict can be reached, by its cause, and how each cause is
worded.

## Main definitions

* `Cause` — why a file or a program cannot be used
* `Problem` — what is wrong with a configuration
* `Fault` — what ended a run
* `Cause.message`, `Problem.message`, `Fault.message` — the wordings
-/

namespace Golden

/-- Why a file or a program cannot be used. -/
inductive Cause where
  | noSuchFile
  | execFormat
  | permissionDenied
  | notDirectory
  | isDirectory
  | nameTooLong
  /-- The content of a file is not well-formed UTF-8. -/
  | notText
  /-- A path holds the character that ends a name for the system. -/
  | nulInName
  /-- An argument or a variable of a program holds that character. -/
  | nulInData
  /-- The empty path names nothing that could be absolute. -/
  | emptyPath
  /-- Any other cause, in the words of the system. -/
  | other (message : Text)
  deriving DecidableEq

/-- How a cause is worded. -/
def Cause.message : Cause → Text
  | noSuchFile => "No such file or directory (os error 2)".toList
  | execFormat => "Exec format error (os error 8)".toList
  | permissionDenied => "Permission denied (os error 13)".toList
  | notDirectory => "Not a directory (os error 20)".toList
  | isDirectory => "Is a directory (os error 21)".toList
  | nameTooLong => "File name too long (os error 36)".toList
  | notText => "stream did not contain valid UTF-8".toList
  | nulInName => "file name contained an unexpected NUL byte".toList
  | nulInData => "nul byte found in provided data".toList
  | emptyPath => "cannot make an empty path absolute".toList
  | other message => message

/-- What is wrong with a configuration. -/
inductive Problem where
  /-- The name of the file tells no known format. -/
  | unsupportedFormat (extension : Text)
  /-- The content is no configuration in the format that the name tells. -/
  | malformed
  /-- A value opens a reference and does not close it. -/
  | unterminated (value : Text)
  /-- A value refers to a variable that has no value. -/
  | unset (name : Text)
  /-- Any other problem, in the words of who found it. -/
  | other (message : Text)
  deriving DecidableEq

/-- How a problem is worded. What is malformed about a content is not told. -/
def Problem.message : Problem → Text
  | unsupportedFormat extension =>
    "unsupported file format: ".toList ++ extension ++ " (expected .yaml, .yml, or .toml)".toList
  | malformed => "<parser message>".toList
  | unterminated value => "unterminated `$\x7b` in ".toList ++ value.quoted
  | unset name => "environment variable '".toList ++ name ++ "' is not set".toList
  | other message => message

/-- What ended a run before a verdict. -/
inductive Fault where
  /-- The test case or the file for the subject's input is no regular file. -/
  | inputNotFound (path : Path)
  /-- An exit directive of the test case is malformed. -/
  | malformedDirective (line : Nat) (payload : Text)
  /-- The subject cannot be started. -/
  | launch (exe : Path) (cause : Cause)
  /-- The subject did not end within the limit, or something it started held its output open. -/
  | timeout (limit : Duration)
  /-- The configuration that applies is not usable. -/
  | config (path : Path) (problem : Problem)
  /-- A file cannot be read or found. -/
  | io (context : Text) (cause : Cause)
  deriving DecidableEq

namespace Fault

/-- A file that cannot be read. -/
def unreadable (path : Path) (cause : Cause) : Fault :=
  io ("failed to read ".toList ++ path) cause

/-- A path that cannot be made absolute. -/
def unresolvable (path : Path) (cause : Cause) : Fault :=
  io ("failed to resolve ".toList ++ path) cause

/-- How a fault is worded. -/
def message : Fault → Text
  | inputNotFound path => path ++ " not found".toList
  | malformedDirective line payload =>
    "malformed EXIT directive on line ".toList ++ Numeral.decimal line ++ ": ".toList ++
      payload.quoted ++ " is not an integer".toList
  | launch exe cause => "failed to launch ".toList ++ exe ++ ": ".toList ++ cause.message
  | timeout limit => "process timed out after ".toList ++ limit.text
  | config path problem =>
    "failed to load config ".toList ++ path ++ ": ".toList ++ problem.message
  | io context cause => context ++ ": ".toList ++ cause.message

end Fault

end Golden
