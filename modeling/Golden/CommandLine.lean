import Golden.Path
import Golden.Text.Numeral

/-!
# The command line

Operands name the executable, the test case and, if a third is given, the file for the subject's
input. Options may stand anywhere among them; behind two dashes everything is an operand. Arguments
are taken from left to right, and the first that asks for help or for the version, or that is
wrong, decides.

## Main definitions

* `CommandLine.Item` — what one argument says
* `CommandLine.items` — what the arguments say, in order
* `Invocation` — a complete command line
* `CommandLine.Request`, `CommandLine.read` — what a command line asks for
-/

namespace Golden

/-- A complete command line. -/
structure Invocation where
  executable : Path
  testCase : Path
  stdin : Option Path
  /-- The limit in seconds, if one is given. -/
  timeout : Option Nat
  separateStderr : Bool
  verbose : Bool
  deriving DecidableEq

namespace CommandLine

/-- What one argument says. -/
inductive Item where
  | operand (path : Path)
  | timeout (seconds : Text)
  | separateStderr
  | verbose
  | help
  | version
  /-- No option, or an option without the value that it needs or with one that it does not take. -/
  | wrong
  deriving DecidableEq

/-- What a one-letter option says. -/
def short (c : Char) : Item :=
  if c = 'v' then .verbose
  else if c = 'h' then .help
  else if c = 'V' then .version
  else .wrong

/-- What an option without a value says by its long name. -/
def long (name : Text) : Item :=
  if name = "separate-stderr".toList then .separateStderr
  else if name = "verbose".toList then .verbose
  else if name = "help".toList then .help
  else if name = "version".toList then .version
  else .wrong

/-- The option with a value, before its value. -/
def timeoutName : Text := "timeout".toList

/-- Two dashes alone make operands of all arguments behind them. -/
def terminator : Text := ['-', '-']

/-- Whether an argument is an option; a dash alone is none. -/
def isOption (argument : Text) : Bool :=
  argument.head? = some '-' && argument ≠ ['-']

/-- What an argument says that is not in need of a value from the next one. -/
def single (argument : Text) : List Item :=
  match after? terminator argument with
  | some name =>
    match after? (timeoutName ++ ['=']) name with
    | some seconds => [.timeout seconds]
    | none => [long name]
  | none => if isOption argument then (argument.drop 1).map short else [.operand argument]

/-- What arguments say, in order. -/
def items : List Text → List Item
  | [] => []
  | [argument] =>
    if argument = terminator then []
    else if argument = terminator ++ timeoutName then [.wrong]
    else single argument
  | argument :: next :: rest =>
    if argument = terminator then (next :: rest).map Item.operand
    else if argument = terminator ++ timeoutName then
      if isOption next then [.wrong] else .timeout next :: items rest
    else single argument ++ items (next :: rest)

/-- What is known of a command line when some of its items are read. -/
structure Draft where
  operands : List Path
  timeout : Option Nat
  separateStderr : Bool
  verbose : Bool

/-- What is known at the beginning. -/
def Draft.empty : Draft := ⟨[], none, false, false⟩

/-- What a command line asks for. -/
inductive Request where
  | run (invocation : Invocation)
  | help
  | version
  /-- The command line is wrong. -/
  | usage
  deriving DecidableEq

/-- What a command line without further items asks for. -/
def Draft.finish (d : Draft) : Request :=
  match d.operands with
  | [executable, testCase] =>
    .run ⟨executable, testCase, none, d.timeout, d.separateStderr, d.verbose⟩
  | [executable, testCase, stdin] =>
    .run ⟨executable, testCase, some stdin, d.timeout, d.separateStderr, d.verbose⟩
  | _ => .usage

/-- What a command line asks for whose further items are given. No option stands twice, there are at
most three operands, and none of them is empty. -/
def Draft.follow (d : Draft) : List Item → Request
  | [] => d.finish
  | .operand path :: rest =>
    if path = [] || d.operands.length = 3 then .usage
    else follow { d with operands := d.operands ++ [path] } rest
  | .timeout seconds :: rest =>
    match d.timeout, Numeral.word64? seconds with
    | none, some n => follow { d with timeout := some n } rest
    | _, _ => .usage
  | .separateStderr :: rest =>
    if d.separateStderr then .usage else follow { d with separateStderr := true } rest
  | .verbose :: rest => if d.verbose then .usage else follow { d with verbose := true } rest
  | .help :: _ => .help
  | .version :: _ => .version
  | .wrong :: _ => .usage

/-- What arguments ask for. -/
def read (arguments : List Text) : Request :=
  Draft.empty.follow (items arguments)

end CommandLine

end Golden
