import Golden.Toml.Moment
import Golden.Toml.Quoted

/-!
# TOML documents

A document is a sequence of lines: assignments of values to dotted keys, headers of tables, and
lines with nothing but a comment. The values that are read here are strings, whole numbers, truth
values, dates and times, and tables of these on one line; arrays, numbers that are not whole and
tables within tables are refused, and so are headers of arrays.

## Main definitions

* `Toml.Scalar`, `Toml.Value` — values
* `Toml.Statement` — an assignment or a header
* `Toml.integer?` — a whole number
* `Toml.key?` — a dotted key
* `Toml.statements?` — the statements of a text
-/

namespace Golden.Toml

/-- A value without parts. -/
inductive Scalar where
  | text (text : Text)
  | integer (value : Int)
  | truth (value : Bool)
  /-- A date, a time of day, or both, as it is written. -/
  | moment (text : Text)
  deriving DecidableEq

/-- A value. -/
inductive Value where
  | scalar (value : Scalar)
  /-- The assignments between braces. -/
  | table (entries : List (List Text × Scalar))
  deriving DecidableEq

/-- A line of a document that says something. -/
inductive Statement where
  /-- The value of a dotted key in the table that is open. -/
  | assign (key : List Text) (value : Value)
  /-- The beginning of the table under a dotted key. -/
  | header (key : List Text)
  deriving DecidableEq

/-- A text without the blanks at its beginning. -/
def skipGaps (text : Text) : Text :=
  text.dropWhile isGap

/-- Whether a character may stand in a key without quotes. -/
def isBare (c : Char) : Bool :=
  ('A' ≤ c && c ≤ 'Z') || ('a' ≤ c && c ≤ 'z') || ('0' ≤ c && c ≤ '9') || c == '_' || c == '-'

/-- Whether a character may stand in a number. -/
def isNumeric (c : Char) : Bool :=
  isBare c || c == '+' || c == '.' || c == ':'

/-- The value of digits, between which single underscores may stand. -/
def grouped? (radix : Nat) (text : Text) : Option Nat :=
  if text.head? = some '_' || text.getLast? = some '_' || Text.occursIn ['_', '_'] text then none
  else Numeral.natural? radix (text.filter (· != '_'))

/-- The value of decimal digits; a zero begins no longer number. -/
def unsigned? (text : Text) : Option Nat :=
  if 1 < text.length && text.head? = some '0' then none else grouped? 10 text

/-- The value of a numeral: a decimal one may have a sign, one of another radix may not. -/
def numeral? : Text → Option Int
  | '0' :: 'x' :: digits => (grouped? 16 digits).map Int.ofNat
  | '0' :: 'o' :: digits => (grouped? 8 digits).map Int.ofNat
  | '0' :: 'b' :: digits => (grouped? 2 digits).map Int.ofNat
  | '+' :: digits => (unsigned? digits).map Int.ofNat
  | '-' :: digits => (unsigned? digits).map (-Int.ofNat ·)
  | digits => (unsigned? digits).map Int.ofNat

/-- The greatest integer of a signed word of sixty-four bits. -/
def integerMax : Int := 9223372036854775807

/-- The least integer of a signed word of sixty-four bits. -/
def integerMin : Int := -9223372036854775808

/-- A numeral within a signed word of sixty-four bits. -/
def integer? (text : Text) : Option Int :=
  (numeral? text).filter fun n => integerMin ≤ n && n ≤ integerMax

/-- The word for a truth value or the whole number at the beginning of a text, and what follows
it. -/
def word? (text : Text) : Option (Scalar × Text) := do
  let word := text.takeWhile isNumeric
  let value ←
    if word = "true".toList then some (.truth true)
    else if word = "false".toList then some (.truth false)
    else (integer? word).map Scalar.integer
  return (value, text.drop word.length)

/-- The value without parts at the beginning of a text, and what follows it. -/
def scalar? (text : Text) : Option (Scalar × Text) :=
  if text.head? = some Quoted.double || text.head? = some Quoted.single then
    (Quoted.string? text).map fun r => (.text r.1, r.2)
  else
    match word? text with
    | some found => some found
    | none => (Moment.read? text).map fun r => (.moment r.1, r.2)

/-- The part of a key at the beginning of a text, and what follows it. -/
def part? : Text → Option (Text × Text)
  | [] => none
  | c :: rest =>
    if c = Quoted.double then Quoted.basic? rest
    else if c = Quoted.single then Quoted.literal? rest
    else
      let name := (c :: rest).takeWhile isBare
      if name = [] then none else some (name, (c :: rest).drop name.length)

/-- The dotted key at the beginning of a text, and what follows it and the blanks behind it. -/
def key? (text : Text) : Option (List Text × Text) := do
  let (name, behind) ← part? (skipGaps text)
  match skipGaps behind with
  | '.' :: rest =>
    if rest.length < text.length then
      let (names, rest) ← key? rest
      return (name :: names, rest)
    else none
  | rest => return ([name], rest)
termination_by text.length

/-- What follows the equals sign at the beginning of a text, and the blanks behind it. -/
def equals? (text : Text) : Option Text :=
  (after? ['='] text).map skipGaps

/-- The assignments of a table behind its opening brace, or behind a comma in it, and what follows
its closing brace. -/
def entries? (text : Text) : Option (List (List Text × Scalar) × Text) := do
  let (key, rest) ← key? text
  let (value, behind) ← scalar? (← equals? rest)
  match skipGaps behind with
  | '\x7d' :: rest => return ([(key, value)], rest)
  | ',' :: rest =>
    if rest.length < text.length then
      let (entries, rest) ← entries? rest
      return ((key, value) :: entries, rest)
    else none
  | _ => none
termination_by text.length

/-- The value at the beginning of a text, and what follows it. -/
def value? (text : Text) : Option (Value × Text) :=
  match after? ['\x7b'] text with
  | none => (scalar? text).map fun r => (.scalar r.1, r.2)
  | some inner =>
    match after? ['\x7d'] (skipGaps inner) with
    | some rest => some (.table [], rest)
    | none => (entries? inner).map fun r => (.table r.1, r.2)

/-- What follows the end of a line, in front of which blanks and a comment may stand. -/
def lineEnd? (text : Text) : Option Text :=
  match skipGaps text with
  | '#' :: comment => ended (comment.dropWhile isShown)
  | rest => ended rest
where
  /-- What follows the line break or the end of the text. -/
  ended : Text → Option Text
    | [] => some []
    | rest => newline? rest

/-- The statement of the line at the beginning of a text, if it holds one, and what follows that
line. -/
def line? (text : Text) : Option (Option Statement × Text) :=
  match skipGaps text with
  | [] => some (none, [])
  | '[' :: rest => do
    let (key, rest) ← key? rest
    let rest ← after? [']'] rest
    return (some (.header key), ← lineEnd? rest)
  | c :: rest =>
    if c = '#' || c = '\n' || c = '\r' then (lineEnd? (c :: rest)).map fun r => (none, r)
    else do
      let (key, rest) ← key? (c :: rest)
      let (value, rest) ← value? (← equals? rest)
      return (some (.assign key value), ← lineEnd? rest)

/-- The statements of lines, in order. -/
def lines? (text : Text) : Option (List Statement) := do
  if text = [] then return []
  let (statement, rest) ← line? text
  if rest.length < text.length then
    let others ← lines? rest
    return statement.toList ++ others
  else none
termination_by text.length

/-- The mark that may stand in front of a text. -/
def byteOrderMark : Char := '\ufeff'

/-- The statements of a text, in order. -/
def statements? (text : Text) : Option (List Statement) :=
  lines? ((after? [byteOrderMark] text).getD text)

end Golden.Toml
