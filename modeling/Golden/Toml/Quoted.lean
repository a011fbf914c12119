import Golden.Text.Numeral

/-!
# TOML strings

The four forms of a string: in double quotes with escapes or in single quotes without, on one line
or, in three quotes, over several. A string over several lines drops a line break directly behind
its opening quotes, shows every other line break as a line feed, and may end in up to two quotes of
its own in front of the closing three.

## Main definitions

* `Toml.isGap`, `Toml.isShown` — blanks, and the characters that may stand in a comment or string
* `Toml.Quoted.basic?`, `Toml.Quoted.literal?` — what a string on one line holds
* `Toml.Quoted.longBasic?`, `Toml.Quoted.longLiteral?` — what a string over several lines holds
* `Toml.Quoted.string?` — the string at the beginning of a text
-/

namespace Golden.Toml

/-- Whether a character is a space or a tab. -/
def isGap (c : Char) : Bool :=
  c == ' ' || c == '\t'

/-- Whether a character may stand in a comment or a string: it is a tab or no control character. -/
def isShown (c : Char) : Bool :=
  c == '\t' || (0x20 ≤ c.toNat && c.toNat ≠ 0x7f)

/-- What follows the line break at the beginning of a text. -/
def newline? : Text → Option Text
  | '\n' :: rest => some rest
  | '\r' :: '\n' :: rest => some rest
  | _ => none

namespace Quoted

/-- The quote of strings with escapes. -/
def double : Char := '\x22'

/-- The quote of strings without escapes. -/
def single : Char := '\x27'

/-- The character that a backslash and a letter stand for. -/
def escaped? (c : Char) : Option Char :=
  if c = 'b' then some '\x08'
  else if c = 't' then some '\t'
  else if c = 'n' then some '\n'
  else if c = 'f' then some '\x0c'
  else if c = 'r' then some '\r'
  else if c = double || c = '\\' then some c
  else none

/-- The character whose code point has the hexadecimal digits. -/
def scalar? (digits : Text) : Option Char := do
  let n ← Numeral.natural? 16 digits
  if n.isValidChar then some (Char.ofNat n) else none

/-- A character in front of what a string goes on with. -/
def push (c : Option Char) (rest : Option (Text × Text)) : Option (Text × Text) := do
  let c ← c
  let (text, rest) ← rest
  return (c :: text, rest)

/-- A string with escapes behind its opening quote, and what follows its closing one. -/
def basic? : Text → Option (Text × Text)
  | [] => none
  | '\\' :: 'u' :: a :: b :: c :: d :: rest => push (scalar? [a, b, c, d]) (basic? rest)
  | '\\' :: 'U' :: a :: b :: c :: d :: e :: f :: g :: h :: rest =>
    push (scalar? [a, b, c, d, e, f, g, h]) (basic? rest)
  | '\\' :: c :: rest => push (escaped? c) (basic? rest)
  | c :: rest =>
    if c = double then some ([], rest)
    else if isShown c then push (some c) (basic? rest)
    else none

/-- A string without escapes behind its opening quote, and what follows its closing one. -/
def literal? : Text → Option (Text × Text)
  | [] => none
  | c :: rest =>
    if c = single then some ([], rest)
    else if isShown c then push (some c) (literal? rest)
    else none

/-- The quotes that belong to a string over several lines and what follows its closing ones, if it
ends with the quotes at the beginning of the text. -/
def closing? (quote : Char) (text : Text) : Option (Text × Text) :=
  let run := (text.takeWhile (· == quote)).length
  if run < 3 then none
  else some (List.replicate (min (run - 3) 2) quote, text.drop (min run 5))

/-- Whether a backslash in front of a text joins lines: only blanks follow it on its line. -/
def joinsLines (text : Text) : Bool :=
  (newline? (text.dropWhile isGap)).isSome

/-- A string with escapes over several lines behind its opening quotes, and what follows its closing
ones. While lines are joined, blanks and line breaks are left out. -/
def longBasic? : Bool → Text → Option (Text × Text)
  | _, [] => none
  | joining, '\r' :: '\n' :: rest =>
    if joining then longBasic? true rest else push (some '\n') (longBasic? false rest)
  | _, '\\' :: 'u' :: a :: b :: c :: d :: rest =>
    push (scalar? [a, b, c, d]) (longBasic? false rest)
  | _, '\\' :: 'U' :: a :: b :: c :: d :: e :: f :: g :: h :: rest =>
    push (scalar? [a, b, c, d, e, f, g, h]) (longBasic? false rest)
  | _, '\\' :: c :: rest =>
    if joinsLines (c :: rest) then longBasic? true (c :: rest)
    else push (escaped? c) (longBasic? false rest)
  | joining, c :: rest =>
    if joining && (isGap c || c == '\n') then longBasic? true rest
    else if c = double then
      match closing? double (c :: rest) with
      | some ending => some ending
      | none => push (some c) (longBasic? false rest)
    else if isShown c || c == '\n' then push (some c) (longBasic? false rest)
    else none

/-- A string without escapes over several lines behind its opening quotes, and what follows its
closing ones. -/
def longLiteral? : Text → Option (Text × Text)
  | [] => none
  | '\r' :: '\n' :: rest => push (some '\n') (longLiteral? rest)
  | c :: rest =>
    if c = single then
      match closing? single (c :: rest) with
      | some ending => some ending
      | none => push (some c) (longLiteral? rest)
    else if isShown c || c == '\n' then push (some c) (longLiteral? rest)
    else none

/-- A text without the line break at its beginning. -/
def withoutNewline (text : Text) : Text :=
  (newline? text).getD text

/-- The string at the beginning of a text, and what follows it. -/
def string? (text : Text) : Option (Text × Text) :=
  match after? [double, double, double] text with
  | some rest => longBasic? false (withoutNewline rest)
  | none =>
    match after? [single, single, single] text with
    | some rest => longLiteral? (withoutNewline rest)
    | none =>
      match text with
      | [] => none
      | c :: rest =>
        if c = double then basic? rest else if c = single then literal? rest else none

end Quoted

end Golden.Toml
