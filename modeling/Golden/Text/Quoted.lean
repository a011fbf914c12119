import Golden.Text.Numeral
import Golden.Text.Shown

/-!
# Quoted text

A text inside double quotes, written so that it stays on one line and can be read back: a quote and
a backslash get a backslash in front, five control characters have a letter of their own, and every
other character that is not shown is written by the hexadecimal digits of its code point. Which
characters are shown is a parameter, because reading back does not depend on it.

## Main definitions

* `Quoted.escape` — how one character is written
* `Quoted.body` — how a text is written between the quotes
* `Text.quoted` — a text in quotes
-/

namespace Golden

namespace Quoted

/-- The character that opens and closes a quoted text. -/
def mark : Char := '\x22'

/-- How one character is written between the quotes. -/
def escape (shown : Char → Bool) (c : Char) : Text :=
  if c = '\x00' then ['\\', '0']
  else if c = '\t' then ['\\', 't']
  else if c = '\r' then ['\\', 'r']
  else if c = '\n' then ['\\', 'n']
  else if c = mark || c = '\\' then ['\\', c]
  else if shown c then [c]
  else ['\\', 'u', '\x7b'] ++ Numeral.hexadecimal c.toNat ++ ['\x7d']

/-- How a text is written between the quotes. -/
def body (shown : Char → Bool) (text : Text) : Text :=
  text.flatMap (escape shown)

end Quoted

/-- A text in double quotes. -/
def Text.quoted (text : Text) : Text :=
  Quoted.mark :: Quoted.body Text.isShown text ++ [Quoted.mark]

end Golden
