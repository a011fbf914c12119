import Golden.Text.Basic

/-!
# Marks and characters of YAML

Where a reader stands in a YAML text, and the classes of characters that its rules speak of. A line
ends with a line feed, a carriage return, both together, a next-line character, or one of the two
Unicode separators; only the last two survive in the text of a value.

## Main definitions

* `Yaml.Mark` — a position: how many characters are behind, the line and the column
* `Yaml.isAdmitted` — the characters that a YAML text may hold
* `Yaml.isBreak`, `Yaml.isGap`, `Yaml.isWord` — line breaks, blanks, and characters of names
* `Yaml.endsToken` — whether a blank, a break or the end of the text comes next
* `Yaml.atBoundary` — whether a document marker comes next
-/

namespace Golden.Yaml

/-- A position in a text. -/
structure Mark where
  index : Nat
  line : Nat
  column : Nat
  deriving DecidableEq

namespace Mark

/-- The beginning of a text. -/
def start : Mark := ⟨0, 0, 0⟩

/-- The position behind some characters of the same line. -/
def advance (m : Mark) (n : Nat) : Mark :=
  ⟨m.index + n, m.line, m.column + n⟩

/-- The position behind a line break of some characters. -/
def newline (m : Mark) (n : Nat) : Mark :=
  ⟨m.index + n, m.line + 1, 0⟩

end Mark

/-- Whether a YAML text may hold a character. -/
def isAdmitted (c : Char) : Bool :=
  let n := c.toNat
  n == 0x09 || n == 0x0a || n == 0x0d || (0x20 ≤ n && n ≤ 0x7e) || n == 0x85 ||
    (0xa0 ≤ n && n ≤ 0xfffd) || 0x10000 ≤ n

/-- The next-line character. -/
def nextLine : Char := '\u0085'

/-- The mark that may stand in front of a text. -/
def byteOrderMark : Char := '\ufeff'

/-- Whether a character ends a line. -/
def isBreak (c : Char) : Bool :=
  c == '\n' || c == '\r' || c == nextLine || c == '\u2028' || c == '\u2029'

/-- What a line break leaves in the text of a value. -/
def breakText (c : Char) : Text :=
  if c = '\u2028' || c = '\u2029' then [c] else ['\n']

/-- Whether a character is a space or a tab. -/
def isGap (c : Char) : Bool :=
  c == ' ' || c == '\t'

/-- Whether a character is an ASCII digit. -/
def isNumber (c : Char) : Bool :=
  '0' ≤ c && c ≤ '9'

/-- Whether a character may stand in the name of an anchor, a handle or a directive. -/
def isWord (c : Char) : Bool :=
  isNumber c || ('A' ≤ c && c ≤ 'Z') || ('a' ≤ c && c ≤ 'z') || c == '_' || c == '-'

/-- Whether a blank, a line break or the end of the text comes next. -/
def endsToken (rest : Text) : Bool :=
  rest.head?.all fun c => isGap c || isBreak c

/-- Whether a marker of three equal characters stands alone at the beginning of a text. -/
def isMarker (c : Char) (rest : Text) : Bool :=
  match after? [c, c, c] rest with
  | none => false
  | some rest => endsToken rest

/-- Whether the text goes on with a marker that begins or ends a document. -/
def atBoundary (m : Mark) (rest : Text) : Bool :=
  m.column == 0 && (isMarker '-' rest || isMarker '.' rest)

end Golden.Yaml
