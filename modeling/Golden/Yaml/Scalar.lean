import Golden.Text.Numeral
import Golden.Yaml.Mark

/-!
# YAML scalars

How the text of a scalar is read in each of the five styles. In the flow styles a run of blanks and
line breaks is a gap: within a line it stays as it is, a single line break becomes a space, and of
several the first is dropped. In the block styles lines are taken as they are below their
indentation, and the folded style joins them by the rule for gaps where neither line is indented
further.

## Main definitions

* `Yaml.Gap` — a run of blanks and breaks that may still turn out to end the scalar
* `Yaml.Plain.read` — a plain scalar
* `Yaml.Single.read`, `Yaml.Double.read` — quoted scalars
* `Yaml.Block.read` — a literal or folded scalar
-/

namespace Golden.Yaml

/-- What was read, and where the reader stands behind it. -/
structure Reading (α : Type) where
  value : α
  mark : Mark
  rest : Text

/-- A run of blanks and line breaks inside a scalar: the blanks in front of the first break, latest
first, and the texts of the first break and of the ones behind it. -/
structure Gap where
  blanks : Text
  breaks : Option (Text × Text)

namespace Gap

/-- No blanks and no breaks. -/
def none : Gap := ⟨[], .none⟩

/-- The gap in which lines are joined without anything between them. -/
def joined : Gap := ⟨[], some ([], [])⟩

/-- Whether there is anything in a gap. -/
def isNone (g : Gap) : Bool :=
  g.blanks.isEmpty && g.breaks.isNone

/-- Whether a gap goes over the end of a line. -/
def isBroken (g : Gap) : Bool :=
  g.breaks.isSome

/-- A gap with one more blank; blanks behind a break are indentation. -/
def addBlank (g : Gap) (c : Char) : Gap :=
  if g.isBroken then g else { g with blanks := c :: g.blanks }

/-- A gap with one more break; blanks in front of a break are dropped. -/
def addBreak (g : Gap) (text : Text) : Gap :=
  match g.breaks with
  | .none => ⟨[], some (text, [])⟩
  | some (first, others) => ⟨[], some (first, others ++ text)⟩

/-- What a gap means between two characters of a scalar. -/
def text (g : Gap) : Text :=
  match g.breaks with
  | .none => g.blanks.reverse
  | some (first, others) =>
    if first = ['\n'] then if others = [] then [' '] else others
    else first ++ others

/-- The characters read so far, latest first, with what a gap means behind them. -/
def flush (g : Gap) (out : Text) : Text :=
  g.text.reverse ++ out

end Gap

namespace Plain

/-- Whether a character delimits a plain scalar inside brackets or braces. -/
def isFlowMark (c : Char) : Bool :=
  c == ',' || c == '[' || c == ']' || c == '\x7b' || c == '\x7d'

/-- Whether a plain scalar inside brackets or braces must not go on with a colon and this. -/
def isFlowClash (rest : Text) : Bool :=
  rest.head?.any fun c => isFlowMark c || c == '?'

/-- Whether a plain scalar ends in front of a character that is neither blank nor break. -/
def stopsAt (flow : Bool) (indent : Nat) (m : Mark) (g : Gap) (c : Char) (rest : Text) : Bool :=
  (!g.isNone && ((!flow && m.column < indent) || atBoundary m (c :: rest) || c == '#')) ||
    (c == ':' && endsToken rest) || (flow && isFlowMark c)

/-- Read a plain scalar on: `out` is its text so far, latest character first, and `g` the gap behind
it. The value is the text, and whether the scalar ends behind a line break. -/
def readFrom (flow : Bool) (indent : Nat) :
    Text → Gap → Mark → Text → Option (Reading (Text × Bool))
  | out, g, m, [] => some ⟨(out.reverse, g.isBroken), m, []⟩
  | out, g, m, '\r' :: '\n' :: rest => readFrom flow indent out (g.addBreak ['\n']) (m.newline 2) rest
  | out, g, m, c :: rest =>
    if isBreak c then readFrom flow indent out (g.addBreak (breakText c)) (m.newline 1) rest
    else if isGap c then
      if g.isBroken && m.column < indent && c == '\t' then none
      else readFrom flow indent out (g.addBlank c) (m.advance 1) rest
    else if stopsAt flow indent m g c rest then some ⟨(out.reverse, g.isBroken), m, c :: rest⟩
    else if flow && c == ':' && isFlowClash rest then none
    else readFrom flow indent (c :: g.flush out) .none (m.advance 1) rest

/-- Read a plain scalar whose further lines are indented by at least `indent`. -/
def read (flow : Bool) (indent : Nat) (m : Mark) (rest : Text) : Option (Reading (Text × Bool)) :=
  readFrom flow indent [] .none m rest

end Plain

namespace Single

/-- Read a single-quoted scalar on behind its opening quote; a quote inside it is written twice. -/
def readFrom : Text → Gap → Mark → Text → Option (Reading Text)
  | _, _, _, [] => none
  | out, g, m, '\r' :: '\n' :: rest => readFrom out (g.addBreak ['\n']) (m.newline 2) rest
  | out, g, m, '\x27' :: '\x27' :: rest => readFrom ('\x27' :: g.flush out) .none (m.advance 2) rest
  | out, g, m, c :: rest =>
    if isBreak c then readFrom out (g.addBreak (breakText c)) (m.newline 1) rest
    else if isGap c then readFrom out (g.addBlank c) (m.advance 1) rest
    else if atBoundary m (c :: rest) then none
    else if c = '\x27' then some ⟨(g.flush out).reverse, m.advance 1, rest⟩
    else readFrom (c :: g.flush out) .none (m.advance 1) rest

/-- Read a single-quoted scalar behind its opening quote. -/
def read (m : Mark) (rest : Text) : Option (Reading Text) :=
  readFrom [] .none m rest

end Single

namespace Double

/-- The character that a letter behind a backslash stands for. -/
def escaped? (c : Char) : Option Char :=
  match c with
  | '0' => some '\x00'
  | 'a' => some '\x07'
  | 'b' => some '\x08'
  | 't' => some '\t'
  | '\t' => some '\t'
  | 'n' => some '\n'
  | 'v' => some '\x0b'
  | 'f' => some '\x0c'
  | 'r' => some '\r'
  | 'e' => some '\x1b'
  | ' ' => some ' '
  | '\x22' => some '\x22'
  | '/' => some '/'
  | '\\' => some '\\'
  | 'N' => some nextLine
  | '_' => some '\u00a0'
  | 'L' => some '\u2028'
  | 'P' => some '\u2029'
  | _ => none

/-- How many hexadecimal digits follow a letter behind a backslash. -/
def codeLength? (c : Char) : Option Nat :=
  match c with
  | 'x' => some 2
  | 'u' => some 4
  | 'U' => some 8
  | _ => none

/-- The character with a code point, if there is one. -/
def charOf? (n : Nat) : Option Char :=
  if n.isValidChar then some (Char.ofNat n) else none

/-- What the escapes of a double-quoted scalar leave open: nothing, or a code point of which some
digits are still to come. -/
inductive Pending where
  | none
  | code (digits value : Nat)

/-- Read a double-quoted scalar on behind its opening quote. -/
def readFrom : Text → Gap → Pending → Mark → Text → Option (Reading Text)
  | _, _, _, _, [] => none
  | out, g, .code digits value, m, c :: rest =>
    match Numeral.digit? 16 c with
    | .none => .none
    | some d =>
      if digits ≤ 1 then
        match charOf? (value * 16 + d) with
        | .none => .none
        | some c => readFrom (c :: out) g .none (m.advance 1) rest
      else readFrom out g (.code (digits - 1) (value * 16 + d)) (m.advance 1) rest
  | out, g, .none, m, '\\' :: '\r' :: '\n' :: rest =>
    readFrom (g.flush out) .joined .none ((m.advance 1).newline 2) rest
  | out, g, .none, m, '\\' :: c :: rest =>
    if isBreak c then readFrom (g.flush out) .joined .none ((m.advance 1).newline 1) rest
    else
      match escaped? c, codeLength? c with
      | some e, _ => readFrom (e :: g.flush out) .none .none (m.advance 2) rest
      | .none, some n => readFrom (g.flush out) .none (.code n 0) (m.advance 2) rest
      | .none, .none => .none
  | out, g, .none, m, '\r' :: '\n' :: rest =>
    readFrom out (g.addBreak ['\n']) .none (m.newline 2) rest
  | out, g, .none, m, c :: rest =>
    if isBreak c then readFrom out (g.addBreak (breakText c)) .none (m.newline 1) rest
    else if isGap c then readFrom out (g.addBlank c) .none (m.advance 1) rest
    else if atBoundary m (c :: rest) then .none
    else if c = '\x22' then some ⟨(g.flush out).reverse, m.advance 1, rest⟩
    else if c = '\\' then .none
    else readFrom (c :: g.flush out) .none .none (m.advance 1) rest

/-- Read a double-quoted scalar behind its opening quote. -/
def read (m : Mark) (rest : Text) : Option (Reading Text) :=
  readFrom [] .none .none m rest

end Double

namespace Block

/-- What happens to the line breaks at the end of a block scalar. -/
inductive Chomping where
  /-- All of them are dropped. -/
  | strip
  /-- The first of them is kept. -/
  | clip
  /-- All of them are kept. -/
  | keep
  deriving DecidableEq

/-- What the first line of a block scalar says. -/
structure Header where
  chomping : Chomping
  /-- How much further than the block around it the scalar is indented; zero if it is not said. -/
  increment : Nat

/-- The chomping that an indicator stands for. -/
def chomping? (c : Char) : Option Chomping :=
  if c = '+' then some .keep else if c = '-' then some .strip else none

/-- The indicators at the beginning of a block scalar, in either order, and how many there are. -/
def header? : Text → Option (Header × Nat)
  | c :: d :: _ =>
    match chomping? c with
    | some chomping =>
      if isNumber d then
        if d = '0' then none else some (⟨chomping, d.toNat - '0'.toNat⟩, 2)
      else some (⟨chomping, 0⟩, 1)
    | none =>
      if isNumber c then
        if c = '0' then none
        else
          match chomping? d with
          | some chomping => some (⟨chomping, c.toNat - '0'.toNat⟩, 2)
          | none => some (⟨.clip, c.toNat - '0'.toNat⟩, 1)
      else some (⟨.clip, 0⟩, 0)
  | [c] =>
    match chomping? c with
    | some chomping => some (⟨chomping, 0⟩, 1)
    | none =>
      if isNumber c then if c = '0' then none else some (⟨.clip, c.toNat - '0'.toNat⟩, 1)
      else some (⟨.clip, 0⟩, 0)
  | [] => some (⟨.clip, 0⟩, 0)

/-- What is known of a block scalar while it is read. -/
structure State where
  /-- The text so far, latest character first. -/
  out : Text
  /-- The break of the last line of content, which is not in the text yet. -/
  leading : Text
  /-- The breaks of the empty lines behind it. -/
  trailing : Text
  /-- Whether the last line of content begins with a blank. -/
  wasBlank : Bool
  /-- The column of the content; zero as long as it is not known. -/
  indent : Nat
  /-- The widest indentation seen so far. -/
  widest : Nat
  /-- Whether the reader is inside a line of content. -/
  inside : Bool

namespace State

/-- A block scalar of which nothing is read yet. -/
def start (indent : Nat) : State := ⟨[], [], [], false, indent, 0, false⟩

/-- A block scalar whose indentation is known: that of its widest line so far, but not less than
`least`. -/
def settle (least : Nat) (s : State) : State :=
  if s.indent = 0 then { s with indent := max (max s.widest least) 1 } else s

/-- A block scalar at the beginning of a line of content whose first character is `c`. -/
def openLine (folded : Bool) (c : Char) (s : State) : State :=
  let joins := folded && s.leading.head? == some '\n' && !s.wasBlank && !isGap c
  let between := if joins then if s.trailing = [] then [' '] else [] else s.leading
  { s with
    out := s.trailing.reverse ++ between.reverse ++ s.out
    leading := []
    trailing := []
    wasBlank := isGap c
    inside := true }

/-- The text of a block scalar that has ended. -/
def text (chomping : Chomping) (s : State) : Text :=
  s.out.reverse ++
    match chomping with
    | .strip => []
    | .clip => s.leading
    | .keep => s.leading ++ s.trailing

/-- A block scalar behind a line break. -/
def addBreak (text : Text) (s : State) : State :=
  if s.inside then { s with inside := false, leading := text, trailing := [] }
  else { s with trailing := s.trailing ++ text }

end State

/-- Read a block scalar on. -/
def readFrom (folded : Bool) (chomping : Chomping) (least : Nat) :
    State → Mark → Text → Option (Reading Text)
  | s, m, [] => some ⟨s.text chomping, m, []⟩
  | s, m, '\r' :: '\n' :: rest =>
    readFrom folded chomping least (s.addBreak ['\n']) (m.newline 2) rest
  | s, m, c :: rest =>
    if isBreak c then
      readFrom folded chomping least (s.addBreak (breakText c)) (m.newline 1) rest
    else if s.inside then
      readFrom folded chomping least { s with out := c :: s.out } (m.advance 1) rest
    else if (s.indent = 0 || m.column < s.indent) && c = ' ' then
      readFrom folded chomping least { s with widest := max s.widest (m.column + 1) } (m.advance 1)
        rest
    else if (s.indent = 0 || m.column < s.indent) && c = '\t' then none
    else
      let settled := s.settle least
      if m.column = settled.indent then
        let opened := settled.openLine folded c
        readFrom folded chomping least { opened with out := c :: opened.out } (m.advance 1) rest
      else some ⟨settled.text chomping, m, c :: rest⟩

/-- Skip the blanks and the comment behind the indicators, and the line break. -/
def skipHeaderLine : Bool → Mark → Text → Option (Mark × Text)
  | _, m, [] => some (m, [])
  | _, m, '\r' :: '\n' :: rest => some (m.newline 2, rest)
  | comment, m, c :: rest =>
    if isBreak c then some (m.newline 1, rest)
    else if comment || c = '#' then skipHeaderLine true (m.advance 1) rest
    else if isGap c then skipHeaderLine false (m.advance 1) rest
    else none

/-- Read a block scalar behind its first character; `least` is the least column of its content. -/
def read (folded : Bool) (least : Nat) (m : Mark) (rest : Text) : Option (Reading Text) := do
  let (header, n) ← header? rest
  let (m, rest) ← skipHeaderLine false (m.advance n) (rest.drop n)
  let indent :=
    if header.increment = 0 then 0 else if least = 0 then header.increment
    else least - 1 + header.increment
  readFrom folded header.chomping least (.start indent) m rest

end Block

end Golden.Yaml
