import Golden.Yaml.Scalar
import Golden.Yaml.Token

/-!
# Reading YAML tokens

A reader goes over the text once. Indentation opens and closes blocks; inside brackets and braces it
means nothing. A key needs no mark of its own: only the colon behind it tells that something was a
key, so the reader remembers where a key could have begun and puts the missing tokens there when the
colon comes. Such a key has to end on its line, within 1024 characters.

## Main definitions

* `Yaml.Key` — where a key could have begun
* `Yaml.State` — what a reader knows
* `Yaml.State.step` — one token, with the tokens that indentation asks for
* `Yaml.tokens?` — the tokens of a text
-/

namespace Golden.Yaml

/-- Where a key could have begun. -/
structure Key where
  /-- Whether nothing but a key can stand there. -/
  required : Bool
  /-- How many tokens stand in front of it. -/
  position : Nat
  mark : Mark

/-- What a reader knows. -/
structure State where
  rest : Text
  mark : Mark
  /-- The tokens read so far, latest first. -/
  tokens : List Token
  /-- How many they are. -/
  count : Nat
  /-- The columns of the open blocks, innermost first. -/
  blocks : List Nat
  /-- The key that could have begun at the present level. -/
  key : Option Key
  /-- The same for each bracket or brace around it, innermost first. -/
  outer : List (Option Key)
  /-- Whether a key may begin here. -/
  keyAllowed : Bool

namespace State

/-- A reader at the beginning of a text. -/
def start (text : Text) : State := ⟨text, .start, [], 0, [], none, [], true⟩

/-- Whether the reader is inside brackets or braces. -/
def inFlow (s : State) : Bool :=
  !s.outer.isEmpty

/-- The least column at which the content of the innermost block may stand. -/
def contentColumn (s : State) : Nat :=
  match s.blocks with
  | [] => 0
  | column :: _ => column + 1

/-- The reader with one more token. -/
def emit (t : Token) (s : State) : State :=
  { s with tokens := t :: s.tokens, count := s.count + 1 }

/-- The reader with one more token, put behind the first `position` ones. -/
def emitAt (position : Nat) (t : Token) (s : State) : State :=
  let behind := s.count - position
  { s with
    tokens := s.tokens.take behind ++ t :: s.tokens.drop behind
    count := s.count + 1 }

/-- The reader behind some characters of the same line. -/
def advance (n : Nat) (s : State) : State :=
  { s with mark := s.mark.advance n, rest := s.rest.drop n }

/-- The reader at another place. -/
def moveTo (m : Mark) (rest : Text) (s : State) : State :=
  { s with mark := m, rest := rest }

/-- Open a block at a column, if that is further in than the innermost one; its token stands behind
the first `position` ones. -/
def openBlock (column position : Nat) (t : Token) (s : State) : State :=
  if !s.inFlow && s.contentColumn ≤ column then
    { s.emitAt position t with blocks := column :: s.blocks }
  else s

/-- Close one block for each of the given columns. -/
def closeAll : List Nat → State → State
  | [], s => { s with blocks := [] }
  | _ :: others, s => closeAll others (s.emit .blockEnd)

/-- Close the blocks that lie further in than a column. -/
def closeBeyond (column : Nat) : List Nat → State → State
  | [], s => { s with blocks := [] }
  | c :: others, s =>
    if column < c then closeBeyond column others (s.emit .blockEnd)
    else { s with blocks := c :: others }

/-- Close the blocks that do not reach down to a column. -/
def closeTo (column : Nat) (s : State) : State :=
  if s.inFlow then s else closeBeyond column s.blocks s

/-- Close all blocks. -/
def closeBlocks (s : State) : State :=
  if s.inFlow then s else closeAll s.blocks s

/-- Give up the key that could have begun at this level; a required one cannot be given up. -/
def dropKey (s : State) : Option State :=
  if s.key.any (·.required) then none else some { s with key := none }

/-- Remember that a key could begin here. -/
def saveKey (s : State) : Option State :=
  if s.keyAllowed then do
    let s ← s.dropKey
    let required := !s.inFlow && s.blocks.head? == some s.mark.column
    return { s with key := some ⟨required, s.count, s.mark⟩ }
  else some s

/-- The greatest distance between the beginning of a key and its colon. -/
def maxKey : Nat := 1024

/-- A remembered key, unless the reader is too far behind it; a required one must not be lost. -/
def freshKey (m : Mark) : Option Key → Option (Option Key)
  | none => some none
  | some k =>
    if k.mark.line < m.line || k.mark.index + maxKey < m.index then
      if k.required then none else some none
    else some (some k)

/-- The reader without the keys that are too far behind. -/
def dropStale (s : State) : Option State := do
  let key ← freshKey s.mark s.key
  let outer ← s.outer.mapM (freshKey s.mark)
  return { s with key := key, outer := outer }

/-- Skip blanks, comments and line breaks from a mark on; the first two arguments tell whether the
reader is inside brackets or braces, and inside a comment. A new line outside of brackets and braces
may begin with a key, and a tab must not stand where a key could. -/
def skipFrom (flow : Bool) : Bool → Bool → Mark → Text → Bool × Mark × Text
  | _, allowed, m, [] => (allowed, m, [])
  | _, allowed, m, '\r' :: '\n' :: rest => skipFrom flow false (allowed || !flow) (m.newline 2) rest
  | comment, allowed, m, c :: rest =>
    if isBreak c then skipFrom flow false (allowed || !flow) (m.newline 1) rest
    else if comment || c = '#' then skipFrom flow true allowed (m.advance 1) rest
    else if c = ' ' || (c = '\t' && (flow || !allowed)) then
      skipFrom flow false allowed (m.advance 1) rest
    else (allowed, m, c :: rest)

/-- Skip to the next token. -/
def skip (s : State) : State :=
  let s := if s.mark.index = 0 && s.rest.head? = some byteOrderMark then s.advance 1 else s
  let (allowed, m, rest) := skipFrom s.inFlow false s.keyAllowed s.mark s.rest
  { s with keyAllowed := allowed, mark := m, rest := rest }

/-- A marker between documents. -/
def boundary (t : Token) (s : State) : Option State := do
  let s ← s.closeBlocks.dropKey
  return ({ s with keyAllowed := false }.advance 3).emit t

/-- A bracket or brace that opens. -/
def openFlow (t : Token) (s : State) : Option State := do
  let s ← s.saveKey
  return ({ s with key := none, outer := s.key :: s.outer, keyAllowed := true }.advance 1).emit t

/-- A bracket or brace that closes. -/
def closeFlow (t : Token) (s : State) : Option State := do
  let s ← s.dropKey
  let s := { s with key := s.outer.headD none, outer := s.outer.tail, keyAllowed := false }
  return (s.advance 1).emit t

/-- A comma inside brackets or braces. -/
def flowEntry (s : State) : Option State := do
  let s ← s.dropKey
  return ({ s with keyAllowed := true }.advance 1).emit .flowEntry

/-- A dash in front of an item. -/
def blockEntry (s : State) : Option State :=
  if !s.inFlow && !s.keyAllowed then none
  else do
    let s ← (s.openBlock s.mark.column s.count .blockSequence).dropKey
    return ({ s with keyAllowed := true }.advance 1).emit .blockEntry

/-- A question mark in front of a key. -/
def explicitKey (s : State) : Option State :=
  if !s.inFlow && !s.keyAllowed then none
  else do
    let s ← (s.openBlock s.mark.column s.count .blockMapping).dropKey
    return ({ s with keyAllowed := !s.inFlow }.advance 1).emit .key

/-- A colon in front of a value: behind a key that could have begun on this line, or else behind an
explicit one. -/
def value (s : State) : Option State :=
  match s.key with
  | some k =>
    let s := (s.emitAt k.position .key).openBlock k.mark.column k.position .blockMapping
    some (({ s with key := none, keyAllowed := false }.advance 1).emit .value)
  | none =>
    if !s.inFlow && !s.keyAllowed then none
    else
      let s := s.openBlock s.mark.column s.count .blockMapping
      some (({ s with keyAllowed := !s.inFlow }.advance 1).emit .value)

/-- Whether a character may follow the name of an anchor or alias. -/
def endsAnchor (rest : Text) : Bool :=
  endsToken rest ||
    rest.head?.any fun c => c ∈ ['?', ':', ',', ']', '\x7d', '%', '@', '\x60']

/-- An anchor or an alias. -/
def anchor (t : Text → Token) (s : State) : Option State := do
  let s ← s.saveKey
  let name := (s.rest.drop 1).takeWhile isWord
  let s := { s with keyAllowed := false }.advance (name.length + 1)
  if name = [] || !endsAnchor s.rest then none else some (s.emit (t name))

/-- Whether a character may stand in the suffix of a tag as it is. -/
def isUri (verbatim : Bool) (c : Char) : Bool :=
  isWord c ||
    c ∈ [';', '/', '?', ':', '@', '&', '=', '+', '$', '.', '!', '~', '*', '\x27', '(', ')'] ||
    (verbatim && c ∈ [',', '[', ']'])

/-- How many bytes a character takes whose first byte is given. -/
def widthOf? (first : Nat) : Option Nat :=
  if first < 0x80 then some 1
  else if first / 0x20 = 0x06 then some 2
  else if first / 0x10 = 0x0e then some 3
  else if first / 0x08 = 0x1e then some 4
  else none

/-- The suffix of a tag, and how many characters of the text it takes; `more` bytes are still to
come of a character that is written by its bytes. Such a character is not told from another unless
it takes one byte. -/
def uri? (verbatim : Bool) : Nat → Text → Option (Text × Nat)
  | more, '%' :: a :: b :: rest => do
    let byte := (← Numeral.digit? 16 a) * 16 + (← Numeral.digit? 16 b)
    if more = 0 then
      let width ← widthOf? byte
      let (suffix, n) ← uri? verbatim (width - 1) rest
      return (if width = 1 then Char.ofNat byte :: suffix else '\ufffd' :: suffix, n + 3)
    else if byte / 0x40 = 0x02 then
      let (suffix, n) ← uri? verbatim (more - 1) rest
      return (suffix, n + 3)
    else none
  | more, c :: rest =>
    if more ≠ 0 || c = '%' then none
    else if isUri verbatim c then do
      let (suffix, n) ← uri? verbatim 0 rest
      return (c :: suffix, n + 1)
    else some ([], 0)
  | more, [] => if more ≠ 0 then none else some ([], 0)

/-- A handle at the beginning of a text: an exclamation mark, and perhaps a word and another one. -/
def handle (rest : Text) : Text :=
  let word := (rest.drop 1).takeWhile isWord
  if ((rest.drop 1).drop word.length).head? = some '!' then '!' :: word ++ ['!'] else '!' :: word

/-- Whether a handle has an exclamation mark at both ends. -/
def isNamed (h : Text) : Bool :=
  1 < h.length && h.getLast? == some '!'

/-- The handle and the suffix of a tag, and how many characters it takes. -/
def tag? (rest : Text) : Option (Text × Text × Nat) :=
  match after? ['!', '<'] rest with
  | some rest => do
    let (suffix, n) ← uri? true 0 rest
    if suffix = [] || (rest.drop n).head? ≠ some '>' then none else some ([], suffix, n + 3)
  | none => do
    let h := handle rest
    let (suffix, n) ← uri? false 0 (rest.drop h.length)
    if isNamed h then
      if suffix = [] then none else some (h, suffix, h.length + n)
    else if h.tail ++ suffix = [] then some ([], ['!'], h.length + n)
    else some (['!'], h.tail ++ suffix, h.length + n)

/-- A tag. -/
def tag (s : State) : Option State := do
  let s ← s.saveKey
  let (h, suffix, n) ← tag? s.rest
  let s := { s with keyAllowed := false }.advance n
  if endsToken s.rest || (s.inFlow && s.rest.head? = some ',') then some (s.emit (.tag h suffix))
  else none

/-- A literal or folded scalar. -/
def block (style : Style) (s : State) : Option State := do
  let s ← s.dropKey
  let s := { s with keyAllowed := true }.advance 1
  let r ← Block.read (style = .folded) s.contentColumn s.mark s.rest
  return (s.moveTo r.mark r.rest).emit (.scalar style r.value)

/-- A quoted scalar. -/
def quoted (style : Style) (read : Mark → Text → Option (Reading Text)) (s : State) :
    Option State := do
  let s ← s.saveKey
  let s := { s with keyAllowed := false }.advance 1
  let r ← read s.mark s.rest
  return (s.moveTo r.mark r.rest).emit (.scalar style r.value)

/-- A plain scalar. -/
def plain (s : State) : Option State := do
  let s ← s.saveKey
  let r ← Plain.read s.inFlow s.contentColumn s.mark s.rest
  return ({ s with keyAllowed := r.value.2 }.moveTo r.mark r.rest).emit (.scalar .plain r.value.1)

/-- The greatest number of digits in a part of a version. -/
def maxVersionDigits : Nat := 9

/-- A part of a version, and how many digits it has. -/
def versionPart? (rest : Text) : Option (Nat × Nat) :=
  let digits := rest.takeWhile isNumber
  if maxVersionDigits < digits.length then none
  else (Numeral.natural? 10 digits).map fun n => (n, digits.length)

/-- What a directive for the version says, and how many characters it takes. -/
def version? (rest : Text) : Option (Token × Nat) := do
  let (major, n) ← versionPart? rest
  let rest ← after? ['.'] (rest.drop n)
  let (minor, m) ← versionPart? rest
  return (.version major minor, n + 1 + m)

/-- What a directive for a handle says, and how many characters it takes. -/
def handle? (rest : Text) : Option (Token × Nat) := do
  if rest.head? ≠ some '!' then none
  let h := handle rest
  if h ≠ ['!'] && !isNamed h then none
  let behind := rest.drop h.length
  let blanks := (behind.takeWhile isGap).length
  let (suffix, n) ← uri? true 0 (behind.drop blanks)
  if blanks = 0 || suffix = [] || !endsToken ((behind.drop blanks).drop n) then none
  return (.handle h suffix, h.length + blanks + n)

/-- A directive. -/
def directive (s : State) : Option State := do
  let s ← s.closeBlocks.dropKey
  let s := { s with keyAllowed := false }.advance 1
  let name := s.rest.takeWhile isWord
  let behind := s.rest.drop name.length
  let blanks := (behind.takeWhile isGap).length
  let (t, n) ←
    if !endsToken behind then none
    else if name = "YAML".toList then version? (behind.drop blanks)
    else if name = "TAG".toList then handle? (behind.drop blanks)
    else none
  let s := s.advance (name.length + blanks + n)
  let (m, rest) ← Block.skipHeaderLine false s.mark s.rest
  return (s.moveTo m rest).emit t

/-- Whether a plain scalar may begin with `c` in front of `rest`. -/
def opensPlain (flow : Bool) (c : Char) (rest : Text) : Bool :=
  if c = '-' then !(rest.head?.any isGap)
  else if c = '?' then !endsToken rest
  else if c = ':' then !flow && !endsToken rest
  else c ∉ [',', '[', ']', '\x7b', '\x7d', '#', '&', '*', '!', '|', '>', '\x27', '\x22', '%', '@', '\x60']

/-- Read the token that begins with `c` in front of `rest`. -/
def token (c : Char) (rest : Text) (s : State) : Option State :=
  if s.mark.column = 0 && c = '%' then s.directive
  else if s.mark.column = 0 && isMarker '-' (c :: rest) then s.boundary .documentStart
  else if s.mark.column = 0 && isMarker '.' (c :: rest) then s.boundary .documentEnd
  else if c = '[' then s.openFlow .flowSequence
  else if c = '\x7b' then s.openFlow .flowMapping
  else if c = ']' then s.closeFlow .flowSequenceEnd
  else if c = '\x7d' then s.closeFlow .flowMappingEnd
  else if c = ',' then s.flowEntry
  else if c = '-' && endsToken rest then s.blockEntry
  else if c = '?' && endsToken rest then s.explicitKey
  else if c = ':' && (s.inFlow || endsToken rest) then s.value
  else if c = '*' then s.anchor .alias
  else if c = '&' then s.anchor .anchor
  else if c = '!' then s.tag
  else if c = '|' && !s.inFlow then s.block .literal
  else if c = '>' && !s.inFlow then s.block .folded
  else if c = '\x27' then s.quoted .singleQuoted Single.read
  else if c = '\x22' then s.quoted .doubleQuoted Double.read
  else if opensPlain s.inFlow c rest then s.plain
  else none

/-- The reader at the end of the text. -/
def finish (s : State) : Option (List Token) :=
  s.closeBlocks.dropKey.map (·.tokens.reverse)

/-- Read on to the end of the text, with at most as many steps as are given. -/
def run : Nat → State → Option (List Token)
  | 0, _ => none
  | steps + 1, s => do
    let s ← s.skip.dropStale
    let s := s.closeTo s.mark.column
    match s.rest with
    | [] => s.finish
    | c :: rest => run steps (← s.token c rest)

end State

/-- The tokens of a text; every step but the last takes at least one character. -/
def tokens? (text : Text) : Option (List Token) :=
  let text := (after? [byteOrderMark] text).getD text
  if text.all isAdmitted then State.run (text.length + 1) (.start text) else none

end Golden.Yaml
