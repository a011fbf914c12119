import Golden.Text.Basic

/-!
# UTF-8

Text as bytes. A byte sequence is read one character at a time: either it begins with a well-formed
character, or it begins with a longest piece that could have begun one and did not, of one to three
bytes. Strict reading refuses the second case; lossy reading puts one replacement character in the
place of each such piece. The second byte decides whether a form is overlong, a surrogate or out of
range, so a faulty piece never swallows a byte that begins a character.

## Main definitions

* `Utf8.encode` — the bytes of a text
* `Utf8.next` — the first character or the first faulty piece, and the bytes behind it
* `Utf8.decode?` — strict reading
* `Utf8.decodeLossy` — lossy reading

## Main results

* `Utf8.length_next_le` — every step consumes at least one byte
-/

namespace Golden

/-- A byte sequence, the content of a file or of a stream. -/
abbrev Bytes := List UInt8

namespace Utf8

/-- The bytes of a text. -/
def encode (text : Text) : Bytes :=
  text.flatMap String.utf8EncodeChar

/-- Whether a byte lies in a range. -/
def within (low high : Nat) (b : UInt8) : Bool :=
  low ≤ b.toNat && b.toNat ≤ high

/-- Whether a byte continues a character. -/
def continues (b : UInt8) : Bool :=
  within 0x80 0xbf b

/-- The six low bits that a continuing byte carries. -/
def payload (b : UInt8) : Nat :=
  b.toNat % 0x40

/-- Whether `second` may follow `first` in a character of three bytes: neither an overlong form nor
a surrogate. -/
def opensThree (first second : UInt8) : Bool :=
  if first = 0xe0 then within 0xa0 0xbf second
  else if first = 0xed then within 0x80 0x9f second
  else continues second

/-- Whether `second` may follow `first` in a character of four bytes: neither an overlong form nor a
value above the last character. -/
def opensFour (first second : UInt8) : Bool :=
  if first = 0xf0 then within 0x90 0xbf second
  else if first = 0xf4 then within 0x80 0x8f second
  else continues second

/-- Read a character of two bytes behind its first byte. -/
def nextTwo (first : UInt8) : Bytes → Option Char × Bytes
  | [] => (none, [])
  | b :: rest =>
    if continues b then (some (Char.ofNat (first.toNat % 0x20 * 0x40 + payload b)), rest)
    else (none, b :: rest)

/-- Read a character of three bytes behind its first byte. -/
def nextThree (first : UInt8) : Bytes → Option Char × Bytes
  | [] => (none, [])
  | b :: rest =>
    if opensThree first b then
      match rest with
      | [] => (none, [])
      | c :: rest =>
        if continues c then
          (some (Char.ofNat ((first.toNat % 0x10 * 0x40 + payload b) * 0x40 + payload c)), rest)
        else (none, c :: rest)
    else (none, b :: rest)

/-- Read a character of four bytes behind its first byte. -/
def nextFour (first : UInt8) : Bytes → Option Char × Bytes
  | [] => (none, [])
  | b :: rest =>
    if opensFour first b then
      match rest with
      | [] => (none, [])
      | c :: rest =>
        if continues c then
          match rest with
          | [] => (none, [])
          | d :: rest =>
            if continues d then
              (some (Char.ofNat
                (((first.toNat % 0x08 * 0x40 + payload b) * 0x40 + payload c) * 0x40 + payload d)),
                rest)
            else (none, d :: rest)
        else (none, c :: rest)
    else (none, b :: rest)

/-- What the bytes behind `first` complete: a character, or nothing if `first` and the bytes taken
with it are a faulty piece. -/
def next (first : UInt8) (rest : Bytes) : Option Char × Bytes :=
  if within 0x00 0x7f first then (some (Char.ofNat first.toNat), rest)
  else if within 0xc2 0xdf first then nextTwo first rest
  else if within 0xe0 0xef first then nextThree first rest
  else if within 0xf0 0xf4 first then nextFour first rest
  else (none, rest)

theorem length_nextTwo_le (first : UInt8) (rest : Bytes) :
    (nextTwo first rest).2.length ≤ rest.length := by
  unfold nextTwo
  repeat' split
  all_goals simp

theorem length_nextThree_le (first : UInt8) (rest : Bytes) :
    (nextThree first rest).2.length ≤ rest.length := by
  unfold nextThree
  repeat' split
  all_goals simp_all <;> omega

theorem length_nextFour_le (first : UInt8) (rest : Bytes) :
    (nextFour first rest).2.length ≤ rest.length := by
  unfold nextFour
  repeat' split
  all_goals simp_all <;> omega

/-- Reading a character or a faulty piece leaves no more bytes than there were behind the first. -/
theorem length_next_le (first : UInt8) (rest : Bytes) :
    (next first rest).2.length ≤ rest.length := by
  unfold next
  repeat' split
  · simp
  · exact length_nextTwo_le first rest
  · exact length_nextThree_le first rest
  · exact length_nextFour_le first rest
  · simp

/-- The text that the bytes encode, if every one of them belongs to a well-formed character. -/
def decode? : Bytes → Option Text
  | [] => some []
  | first :: rest =>
    match (next first rest).1 with
    | none => none
    | some c => (decode? (next first rest).2).map (c :: ·)
termination_by bytes => bytes.length
decreasing_by exact Nat.lt_succ_of_le (length_next_le first rest)

/-- The character that stands for a faulty piece. -/
def replacement : Char := Char.ofNat 0xfffd

/-- The text that the bytes encode, with a replacement character for each faulty piece. -/
def decodeLossy : Bytes → Text
  | [] => []
  | first :: rest => (next first rest).1.getD replacement :: decodeLossy (next first rest).2
termination_by bytes => bytes.length
decreasing_by exact Nat.lt_succ_of_le (length_next_le first rest)

end Utf8

end Golden
