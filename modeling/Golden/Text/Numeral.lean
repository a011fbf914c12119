import Golden.Text.Basic

/-!
# Numerals

Whole numbers as they are written and read: digits in a radix up to thirty-six, an optional sign in
front, and a range that the value has to keep to.

## Main definitions

* `Numeral.digit?` — the value of a character as a digit
* `Numeral.natural?` — the value of a non-empty run of digits
* `Numeral.signed?` — the value of a run of decimal digits with an optional sign
* `Numeral.decimal`, `Numeral.hexadecimal` — how a number is written
* `Numeral.int32?`, `Numeral.word64?` — numerals within the range of a machine word
-/

namespace Golden.Numeral

/-- The value of a character as a digit of the radix; letters count from ten in either case. -/
def digit? (radix : Nat) (c : Char) : Option Nat :=
  let n := c.toNat
  let value :=
    if 0x30 ≤ n ∧ n ≤ 0x39 then n - 0x30
    else if 0x41 ≤ n ∧ n ≤ 0x5a then n - 0x41 + 10
    else if 0x61 ≤ n ∧ n ≤ 0x7a then n - 0x61 + 10
    else radix
  if value < radix then some value else none

/-- The value of a run of digits read after the digits that gave `acc`. -/
def accumulate (radix : Nat) : Nat → Text → Option Nat
  | acc, [] => some acc
  | acc, c :: rest => do accumulate radix (acc * radix + (← digit? radix c)) rest

/-- The value of a non-empty run of digits of the radix. -/
def natural? (radix : Nat) (text : Text) : Option Nat :=
  if text = [] then none else accumulate radix 0 text

/-- The value of decimal digits, with at most one sign in front of them. -/
def signed? : Text → Option Int
  | '-' :: digits => (natural? 10 digits).map (-Int.ofNat ·)
  | '+' :: digits => (natural? 10 digits).map Int.ofNat
  | digits => (natural? 10 digits).map Int.ofNat

/-- How a natural number is written with decimal digits. -/
def decimal (n : Nat) : Text :=
  Nat.toDigits 10 n

/-- How a natural number is written with hexadecimal digits, letters in lower case. -/
def hexadecimal (n : Nat) : Text :=
  Nat.toDigits 16 n

/-- How an integer is written with decimal digits. -/
def decimalInt : Int → Text
  | .ofNat n => decimal n
  | .negSucc n => '-' :: decimal (n + 1)

/-- The least integer of a signed word of thirty-two bits. -/
def int32Min : Int := -2147483648

/-- The greatest integer of a signed word of thirty-two bits. -/
def int32Max : Int := 2147483647

/-- The greatest number of an unsigned word of sixty-four bits. -/
def word64Max : Nat := 18446744073709551615

/-- A signed decimal numeral within the range of a signed word of thirty-two bits. -/
def int32? (text : Text) : Option Int :=
  (signed? text).filter fun n => int32Min ≤ n && n ≤ int32Max

/-- A decimal numeral, with an optional plus sign, within an unsigned word of sixty-four bits. -/
def word64? (text : Text) : Option Nat :=
  (natural? 10 ((after? ['+'] text).getD text)).filter (· ≤ word64Max)

end Golden.Numeral
