import Golden.Text.Numeral

/-!
# Durations

A span of time in whole seconds and nanoseconds, and how it is shown: as an exact decimal number of
the largest unit in which it is at least one, without zeros at the end of its fraction.

## Main definitions

* `Duration` — seconds, and nanoseconds below one second
* `Duration.ofParts` — a duration from any numbers of seconds and nanoseconds
* `Duration.ofMillis` — a duration from milliseconds
* `Duration.text` — how a duration is shown
-/

namespace Golden

/-- A span of time: whole seconds, and nanoseconds that do not fill another second. -/
structure Duration where
  secs : Nat
  nanos : Nat
  nanos_lt : nanos < 1000000000 := by decide
  deriving DecidableEq

namespace Duration

/-- The duration of some seconds and some nanoseconds; nanoseconds carry over into seconds. -/
def ofParts (secs nanos : Nat) : Duration :=
  ⟨secs + nanos / 1000000000, nanos % 1000000000, Nat.mod_lt _ (by decide)⟩

/-- The duration of some whole seconds. -/
def ofSecs (secs : Nat) : Duration :=
  ⟨secs, 0, by decide⟩

/-- The duration of some milliseconds. -/
def ofMillis (millis : Nat) : Duration :=
  ofParts (millis / 1000) (millis % 1000 * 1000000)

/-- The first `places` decimal places of a fraction whose numerator, on the scale of that many
places, is `part`; zeros at the end are left out. -/
def places : Nat → Nat → Text
  | 0, _ => []
  | width + 1, part =>
    if part = 0 then []
    else Nat.digitChar (part / 10 ^ width) :: places width (part % 10 ^ width)

/-- A whole number of a unit and a fraction of it with `width` decimal places. -/
def amount (whole width part : Nat) (unit : Text) : Text :=
  Numeral.decimal whole ++ (if part = 0 then [] else '.' :: places width part) ++ unit

/-- How a duration is shown. -/
def text (d : Duration) : Text :=
  if 0 < d.secs then amount d.secs 9 d.nanos ['s']
  else if 1000000 ≤ d.nanos then amount (d.nanos / 1000000) 6 (d.nanos % 1000000) ['m', 's']
  else if 1000 ≤ d.nanos then amount (d.nanos / 1000) 3 (d.nanos % 1000) ['µ', 's']
  else amount d.nanos 0 0 ['n', 's']

end Duration

end Golden
