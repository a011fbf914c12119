import Golden.Text.Numeral

/-!
# TOML dates and times

A date, a time of day, or both with an optional offset, and the one text by which each of them is
known: a capital T in front of the time, at most nine decimal places without zeros at the end, a
capital Z or the hours and minutes of the offset.

## Main definitions

* `Toml.Moment.date?`, `Toml.Moment.time?`, `Toml.Moment.offset?` — the parts
* `Toml.Moment.read?` — the date, the time, or both at the beginning of a text
-/

namespace Golden.Toml.Moment

/-- Some digits at the beginning of a text, with their value, and what follows them. -/
def digits? (count : Nat) (text : Text) : Option (Nat × Text × Text) := do
  let digits := text.take count
  if digits.length < count then none
  else return (← Numeral.natural? 10 digits, digits, text.drop count)

/-- Two digits with a value between two bounds, and what follows them. -/
def pair? (least most : Nat) (text : Text) : Option (Nat × Text × Text) :=
  (digits? 2 text).filter fun r => least ≤ r.1 && r.1 ≤ most

/-- The number of days of a month. -/
def daysOf (year month : Nat) : Nat :=
  if month = 2 then
    if year % 4 = 0 && (year % 100 ≠ 0 || year % 400 = 0) then 29 else 28
  else if month = 4 || month = 6 || month = 9 || month = 11 then 30
  else 31

/-- The date at the beginning of a text, and what follows it. -/
def date? (text : Text) : Option (Text × Text) := do
  let (year, yearText, rest) ← digits? 4 text
  let (month, monthText, rest) ← pair? 1 12 (← after? ['-'] rest)
  let (_, dayText, rest) ← pair? 1 (daysOf year month) (← after? ['-'] rest)
  return (yearText ++ '-' :: monthText ++ '-' :: dayText, rest)

/-- A text without the zeros at its end. -/
def withoutZeros (text : Text) : Text :=
  (text.reverse.dropWhile (· == '0')).reverse

/-- The decimal places at the beginning of a text, with the point in front of them, and what follows
them; there may be none. -/
def fraction? : Text → Option (Text × Text)
  | '.' :: rest =>
    let digits := rest.takeWhile fun c => (Numeral.digit? 10 c).isSome
    let places := withoutZeros (digits.take 9)
    if digits = [] then none
    else some (if places = [] then [] else '.' :: places, rest.drop digits.length)
  | rest => some ([], rest)

/-- The time of day at the beginning of a text, and what follows it. -/
def time? (text : Text) : Option (Text × Text) := do
  let (_, hour, rest) ← pair? 0 23 text
  let (_, minute, rest) ← pair? 0 59 (← after? [':'] rest)
  let (_, second, rest) ← pair? 0 60 (← after? [':'] rest)
  let (fraction, rest) ← fraction? rest
  return (hour ++ ':' :: minute ++ ':' :: second ++ fraction, rest)

/-- The offset at the beginning of a text, and what follows it; there may be none. No offset at all
is written with a plus sign. -/
def offset? : Text → Option (Text × Text)
  | [] => some ([], [])
  | c :: rest =>
    if c = 'Z' || c = 'z' then some (['Z'], rest)
    else if c = '+' || c = '-' then do
      let (hours, hourText, rest) ← pair? 0 23 rest
      let (minutes, minuteText, rest) ← pair? 0 59 (← after? [':'] rest)
      let sign := if hours + minutes = 0 then '+' else c
      return (sign :: hourText ++ ':' :: minuteText, rest)
    else some ([], c :: rest)

/-- Whether a character may stand between a date and a time. -/
def isDivider (c : Char) : Bool :=
  c == 'T' || c == 't' || c == ' '

/-- The date, the time, or both at the beginning of a text, and what follows. -/
def read? (text : Text) : Option (Text × Text) :=
  match date? text with
  | none => time? text
  | some (date, rest) =>
    match rest with
    | [] => some (date, [])
    | c :: behind =>
      if isDivider c then
        match time? behind with
        | none => some (date, rest)
        | some (time, rest) =>
          (offset? rest).map fun r => (date ++ 'T' :: time ++ r.1, r.2)
      else some (date, rest)

end Golden.Toml.Moment
