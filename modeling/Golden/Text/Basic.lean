/-!
# Text

Text is a list of characters, so that every statement about it goes by induction on the list. This
file holds the two questions that the rest of the library asks about raw text: what follows a mark
at its beginning, and whether a pattern occurs somewhere in it.

## Main definitions

* `Text` — a list of characters
* `after?` — what follows a mark at the beginning of a list
* `Text.occursIn` — whether a pattern is a contiguous piece of a text

## Main results

* `after?_eq_some_iff` — `after?` undoes appending to the mark
* `Text.occursIn_iff` — `occursIn` decides the infix relation
-/

namespace Golden

/-- Text is a list of characters. -/
abbrev Text := List Char

/-- What follows `mark` at the beginning of a list, if the list begins with it. -/
def after? {α : Type} [DecidableEq α] : List α → List α → Option (List α)
  | [], rest => some rest
  | _ :: _, [] => none
  | m :: mark, x :: rest => if m = x then after? mark rest else none

/-- A list has a remainder after a mark exactly when it is the mark and that remainder. -/
theorem after?_eq_some_iff {α : Type} [DecidableEq α] {mark xs rest : List α} :
    after? mark xs = some rest ↔ xs = mark ++ rest := by
  induction mark generalizing xs with
  | nil => simp [after?, eq_comm]
  | cons m mark ih =>
    cases xs with
    | nil => simp [after?]
    | cons x xs =>
      by_cases h : m = x
      · simp [after?, h, ih]
      · simp [after?, h, Ne.symm h]

namespace Text

/-- Whether `pattern` occurs in a text as a contiguous piece; the empty pattern always does. -/
def occursIn (pattern : Text) : Text → Bool
  | [] => pattern.isEmpty
  | c :: rest => pattern.isPrefixOf (c :: rest) || occursIn pattern rest

/-- `occursIn` decides whether the pattern is an infix of the text. -/
theorem occursIn_iff {pattern text : Text} : occursIn pattern text = true ↔ pattern <:+: text := by
  induction text with
  | nil => simp [occursIn]
  | cons c rest ih => simp [occursIn, ih, List.infix_cons_iff]

end Text

end Golden
