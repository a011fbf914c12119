import Golden.Text.Basic

/-!
# Lines

A line ends with a line feed. One carriage return directly in front of that line feed belongs to the
line's ending and not to the line; what follows the last line feed is a line only if it is not
empty, and keeps its carriage returns. The rule is the same for characters and for bytes, so it is
stated over any two marks.

## Main definitions

* `Lines.cut` — the ended lines and the unfinished rest
* `Lines.split` — the lines of a list, for given line feed and carriage return
* `Text.lines` — the lines of a text

## Main results

* `Lines.flatMap_cut` — the pieces and their ends make up the list again
* `Lines.not_mem_of_mem_cut`, `Lines.not_mem_last_cut` — no piece holds the mark that ends it
-/

namespace Golden

namespace Lines

variable {α : Type} [DecidableEq α]

/-- The pieces that `feed` ends, and what follows the last `feed`. -/
def cut (feed : α) : List α → List (List α) × List α
  | [] => ([], [])
  | x :: rest =>
    if x = feed then ([] :: (cut feed rest).1, (cut feed rest).2)
    else
      match cut feed rest with
      | ([], last) => ([], x :: last)
      | (line :: ended, last) => ((x :: line) :: ended, last)

/-- The pieces, each with its end, and the rest make up the list. -/
theorem flatMap_cut (feed : α) (xs : List α) :
    (cut feed xs).1.flatMap (· ++ [feed]) ++ (cut feed xs).2 = xs := by
  induction xs with
  | nil => rfl
  | cons x rest ih =>
    simp only [cut]
    split
    next hx => simp [hx, ih]
    next =>
      split
      next last h =>
        rw [h] at ih
        simpa using ih
      next line ended last h =>
        rw [h] at ih
        simpa using ih

/-- No piece holds the mark that ends it. -/
theorem not_mem_of_mem_cut {feed : α} {xs line : List α} (h : line ∈ (cut feed xs).1) :
    feed ∉ line := by
  induction xs generalizing line with
  | nil => simp [cut] at h
  | cons x rest ih =>
    simp only [cut] at h
    split at h
    · rcases List.mem_cons.1 h with rfl | h
      · simp
      · exact ih h
    next hx =>
      split at h
      · simp at h
      next first ended last hc =>
        rcases List.mem_cons.1 h with rfl | h
        · simpa [Ne.symm hx] using ih (show first ∈ _ by simp [hc])
        · exact ih (by simp [hc, h])

/-- Nor does what follows the last one. -/
theorem not_mem_last_cut (feed : α) (xs : List α) : feed ∉ (cut feed xs).2 := by
  induction xs with
  | nil => simp [cut]
  | cons x rest ih =>
    simp only [cut]
    split
    · exact ih
    next hx =>
      split
      next last h => simpa [h, Ne.symm hx] using ih
      next h => simpa [h] using ih

/-- A line without the carriage return at its end, if it has one there. -/
def withoutReturn (back : α) (line : List α) : List α :=
  if line.getLast? = some back then line.dropLast else line

/-- The lines of a list: one for each line feed, and one more if something follows the last. -/
def split (feed back : α) (xs : List α) : List (List α) :=
  (cut feed xs).1.map (withoutReturn back) ++ if (cut feed xs).2 = [] then [] else [(cut feed xs).2]

end Lines

/-- The lines of a text. -/
def Text.lines (text : Text) : List Text :=
  Lines.split '\n' '\r' text

end Golden
