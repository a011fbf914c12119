import Golden.Text.Lines
import Mathlib.Data.List.Basic

/-!
# Lines put together

Cutting at line ends undoes putting lines together. A list that is ended, because it is empty or its
last mark is a line feed, keeps its lines whatever comes behind it; and lines that are each ended by
a carriage return and a line feed come back as they were, also those that end in a carriage return
of their own.

## Main results

* `Lines.cut_flatMap` — cutting undoes putting ended pieces together
* `Lines.last_cut_eq_nil_iff` — when nothing is left unfinished
* `Lines.split_append` — the lines of an ended list and of what comes behind it
* `Lines.split_flatMap` — lines that were ended one by one come back
-/

namespace Golden

namespace Lines

variable {α : Type} [DecidableEq α] {feed back : α} {xs line : List α}

/-- The first line feed ends the first piece. -/
theorem cut_append_cons (h : feed ∉ line) (rest : List α) :
    cut feed (line ++ feed :: rest) = (line :: (cut feed rest).1, (cut feed rest).2) := by
  induction line with
  | nil => simp [cut]
  | cons x line ih =>
    obtain ⟨hx, hline⟩ : feed ≠ x ∧ feed ∉ line := by simpa using h
    rw [List.cons_append, cut, if_neg (Ne.symm hx), ih hline]

/-- What stands before the first mark and behind it is told by the whole. -/
theorem append_cons_inj {ys behind behind' : List α} (hxs : feed ∉ xs) (hys : feed ∉ ys)
    (h : xs ++ feed :: behind = ys ++ feed :: behind') : xs = ys ∧ behind = behind' := by
  have hcut := congrArg (fun zs => (cut feed zs).1.head?) h
  simp only [cut_append_cons hxs, cut_append_cons hys, List.head?_cons, Option.some.injEq] at hcut
  subst hcut
  exact ⟨rfl, (List.cons.inj (List.append_cancel_left h)).2⟩

theorem cut_of_not_mem (h : feed ∉ xs) : cut feed xs = ([], xs) := by
  induction xs with
  | nil => rfl
  | cons x xs ih =>
    obtain ⟨hx, hxs⟩ : feed ≠ x ∧ feed ∉ xs := by simpa using h
    rw [cut, if_neg (Ne.symm hx), ih hxs]

/-- Cutting undoes putting pieces together with a line feed behind each. -/
theorem cut_flatMap {pieces : List (List α)} (h : ∀ piece ∈ pieces, feed ∉ piece)
    (hline : feed ∉ line) :
    cut feed (pieces.flatMap (· ++ [feed]) ++ line) = (pieces, line) := by
  induction pieces with
  | nil => exact cut_of_not_mem hline
  | cons piece pieces ih =>
    obtain ⟨hpiece, hpieces⟩ := List.forall_mem_cons.mp h
    have hsplit : (piece :: pieces).flatMap (· ++ [feed]) ++ line =
        piece ++ feed :: (pieces.flatMap (· ++ [feed]) ++ line) := by simp
    rw [hsplit, cut_append_cons hpiece, ih hpieces]

/-- Nothing is left unfinished if there is nothing, or if a line feed comes last. -/
theorem last_cut_eq_nil_iff :
    (cut feed xs).2 = [] ↔ xs = [] ∨ xs.getLast? = some feed := by
  have hwhole := flatMap_cut feed xs
  constructor
  · intro hlast
    rw [hlast, List.append_nil] at hwhole
    rcases List.eq_nil_or_concat (cut feed xs).1 with hnone | ⟨ended, piece, hsome⟩
    · left
      rw [← hwhole, hnone, List.flatMap_nil]
    · right
      rw [← hwhole, hsome]
      simp
  · rintro (rfl | hfeed)
    · rfl
    · -- An unfinished piece would end in the line feed, but no piece holds one.
      by_contra hlast
      have hmem : feed ∈ (cut feed xs).2 := by
        rw [← hwhole, List.getLast?_append_of_ne_nil _ hlast] at hfeed
        exact List.mem_of_getLast? hfeed
      exact not_mem_last_cut feed xs hmem

theorem cut_append (h : (cut feed xs).2 = []) (ys : List α) :
    cut feed (xs ++ ys) = ((cut feed xs).1 ++ (cut feed ys).1, (cut feed ys).2) := by
  induction xs with
  | nil => rfl
  | cons x rest ih =>
    rw [List.cons_append]
    by_cases hx : x = feed
    · rw [cut, if_pos hx] at h
      rw [cut, if_pos hx, ih h, cut, if_pos hx, List.cons_append]
    · cases hcut : cut feed rest with
      | mk ended last =>
        cases ended with
        | nil =>
          -- The piece that `x` begins is unfinished.
          rw [cut, if_neg hx, hcut] at h
          exact absurd h (List.cons_ne_nil x last)
        | cons piece ended =>
          rw [cut, if_neg hx, hcut] at h
          have hrest := ih (by rw [hcut]; exact h)
          rw [hcut] at hrest
          rw [cut, if_neg hx, hrest, cut, if_neg hx, hcut]
          rfl

/-- An ended list keeps its lines, and what comes behind it has its own. -/
theorem split_append (h : xs = [] ∨ xs.getLast? = some feed) (ys : List α) :
    split feed back (xs ++ ys) = split feed back xs ++ split feed back ys := by
  have hlast := last_cut_eq_nil_iff.mpr h
  rw [split, split, split, cut_append hlast, hlast]
  simp

theorem withoutReturn_concat (back : α) (line : List α) :
    withoutReturn back (line ++ [back]) = line := by
  simp [withoutReturn]

theorem withoutReturn_append {ys : List α} (h : ys ≠ []) (back : α) (xs : List α) :
    withoutReturn back (xs ++ ys) = xs ++ withoutReturn back ys := by
  rw [withoutReturn, List.getLast?_append_of_ne_nil _ h, List.dropLast_append_of_ne_nil h,
    withoutReturn]
  split <;> rfl

/-- What holds no line feed is one line, unless it is nothing. -/
theorem split_of_not_mem (h : feed ∉ line) (hne : line ≠ []) : split feed back line = [line] := by
  rw [split, cut_of_not_mem h, if_neg hne]
  rfl

/-- A line that is ended comes back, without the carriage return at its end. -/
theorem split_concat (h : feed ∉ line) :
    split feed back (line ++ [feed]) = [withoutReturn back line] := by
  rw [split, cut_append_cons h]
  rfl

/-- Lines that are ended one by one come back. Only the carriage return of the ending is taken off,
and not one that the line itself ends in. -/
theorem split_flatMap (hback : feed ≠ back) {lines : List (List α)}
    (h : ∀ line ∈ lines, feed ∉ line) :
    split feed back (lines.flatMap (· ++ [back, feed])) = lines := by
  induction lines with
  | nil => rfl
  | cons line rest ih =>
    have hline : feed ∉ line ++ [back] := by
      simp [h line (by simp), hback]
    have hrest := ih fun other hother => h other (List.mem_cons_of_mem line hother)
    have hwhole : (line :: rest).flatMap (· ++ [back, feed]) =
        (line ++ [back]) ++ feed :: rest.flatMap (· ++ [back, feed]) := by
      simp
    rw [hwhole, split, cut_append_cons hline, List.map_cons, withoutReturn_concat, List.cons_append]
    exact congrArg (line :: ·) hrest

/-- No line holds a line feed. -/
theorem not_mem_of_mem_split (h : line ∈ split feed back xs) : feed ∉ line := by
  rcases List.mem_append.mp h with h | h
  · obtain ⟨piece, hpiece, rfl⟩ := List.mem_map.mp h
    have hnot := not_mem_of_mem_cut hpiece
    rw [withoutReturn]
    split
    · exact fun hmem => hnot (List.dropLast_subset piece hmem)
    · exact hnot
  · by_cases hlast : (cut feed xs).2 = []
    · simp [hlast] at h
    · rw [if_neg hlast, List.mem_singleton] at h
      rw [h]
      exact not_mem_last_cut feed xs

end Lines

end Golden
