import Golden.Verdict
import Mathlib.Data.List.Forall2
import Mathlib.Data.List.NodupEquivFin
import Mathlib.Data.List.OfFn
import Mathlib.Order.Bounds.Basic
import Mathlib.Order.Fin.Basic

/-!
# Placements

A list of patterns is satisfied by output if its patterns can be placed on output lines in which they
occur, each at or below the line of the one before it. Which lines are taken is left open: a
placement is any such choice, and the search of the verdict is only one way to make it.

Placing is here told apart from searching. The bridge is an exchange argument: whatever line a
placement gives to its first pattern, the first line that shows the pattern lies at or above it, so
the other patterns keep their lines.

## Main definitions

* `OccursAt` — a pattern occurs in the output line at a position
* `IsPlacement` — positions that place patterns on output
* `Placeable`, `PlaceableFrom` — some placement exists, at all or at and below a line

## Main results

* `Verdict.search_eq_some_iff`, `Verdict.search_eq_none_iff` — the search answers the least position
* `placeable_iff_exists_monotone` — a placement is a monotone choice of lines for the patterns
* `placeableFrom_cons_iff_of_search` — taking the first line loses no placement
* `Placeable.of_isPrefix` — fewer patterns are easier to place
* `Placeable.of_sublist` — and all of them on more output
-/

namespace Golden

variable {output patterns : List Text} {pattern : Text} {positions : List Nat} {cursor i : Nat}

/-- A pattern occurs in the output line at a position. -/
def OccursAt (output : List Text) (pattern : Text) (i : Nat) : Prop :=
  ∃ line, output[i]? = some line ∧ pattern <:+: line

/-- Positions of output lines, one for each pattern: every pattern occurs in its line, and no line
lies above that of an earlier pattern. Two patterns may share a line. -/
structure IsPlacement (output patterns : List Text) (positions : List Nat) : Prop where
  ordered : positions.Pairwise (· ≤ ·)
  occurs : List.Forall₂ (OccursAt output) patterns positions

/-- The patterns can be placed on the output. -/
def Placeable (output patterns : List Text) : Prop :=
  ∃ positions, IsPlacement output patterns positions

/-- The patterns can be placed on the output at and below a line. -/
def PlaceableFrom (output : List Text) (cursor : Nat) (patterns : List Text) : Prop :=
  ∃ positions, IsPlacement output patterns positions ∧ ∀ i ∈ positions, cursor ≤ i

theorem OccursAt.lt_length (h : OccursAt output pattern i) : i < output.length := by
  obtain ⟨line, hline, -⟩ := h
  exact (List.getElem?_eq_some_iff.mp hline).1

theorem occursAt_iff_getElem (hi : i < output.length) :
    OccursAt output pattern i ↔ pattern <:+: output[i] := by
  simp [OccursAt, List.getElem?_eq_getElem hi]

theorem occursAt_drop_iff :
    OccursAt (output.drop cursor) pattern i ↔ OccursAt output pattern (cursor + i) := by
  simp [OccursAt, List.getElem?_drop]

theorem isPlacement_nil (output : List Text) : IsPlacement output [] [] :=
  ⟨.nil, .nil⟩

theorem isPlacement_cons_iff :
    IsPlacement output (pattern :: patterns) (i :: positions) ↔
      OccursAt output pattern i ∧ (∀ j ∈ positions, i ≤ j) ∧
        IsPlacement output patterns positions := by
  constructor
  · rintro ⟨hordered, hoccurs⟩
    obtain ⟨hle, hrest⟩ := List.pairwise_cons.mp hordered
    obtain ⟨hfirst, hothers⟩ := List.forall₂_cons.mp hoccurs
    exact ⟨hfirst, hle, hrest, hothers⟩
  · rintro ⟨hfirst, hle, hrest, hothers⟩
    exact ⟨List.pairwise_cons.mpr ⟨hle, hrest⟩, .cons hfirst hothers⟩

theorem IsPlacement.length_eq (h : IsPlacement output patterns positions) :
    positions.length = patterns.length :=
  h.occurs.length_eq.symm

/-- A placement is a choice of a line for each pattern that keeps their order. -/
theorem placeable_iff_exists_monotone :
    Placeable output patterns ↔
      ∃ f : Fin patterns.length → Fin output.length, Monotone f ∧
        ∀ j, patterns[j] <:+: output[f j] := by
  constructor
  · rintro ⟨positions, hplaced⟩
    have hlength := hplaced.length_eq.symm
    have hoccurs (j : Fin patterns.length) :
        OccursAt output patterns[j] (positions.get (j.cast hlength)) :=
      hplaced.occurs.get j.isLt (j.cast hlength).isLt
    -- Every position is that of an output line, since something occurs in it.
    refine ⟨fun j => ⟨_, (hoccurs j).lt_length⟩, fun j k hle => ?_, fun j => ?_⟩
    · rcases hle.eq_or_lt with rfl | hlt
      · exact le_rfl
      · exact List.pairwise_iff_getElem.mp hplaced.ordered _ _ _ _ hlt
    · exact (occursAt_iff_getElem (hoccurs j).lt_length).mp (hoccurs j)
  · rintro ⟨f, hmono, hoccurs⟩
    -- The chosen lines, listed in the order of the patterns, are a placement.
    refine ⟨List.ofFn fun j => (f j : Nat), ?_, ?_⟩
    · rw [List.pairwise_ofFn]
      exact fun j k hlt => hmono hlt.le
    · rw [List.forall₂_iff_get]
      refine ⟨List.length_ofFn.symm, fun j hj _ => ?_⟩
      have hline := (occursAt_iff_getElem (f ⟨j, hj⟩).isLt).mpr (hoccurs ⟨j, hj⟩)
      simpa using hline

/-! ### Placing one pattern after the other -/

theorem placeableFrom_nil (output : List Text) (cursor : Nat) : PlaceableFrom output cursor [] :=
  ⟨[], isPlacement_nil output, by simp⟩

theorem placeableFrom_cons_iff :
    PlaceableFrom output cursor (pattern :: patterns) ↔
      ∃ i, cursor ≤ i ∧ OccursAt output pattern i ∧ PlaceableFrom output i patterns := by
  constructor
  · rintro ⟨positions, hplaced, hcursor⟩
    cases positions with
    | nil => cases hplaced.occurs
    | cons i positions =>
      obtain ⟨hoccurs, hle, hrest⟩ := isPlacement_cons_iff.mp hplaced
      exact ⟨i, hcursor i (by simp), hoccurs, positions, hrest, hle⟩
  · rintro ⟨i, hi, hoccurs, positions, hrest, hle⟩
    refine ⟨i :: positions, isPlacement_cons_iff.mpr ⟨hoccurs, hle, hrest⟩, fun j hj => ?_⟩
    rcases List.mem_cons.mp hj with rfl | hj
    · exact hi
    · exact hi.trans (hle j hj)

theorem placeableFrom_zero : PlaceableFrom output 0 patterns ↔ Placeable output patterns := by
  simp [PlaceableFrom, Placeable]

theorem PlaceableFrom.of_le {cursor' : Nat} (hle : cursor ≤ cursor')
    (h : PlaceableFrom output cursor' patterns) : PlaceableFrom output cursor patterns := by
  obtain ⟨positions, hplaced, hcursor⟩ := h
  exact ⟨positions, hplaced, fun i hi => hle.trans (hcursor i hi)⟩

theorem PlaceableFrom.of_append {more : List Text}
    (h : PlaceableFrom output cursor (patterns ++ more)) :
    PlaceableFrom output cursor patterns := by
  induction patterns generalizing cursor with
  | nil => exact placeableFrom_nil output cursor
  | cons pattern patterns ih =>
    obtain ⟨i, hi, hoccurs, hrest⟩ := placeableFrom_cons_iff.mp h
    exact placeableFrom_cons_iff.mpr ⟨i, hi, hoccurs, ih hrest⟩

/-- One more line above the output moves a placement down by one. -/
theorem PlaceableFrom.below (line : Text) (h : PlaceableFrom output cursor patterns) :
    PlaceableFrom (line :: output) (cursor + 1) patterns := by
  induction patterns generalizing cursor with
  | nil => exact placeableFrom_nil _ _
  | cons pattern patterns ih =>
    obtain ⟨i, hi, hoccurs, hrest⟩ := placeableFrom_cons_iff.mp h
    refine placeableFrom_cons_iff.mpr ⟨i + 1, Nat.add_le_add_right hi 1, ?_, ih hrest⟩
    obtain ⟨own, hown, hinfix⟩ := hoccurs
    exact ⟨own, by rwa [List.getElem?_cons_succ], hinfix⟩

/-- Fewer patterns are easier to place. -/
theorem Placeable.of_isPrefix {fewer : List Text} (hfewer : fewer <+: patterns)
    (h : Placeable output patterns) : Placeable output fewer := by
  obtain ⟨more, rfl⟩ := hfewer
  rw [← placeableFrom_zero] at h ⊢
  exact h.of_append

/-- More output lines leave a placement in place: its lines keep their order among the others. -/
theorem Placeable.of_sublist {more : List Text} (hmore : output.Sublist more)
    (h : Placeable output patterns) : Placeable more patterns := by
  obtain ⟨positions, hordered, hoccurs⟩ := h
  obtain ⟨moved, hmoved⟩ := List.sublist_iff_exists_orderEmbedding_getElem?_eq.mp hmore
  refine ⟨positions.map moved, ?_, ?_⟩
  · rw [List.pairwise_map]
    exact hordered.imp fun hle => moved.monotone hle
  · rw [List.forall₂_map_right_iff]
    apply hoccurs.imp
    intro pattern i hi
    obtain ⟨line, hline, hinfix⟩ := hi
    exact ⟨line, by rw [← hmoved i, hline], hinfix⟩

/-! ### The search for one pattern -/

namespace Verdict

/-- Without a cursor, the search answers the first line in which the pattern occurs. -/
theorem findIdx?_occursIn_eq_some_iff :
    output.findIdx? (Text.occursIn pattern) = some i ↔
      IsLeast {j | OccursAt output pattern j} i := by
  rw [List.findIdx?_eq_some_iff_getElem]
  constructor
  · rintro ⟨hi, hoccurs, hbefore⟩
    refine ⟨(occursAt_iff_getElem hi).mpr (Text.occursIn_iff.mp hoccurs), fun j hj => ?_⟩
    by_contra hlt
    have hline := (occursAt_iff_getElem hj.lt_length).mp hj
    exact hbefore j (Nat.lt_of_not_le hlt) (Text.occursIn_iff.mpr hline)
  · rintro ⟨hoccurs, hleast⟩
    have hi := hoccurs.lt_length
    refine ⟨hi, Text.occursIn_iff.mpr ((occursAt_iff_getElem hi).mp hoccurs), fun j hji hj => ?_⟩
    have hother := (occursAt_iff_getElem (hji.trans hi)).mpr (Text.occursIn_iff.mp hj)
    exact Nat.not_le_of_lt hji (hleast hother)

/-- A line is found if it is the first one from the cursor on in which the pattern occurs. -/
theorem search_eq_some_iff :
    search output cursor pattern = some i ↔
      IsLeast {j | cursor ≤ j ∧ OccursAt output pattern j} i := by
  simp only [search, Option.map_eq_some_iff, findIdx?_occursIn_eq_some_iff]
  constructor
  · rintro ⟨k, ⟨hoccurs, hleast⟩, rfl⟩
    -- What is found among the lines below the cursor is counted from the cursor on.
    refine ⟨⟨Nat.le_add_right cursor k, occursAt_drop_iff.mp hoccurs⟩, ?_⟩
    rintro j ⟨hj, hother⟩
    obtain ⟨m, rfl⟩ := Nat.exists_eq_add_of_le hj
    exact Nat.add_le_add_left (hleast (occursAt_drop_iff.mpr hother)) cursor
  · rintro ⟨⟨hi, hoccurs⟩, hleast⟩
    obtain ⟨k, rfl⟩ := Nat.exists_eq_add_of_le hi
    refine ⟨k, ⟨occursAt_drop_iff.mpr hoccurs, fun m hm => ?_⟩, rfl⟩
    have hle := hleast ⟨Nat.le_add_right cursor m, occursAt_drop_iff.mp hm⟩
    exact Nat.le_of_add_le_add_left hle

/-- No line is found if the pattern occurs in none from the cursor on. -/
theorem search_eq_none_iff :
    search output cursor pattern = none ↔ ∀ j, cursor ≤ j → ¬ OccursAt output pattern j := by
  rw [search, Option.map_eq_none_iff, List.findIdx?_eq_none_iff]
  constructor
  · intro hnone j hj hoccurs
    obtain ⟨k, rfl⟩ := Nat.exists_eq_add_of_le hj
    obtain ⟨line, hline, hinfix⟩ := occursAt_drop_iff.mpr hoccurs
    have hfound := Text.occursIn_iff.mpr hinfix
    rw [hnone line (List.mem_of_getElem? hline)] at hfound
    exact Bool.noConfusion hfound
  · intro hnone line hmem
    obtain ⟨k, hk⟩ := List.getElem?_of_mem hmem
    rw [Bool.eq_false_iff]
    intro hfound
    refine hnone (cursor + k) (Nat.le_add_right cursor k) (occursAt_drop_iff.mp ?_)
    exact ⟨line, hk, Text.occursIn_iff.mp hfound⟩

end Verdict

/-- Taking the first line loses no placement. -/
theorem placeableFrom_cons_iff_of_search (h : Verdict.search output cursor pattern = some i) :
    PlaceableFrom output cursor (pattern :: patterns) ↔ PlaceableFrom output i patterns := by
  obtain ⟨⟨hi, hoccurs⟩, hleast⟩ := Verdict.search_eq_some_iff.mp h
  rw [placeableFrom_cons_iff]
  constructor
  · rintro ⟨j, hj, hother, hrest⟩
    -- Whatever line `j` a placement gives to the first pattern, the line found lies at or above it,
    -- and so the other patterns keep their lines.
    have hexchange : i ≤ j := hleast ⟨hj, hother⟩
    exact hrest.of_le hexchange
  · intro hrest
    exact ⟨i, hi, hoccurs, hrest⟩

theorem not_placeableFrom_cons_of_search (h : Verdict.search output cursor pattern = none) :
    ¬ PlaceableFrom output cursor (pattern :: patterns) := by
  rw [placeableFrom_cons_iff]
  rintro ⟨i, hi, hoccurs, -⟩
  exact Verdict.search_eq_none_iff.mp h i hi hoccurs

end Golden
