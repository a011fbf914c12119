import Golden.Proofs.Blame

/-!
# The earliest placement

The lines on which the checks are found are a placement of their patterns, and of all placements it
is the earliest one: whatever lines are chosen for some of the first checks, none of them lies above
the line on which its check is found. So the search does not only lose nothing, it also tells the
least lines that could be told.

The lines depend on the patterns and on the line where the search begins. The exit directives and
the lines of the test case have no say, which is why they are followed apart from these.

## Main definitions

* `Directive.checkLines` — the lines of the test case on which the checks stand
* `Verdict.positions` — the lines on which patterns are found one after the other

## Main results

* `Verdict.isPlacement_positions`, `Verdict.positions_le` — these are the earliest placement
* `Verdict.length_positions_eq_iff` — and they place all patterns if these can be placed at all
* `Verdict.found_follow` — what is found is told by these lines
* `Verdict.found_earliest` — which lines are told, and how many
-/

namespace Golden

namespace Directive

/-- The line on which a check stands. -/
def checkLine? : Directive → Option Nat
  | check _ line => some line
  | exit _ _ => none

/-- The lines on which the checks among directives stand, in order. -/
def checkLines (directives : List Directive) : List Nat :=
  directives.filterMap checkLine?

@[simp] theorem checkLines_nil : checkLines [] = [] := rfl

@[simp] theorem checkLines_cons_check (pattern : Text) (line : Nat) (rest : List Directive) :
    checkLines (check pattern line :: rest) = line :: checkLines rest := rfl

@[simp] theorem checkLines_cons_exit (code : Int) (line : Nat) (rest : List Directive) :
    checkLines (exit code line :: rest) = checkLines rest := rfl

theorem length_checkLines (directives : List Directive) :
    (checkLines directives).length = (patterns directives).length := by
  induction directives with
  | nil => rfl
  | cons d rest ih => cases d <;> simp [ih]

end Directive

namespace Verdict

variable {output patterns before after : List Text} {pattern : Text} {others : List Nat}
  {cursor i : Nat}

/-- The lines on which patterns are found one after the other from a line on, up to the first
pattern that is not found. -/
def positions (output : List Text) : Nat → List Text → List Nat
  | _, [] => []
  | cursor, pattern :: rest =>
    match search output cursor pattern with
    | none => []
    | some i => i :: positions output i rest

@[simp] theorem positions_nil (output : List Text) (cursor : Nat) :
    positions output cursor [] = [] := rfl

theorem positions_cons_of_none (h : search output cursor pattern = none) (rest : List Text) :
    positions output cursor (pattern :: rest) = [] := by
  rw [positions, h]

theorem positions_cons_of_some (h : search output cursor pattern = some i) (rest : List Text) :
    positions output cursor (pattern :: rest) = i :: positions output i rest := by
  rw [positions, h]

theorem le_of_mem_positions (h : i ∈ positions output cursor patterns) : cursor ≤ i := by
  induction patterns generalizing cursor with
  | nil => simp at h
  | cons pattern rest ih =>
    cases hsearch : search output cursor pattern with
    | none => simp [positions_cons_of_none hsearch] at h
    | some k =>
      have hk : cursor ≤ k := (search_eq_some_iff.mp hsearch).1.1
      rw [positions_cons_of_some hsearch] at h
      rcases List.mem_cons.mp h with rfl | h
      · exact hk
      · exact hk.trans (ih h)

/-- The lines that are found place the patterns that are found. -/
theorem isPlacement_positions (output : List Text) (cursor : Nat) (patterns : List Text) :
    IsPlacement output (patterns.take (positions output cursor patterns).length)
      (positions output cursor patterns) := by
  induction patterns generalizing cursor with
  | nil => exact isPlacement_nil output
  | cons pattern rest ih =>
    cases hsearch : search output cursor pattern with
    | none =>
      rw [positions_cons_of_none hsearch]
      exact isPlacement_nil output
    | some i =>
      rw [positions_cons_of_some hsearch, List.length_cons, List.take_succ_cons]
      have hoccurs : OccursAt output pattern i := (search_eq_some_iff.mp hsearch).1.2
      exact isPlacement_cons_iff.mpr ⟨hoccurs, fun j hj => le_of_mem_positions hj, ih i⟩

/-- **No placement is earlier.** Whatever lines a placement gives to the patterns, each of them lies
at or below the line on which its pattern is found. -/
theorem positions_le (h : IsPlacement output patterns others) (hcursor : ∀ j ∈ others, cursor ≤ j) :
    List.Forall₂ (· ≤ ·) (positions output cursor patterns) others := by
  induction patterns generalizing cursor others with
  | nil =>
    cases h.occurs
    exact .nil
  | cons pattern rest ih =>
    cases others with
    | nil => cases h.occurs
    | cons j others =>
      obtain ⟨hoccurs, hle, hrest⟩ := isPlacement_cons_iff.mp h
      have hj : cursor ≤ j := hcursor j List.mem_cons_self
      cases hsearch : search output cursor pattern with
      | none => exact absurd hoccurs (search_eq_none_iff.mp hsearch j hj)
      | some i =>
        -- The line found is at or above `j`, so the other lines are at or below it, too.
        have hfirst : i ≤ j := (search_eq_some_iff.mp hsearch).2 ⟨hj, hoccurs⟩
        rw [positions_cons_of_some hsearch]
        exact .cons hfirst (ih hrest fun k hk => hfirst.trans (hle k hk))

/-- Fewer patterns are found on the same lines. -/
theorem positions_take (output : List Text) (cursor : Nat) (patterns : List Text) (n : Nat) :
    positions output cursor (patterns.take n) = (positions output cursor patterns).take n := by
  induction patterns generalizing cursor n with
  | nil => simp
  | cons pattern rest ih =>
    cases n with
    | zero => rfl
    | succ n =>
      rw [List.take_succ_cons]
      cases hsearch : search output cursor pattern with
      | none => rw [positions_cons_of_none hsearch, positions_cons_of_none hsearch, List.take_nil]
      | some i =>
        rw [positions_cons_of_some hsearch, positions_cons_of_some hsearch, List.take_succ_cons, ih]

/-- Every pattern is found exactly if the patterns can be placed. -/
theorem length_positions_eq_iff :
    (positions output cursor patterns).length = patterns.length ↔
      PlaceableFrom output cursor patterns := by
  constructor
  · intro h
    have hplaced := isPlacement_positions output cursor patterns
    rw [h, List.take_length] at hplaced
    exact ⟨_, hplaced, fun j hj => le_of_mem_positions hj⟩
  · rintro ⟨others, hplaced, hcursor⟩
    exact (positions_le hplaced hcursor).length_eq.trans hplaced.length_eq

/-- If the patterns stop being placeable at one of them, those before it are found and no more. -/
theorem length_positions_of_not_placeable (hbefore : PlaceableFrom output cursor before)
    (hnot : ¬ PlaceableFrom output cursor (before ++ [pattern])) :
    (positions output cursor (before ++ pattern :: after)).length = before.length := by
  have hfound : (positions output cursor (before ++ pattern :: after)).take before.length =
      positions output cursor before := by
    rw [← positions_take, List.take_left]
  have hmore : (positions output cursor (before ++ pattern :: after)).take (before.length + 1) =
      positions output cursor (before ++ [pattern]) := by
    rw [← positions_take, List.take_length_add_append]
    rfl
  rw [← length_positions_eq_iff, ← hfound, List.length_take] at hbefore
  rw [← length_positions_eq_iff, ← hmore, List.length_take, List.length_append,
    List.length_singleton] at hnot
  omega

/-! ### What is told -/

variable {directives : List Directive} {outcome : Outcome}

/-- The checks that are found are told in order, each with the line on which its pattern is found,
counted from one. -/
theorem found_follow (output : List Text) (p : Progress) (directives : List Directive) :
    (follow output p directives).1.found =
      p.found ++ List.zipWith Found.mk (Directive.checkLines directives)
        ((positions output p.cursor (Directive.patterns directives)).map (· + 1)) := by
  induction directives generalizing p with
  | nil => simp [follow]
  | cons d rest ih =>
    cases d with
    | exit code line => exact ih _
    | check pattern line =>
      rw [follow, Directive.patterns_cons_check, Directive.checkLines_cons_check]
      cases hsearch : search output p.cursor pattern with
      | none => simp [positions_cons_of_none hsearch]
      | some i => simp [positions_cons_of_some hsearch, ih]

theorem found_eq (directives : List Directive) (output : List Text) :
    found directives output = List.zipWith Found.mk (Directive.checkLines directives)
      ((positions output 0 (Directive.patterns directives)).map (· + 1)) := by
  rw [found, found_follow]
  rfl

theorem length_positions_le (output : List Text) (cursor : Nat) (patterns : List Text) :
    (positions output cursor patterns).length ≤ patterns.length := by
  have hlength := (isPlacement_positions output cursor patterns).length_eq
  rw [List.length_take] at hlength
  exact hlength.trans_le (min_le_right _ _)

/-- The output lines that are told are those on which the patterns are found. -/
theorem map_outputLine_found (directives : List Directive) (output : List Text) :
    (found directives output).map Found.outputLine =
      (positions output 0 (Directive.patterns directives)).map (· + 1) := by
  have hlength : ((positions output 0 (Directive.patterns directives)).map (· + 1)).length ≤
      (Directive.checkLines directives).length := by
    rw [List.length_map, Directive.length_checkLines]
    exact length_positions_le output 0 _
  rw [found_eq, List.map_zipWith]
  exact List.map_zip_eq_zipWith.symm.trans (List.map_snd_zip hlength)

/-- **The search tells the earliest placement.** The checks that are found are told in order, each
with an output line. These lines place the patterns, and no placement of some of the first checks
gives any of them a line above the one that is told. If a check is blamed, those before it are told,
and otherwise all of them are. -/
theorem found_earliest (directives : List Directive) (outcome : Outcome) :
    let lines := (found directives outcome.lines).map Found.outputLine
    found directives outcome.lines =
      List.zipWith Found.mk (Directive.checkLines directives) lines ∧
    lines.Pairwise (· ≤ ·) ∧
    List.Forall₂ (fun pattern line => 1 ≤ line ∧ line ≤ outcome.lines.length ∧
        OccursAt outcome.lines pattern (line - 1))
      ((Directive.patterns directives).take lines.length) lines ∧
    (∀ n others, IsPlacement outcome.lines ((Directive.patterns directives).take n) others →
      List.Forall₂ (fun line i => line ≤ i + 1) (lines.take n) others) ∧
    (∀ line pattern, judge directives outcome = .fail (.checkNotFound line pattern) →
      ∃ before after, directives = before ++ .check pattern line :: after ∧
        Placeable outcome.lines (Directive.patterns before) ∧
        ¬ Placeable outcome.lines (Directive.patterns before ++ [pattern]) ∧
        lines.length = (Directive.patterns before).length) ∧
    ((∀ line pattern, judge directives outcome ≠ .fail (.checkNotFound line pattern)) →
      lines.length = (Directive.patterns directives).length) := by
  intro lines
  have hlines : lines = (positions outcome.lines 0 (Directive.patterns directives)).map (· + 1) :=
    map_outputLine_found directives outcome.lines
  obtain ⟨hordered, hoccurs⟩ :=
    isPlacement_positions outcome.lines 0 (Directive.patterns directives)
  refine ⟨?_, ?_, ?_, ?_, ?_, ?_⟩
  · rw [hlines]
    exact found_eq directives outcome.lines
  · rw [hlines, List.pairwise_map]
    exact hordered.imp fun hle => Nat.add_le_add_right hle 1
  · rw [hlines, List.length_map, List.forall₂_map_right_iff]
    exact hoccurs.imp fun pattern i hi => ⟨Nat.le_add_left 1 i, hi.lt_length, hi⟩
  · intro n others hothers
    -- The first checks alone would be found on the same lines.
    have hle := positions_le hothers fun j _ => Nat.zero_le j
    rw [positions_take] at hle
    rw [hlines, ← List.map_take, List.forall₂_map_left_iff]
    exact hle.imp fun i j hij => Nat.add_le_add_right hij 1
  · intro line pattern hblamed
    obtain ⟨before, after, hsplit, hbefore, hnot⟩ := judge_eq_checkNotFound_iff_split.mp hblamed
    refine ⟨before, after, hsplit, hbefore, hnot, ?_⟩
    rw [hlines, List.length_map, hsplit, Directive.patterns_append, Directive.patterns_cons_check]
    exact length_positions_of_not_placeable (placeableFrom_zero.mpr hbefore)
      fun hmore => hnot (placeableFrom_zero.mp hmore)
  · intro hnone
    have hplaced : Placeable outcome.lines (Directive.patterns directives) :=
      forall_judge_ne_checkNotFound_iff.mp hnone
    rw [hlines, List.length_map]
    exact length_positions_eq_iff.mpr (placeableFrom_zero.mpr hplaced)

/-- Checks for `a` twice, for `b` and for `z`, with an exit directive among them. -/
def repetitive : List Directive :=
  [.check ['a'] 1, .exit 3 2, .check ['a'] 4, .check ['b'] 5, .check ['z'] 7]

/-- Output in which `a` and `b` can be found early and late, and `z` not at all. -/
def ample : Outcome := ⟨[['x', 'a'], ['b'], ['a'], ['a', 'b']], [], .signaled 9⟩

/-- The late lines are a placement, too, and the early ones are told; without the last check all are
found. -/
theorem found_earliest_repetitive :
    (found repetitive ample.lines).map Found.outputLine = [1, 1, 2] ∧
      IsPlacement ample.lines ((Directive.patterns repetitive).take 3) [2, 2, 3] ∧
      List.Forall₂ (fun line i => line ≤ i + 1) ([1, 1, 2].take 3) [2, 2, 3] ∧
      judge repetitive ample = .fail (.checkNotFound 7 ['z']) ∧
      (∃ before after, repetitive = before ++ .check ['z'] 7 :: after ∧
        Placeable ample.lines (Directive.patterns before) ∧
        ¬ Placeable ample.lines (Directive.patterns before ++ [['z']]) ∧
        [1, 1, 2].length = (Directive.patterns before).length) ∧
      judge (repetitive.take 4) ample = .fail (.signaled 9 3 ample.lines) ∧
      ((found (repetitive.take 4) ample.lines).map Found.outputLine).length =
        (Directive.patterns (repetitive.take 4)).length := by
  have hlate : IsPlacement ample.lines ((Directive.patterns repetitive).take 3) [2, 2, 3] :=
    ⟨by decide,
      .cons ⟨_, rfl, by decide⟩ (.cons ⟨_, rfl, by decide⟩ (.cons ⟨_, rfl, by decide⟩ .nil))⟩
  have hkilled : judge (repetitive.take 4) ample = .fail (.signaled 9 3 ample.lines) := rfl
  obtain ⟨-, -, -, hearliest, hblamed, -⟩ := found_earliest repetitive ample
  obtain ⟨-, -, -, -, -, hall⟩ := found_earliest (repetitive.take 4) ample
  refine ⟨rfl, hlate, hearliest 3 _ hlate, rfl, hblamed 7 ['z'] rfl, hkilled, hall ?_⟩
  intro line pattern h
  cases hkilled.symm.trans h

end Verdict

end Golden
