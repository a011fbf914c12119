import Golden.Proofs.Placement

/-!
# Matching

The verdict follows the directives and never goes back: it takes the first line that shows a pattern
and stays there. This loses nothing. The checks are all found exactly when their patterns can be
placed at all, and the check that is not found is the first one whose pattern can no longer be placed
together with those before it.

The fold is followed from any state of knowledge, since only the cursor decides which checks are
found, and only the exit directives decide which code is expected.

## Main definitions

* `Directive.patterns` — the patterns of the checks among directives
* `Directive.codes` — the codes of the exit directives among them
* `Directive.lastCode` — the code of the last exit directive, zero without one

## Main results

* `Verdict.follow_append` — the fold over a list of directives goes on from what is known before it
* `Verdict.follow_eq_none_iff` — every check is found exactly when the patterns can be placed
* `Verdict.follow_eq_some_iff` — which check is not found
* `Verdict.judge_passes_iff_exists_assignment` — when an outcome passes
-/

namespace Golden

namespace Directive

/-- The pattern of a check. -/
def pattern? : Directive → Option Text
  | check pattern _ => some pattern
  | exit _ _ => none

/-- The patterns of the checks among directives, in order. -/
def patterns (directives : List Directive) : List Text :=
  directives.filterMap pattern?

/-- The codes of the exit directives among directives, in order. -/
def codes (directives : List Directive) : List Int :=
  directives.filterMap code?

/-- The code of the last exit directive, zero if there is none. -/
def lastCode (directives : List Directive) : Int :=
  (codes directives).getLast?.getD 0

@[simp] theorem patterns_nil : patterns [] = [] := rfl

@[simp] theorem patterns_cons_check (pattern : Text) (line : Nat) (rest : List Directive) :
    patterns (check pattern line :: rest) = pattern :: patterns rest := rfl

@[simp] theorem patterns_cons_exit (code : Int) (line : Nat) (rest : List Directive) :
    patterns (exit code line :: rest) = patterns rest := rfl

@[simp] theorem patterns_append (ds more : List Directive) :
    patterns (ds ++ more) = patterns ds ++ patterns more :=
  List.filterMap_append

@[simp] theorem codes_nil : codes [] = [] := rfl

@[simp] theorem codes_cons_check (pattern : Text) (line : Nat) (rest : List Directive) :
    codes (check pattern line :: rest) = codes rest := rfl

@[simp] theorem codes_cons_exit (code : Int) (line : Nat) (rest : List Directive) :
    codes (exit code line :: rest) = code :: codes rest := rfl

@[simp] theorem codes_append (ds more : List Directive) :
    codes (ds ++ more) = codes ds ++ codes more :=
  List.filterMap_append

/-- Searching backwards for an exit directive finds the last one. -/
theorem expectedExit_eq_lastCode (directives : List Directive) :
    expectedExit directives = lastCode directives := by
  rw [expectedExit, lastCode, codes, ← List.head?_filterMap, List.filterMap_reverse,
    List.head?_reverse]

end Directive

namespace Verdict

variable {output : List Text} {ds : List Directive} {p : Progress} {failure : Failure}

/-- Following directives goes on from what is known after those before them, unless one of these is
a check that is not found. -/
theorem follow_append (output : List Text) (p : Progress) (ds more : List Directive) :
    follow output p (ds ++ more) =
      match follow output p ds with
      | (q, some failure) => (q, some failure)
      | (q, none) => follow output q more := by
  induction ds generalizing p with
  | nil => rfl
  | cons d rest ih =>
    cases d with
    | exit code line => exact ih _
    | check pattern line =>
      simp only [List.cons_append, follow]
      cases search output p.cursor pattern with
      | none => rfl
      | some i => exact ih _

/-- Every check is found exactly when the patterns can be placed from the cursor on. -/
theorem follow_eq_none_iff :
    (follow output p ds).2 = none ↔ PlaceableFrom output p.cursor (Directive.patterns ds) := by
  induction ds generalizing p with
  | nil => simp [follow, placeableFrom_nil]
  | cons d rest ih =>
    cases d with
    | exit code line => exact ih
    | check pattern line =>
      rw [Directive.patterns_cons_check, follow]
      cases hsearch : search output p.cursor pattern with
      | none => simpa using not_placeableFrom_cons_of_search hsearch
      | some i =>
        -- The search moves the cursor to the line found, and so may every placement.
        rw [placeableFrom_cons_iff_of_search hsearch]
        exact ih

/-- A check that is not found is the first whose pattern cannot be placed together with those before
it. -/
theorem follow_eq_some_iff :
    (follow output p ds).2 = some failure ↔
      ∃ before pattern line after, ds = before ++ .check pattern line :: after ∧
        failure = .checkNotFound line pattern ∧
        PlaceableFrom output p.cursor (Directive.patterns before) ∧
        ¬ PlaceableFrom output p.cursor (Directive.patterns before ++ [pattern]) := by
  constructor
  · intro h
    induction ds generalizing p with
    | nil => simp [follow] at h
    | cons d rest ih =>
      cases d with
      | exit code line =>
        obtain ⟨before, pattern, line', after, rfl, hfailure, hplaced, hnot⟩ := ih h
        exact ⟨.exit code line :: before, pattern, line', after, rfl, hfailure, hplaced, hnot⟩
      | check pattern line =>
        rw [follow] at h
        cases hsearch : search output p.cursor pattern with
        | none =>
          rw [hsearch] at h
          exact ⟨[], pattern, line, rest, rfl, (Option.some.inj h).symm,
            placeableFrom_nil output p.cursor, not_placeableFrom_cons_of_search hsearch⟩
        | some i =>
          rw [hsearch] at h
          obtain ⟨before, pattern', line', after, rfl, hfailure, hplaced, hnot⟩ := ih h
          refine ⟨.check pattern line :: before, pattern', line', after, rfl, hfailure, ?_, ?_⟩
          · exact (placeableFrom_cons_iff_of_search hsearch).mpr hplaced
          · exact fun hall => hnot ((placeableFrom_cons_iff_of_search hsearch).mp hall)
  · rintro ⟨before, pattern, line, after, rfl, rfl, hplaced, hnot⟩
    -- The directives before the check are followed to their end; a line found for the check itself
    -- would place its pattern too.
    obtain ⟨q, hq⟩ : ∃ q, follow output p before = (q, none) :=
      ⟨(follow output p before).1, Prod.ext rfl (follow_eq_none_iff.mpr hplaced)⟩
    cases hsearch : search output q.cursor pattern with
    | none => simp only [follow_append, hq, follow, hsearch]
    | some i =>
      refine absurd ?_ hnot
      have hfound : (follow output p (before ++ [.check pattern line])).2 = none := by
        simp only [follow_append, hq, follow, hsearch]
      rwa [follow_eq_none_iff, Directive.patterns_append] at hfound

/-- If every check is found, the code that is expected in the end is that of the last exit
directive, and the one expected before if there is none. -/
theorem expected_follow (h : (follow output p ds).2 = none) :
    (follow output p ds).1.expected =
      (Directive.codes ds).getLast?.getD p.expected := by
  induction ds generalizing p with
  | nil => rfl
  | cons d rest ih =>
    cases d with
    | exit code line =>
      rw [follow, ih h, Directive.codes_cons_exit, List.getLast?_cons]
      rfl
    | check pattern line =>
      rw [follow] at h ⊢
      cases hsearch : search output p.cursor pattern with
      | none => simp [hsearch] at h
      | some i =>
        -- A check that is found moves the cursor only.
        rw [hsearch] at h
        exact ih h

/-! ### The verdict -/

theorem follow_start_eq_none_iff :
    (follow output .start ds).2 = none ↔ Placeable output (Directive.patterns ds) := by
  rw [follow_eq_none_iff, ← placeableFrom_zero]
  rfl

/-- Once every check is found, the verdict is decided by the way in which the subject ended. -/
theorem judge_eq_of_placeable {outcome : Outcome}
    (h : Placeable outcome.lines (Directive.patterns ds)) :
    judge ds outcome = ofFailure? (exitFailure? outcome (Directive.lastCode ds)) := by
  have hfound := follow_start_eq_none_iff.mpr h
  have hcode := expected_follow hfound
  rw [judge]
  cases hfollow : follow outcome.lines .start ds with
  | mk q failure? =>
    rw [hfollow] at hfound hcode
    subst hfound
    exact congrArg (fun code => ofFailure? (exitFailure? outcome code)) hcode

theorem judge_eq_of_follow {outcome : Outcome} (h : (follow outcome.lines .start ds).2 = some failure) :
    judge ds outcome = .fail failure := by
  rw [judge]
  cases hfollow : follow outcome.lines .start ds with
  | mk q failure? =>
    rw [hfollow] at h
    subst h
    rfl

/-- Everything that can be said of the way in which the subject ended: it exited with the code that
is expected, or with another one where zero is expected, or with another one than the one other than
zero that is expected, or it was killed. -/
theorem exitFailure?_cases (outcome : Outcome) (code : Int) :
    (outcome.termination = .exited code ∧ exitFailure? outcome code = none) ∨
    (∃ actual, outcome.termination = .exited actual ∧ actual ≠ code ∧ code = 0 ∧
      exitFailure? outcome code = some (.unexpectedExit actual outcome.dump)) ∨
    (∃ actual, outcome.termination = .exited actual ∧ actual ≠ code ∧ code ≠ 0 ∧
      exitFailure? outcome code = some (.exitMismatch actual code)) ∨
    (∃ signal, outcome.termination = .signaled signal ∧
      exitFailure? outcome code = some (.signaled signal code outcome.dump)) := by
  cases h : outcome.termination with
  | exited actual =>
    by_cases hactual : actual = code
    · exact .inl ⟨by rw [hactual], by simp [exitFailure?, h, hactual]⟩
    · by_cases hcode : code = 0
      · have hsome : exitFailure? outcome code = some (.unexpectedExit actual outcome.dump) := by
          simp only [exitFailure?, h, if_neg hactual, if_pos hcode]
        exact .inr (.inl ⟨actual, rfl, hactual, hcode, hsome⟩)
      · have hsome : exitFailure? outcome code = some (.exitMismatch actual code) := by
          simp only [exitFailure?, h, if_neg hactual, if_neg hcode]
        exact .inr (.inr (.inl ⟨actual, rfl, hactual, hcode, hsome⟩))
  | signaled signal => exact .inr (.inr (.inr ⟨signal, rfl, by simp [exitFailure?, h]⟩))

/-- Nothing is wrong with the way in which the subject ended exactly if it exited with the code that
is expected. -/
theorem exitFailure?_eq_none_iff {outcome : Outcome} {code : Int} :
    exitFailure? outcome code = none ↔ outcome.termination = .exited code := by
  rcases exitFailure?_cases outcome code with ⟨hended, hnone⟩ |
    ⟨actual, hended, hactual, -, hsome⟩ | ⟨actual, hended, hactual, -, hsome⟩ |
    ⟨signal, hended, hsome⟩
  · simp [hended, hnone]
  · simp [hended, hsome, hactual]
  · simp [hended, hsome, hactual]
  · simp [hended, hsome]

/-- The way in which the subject ended never blames a check. -/
theorem exitFailure?_ne_checkNotFound (outcome : Outcome) (code : Int) (line : Nat)
    (pattern : Text) : exitFailure? outcome code ≠ some (.checkNotFound line pattern) := by
  rcases exitFailure?_cases outcome code with ⟨-, heq⟩ | ⟨_, -, -, -, heq⟩ | ⟨_, -, -, -, heq⟩ |
    ⟨_, -, heq⟩ <;> simp [heq]

/-- An outcome passes exactly if the patterns can be placed on its lines and the subject exited with
the code of the last exit directive. -/
theorem judge_eq_pass_iff {outcome : Outcome} :
    judge ds outcome = .pass ↔
      Placeable outcome.lines (Directive.patterns ds) ∧
        outcome.termination = .exited (Directive.lastCode ds) := by
  by_cases hplaced : Placeable outcome.lines (Directive.patterns ds)
  · rw [judge_eq_of_placeable hplaced, ← exitFailure?_eq_none_iff]
    cases exitFailure? outcome (Directive.lastCode ds) <;> simp [ofFailure?, hplaced]
  · -- Some check is not found, and it decides whatever the ending.
    obtain ⟨failure, hfailure⟩ :=
      Option.ne_none_iff_exists'.mp (mt follow_start_eq_none_iff.mp hplaced)
    simp [judge_eq_of_follow hfailure, hplaced]

/-- **Nothing is lost by never going back.** An outcome passes exactly if a line can be chosen for
every check, in the order of the checks and so that the line contains the pattern, and the subject
exited with the code of the last exit directive. No other way to choose the lines does better than
the search. -/
theorem judge_passes_iff_exists_assignment (directives : List Directive) (outcome : Outcome) :
    judge directives outcome = .pass ↔
      (∃ f : Fin (Directive.patterns directives).length → Fin outcome.lines.length, Monotone f ∧
        ∀ j, (Directive.patterns directives)[j] <:+: outcome.lines[f j]) ∧
      outcome.termination = .exited (Directive.lastCode directives) := by
  rw [judge_eq_pass_iff, placeable_iff_exists_monotone]

end Verdict

end Golden
