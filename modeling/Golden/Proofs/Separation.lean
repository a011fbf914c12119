import Golden.Proofs.Handover

/-!
# Checks and endings

The directives of a test case say two things that have nothing to do with each other: what its
checks ask of the output, and how the subject is to end. However exit directives stand among the
checks, and however many there are, they move no check to another line and excuse none; and the
checks have no say in the code that is expected, which is that of the last exit directive. So the
verdict is told by the checks alone and by one code.

That code is worked out twice, forward while the checks are searched for, and backward from the last
directive. Both ways come to the same code, and once every check is found, each kind of verdict says
exactly one thing about it and about the way in which the subject ended.

## Main definitions

* `Directive.checks` — the checks among directives

## Main results

* `Verdict.follow_checks` — exit directives change nothing about the check that is not found
* `Verdict.judge_congr` — a verdict is told by the check that is not found and by the last code
* `Verdict.judge_separates` — the same checks find the same, and with the same code pass the same
* `Verdict.judge_follows_expectedExit` — what each kind of verdict says about the ending
-/

namespace Golden

namespace Directive

/-- Whether a directive is a check. -/
def isCheck : Directive → Bool
  | check _ _ => true
  | exit _ _ => false

/-- The checks among directives, in order and each with its line. -/
def checks (directives : List Directive) : List Directive :=
  directives.filter isCheck

@[simp] theorem checks_nil : checks [] = [] := rfl

@[simp] theorem checks_cons_check (pattern : Text) (line : Nat) (rest : List Directive) :
    checks (check pattern line :: rest) = check pattern line :: checks rest := rfl

@[simp] theorem checks_cons_exit (code : Int) (line : Nat) (rest : List Directive) :
    checks (exit code line :: rest) = checks rest := rfl

theorem patterns_checks (directives : List Directive) :
    patterns (checks directives) = patterns directives := by
  induction directives with
  | nil => rfl
  | cons d rest ih => cases d <;> simp [ih]

theorem checkLines_checks (directives : List Directive) :
    checkLines (checks directives) = checkLines directives := by
  induction directives with
  | nil => rfl
  | cons d rest ih => cases d <;> simp [ih]

end Directive

namespace Verdict

open Directive

variable {output : List Text} {ds ds' : List Directive} {outcome : Outcome} {p : Progress}
  {failure : Failure} {code : Int}

/-! ### The checks alone -/

/-- The check that is not found is the same without the exit directives. -/
theorem follow_checks (output : List Text) (p : Progress) (ds : List Directive) :
    (follow output p (checks ds)).2 = (follow output p ds).2 := by
  induction ds generalizing p with
  | nil => rfl
  | cons d rest ih =>
    cases d with
    | exit code line =>
      rw [checks_cons_exit, follow, ← ih]
      -- The directive changes the code that is expected, which the checks behind it never see.
      apply follow_failure_congr
      rfl
    | check pattern line =>
      rw [checks_cons_check, follow, follow]
      cases search output p.cursor pattern with
      | none => rfl
      | some i => exact ih _

/-- So is what is found. -/
theorem found_checks (ds : List Directive) (output : List Text) :
    found (checks ds) output = found ds output := by
  rw [found_eq, found_eq, checkLines_checks, patterns_checks]

/-- A verdict is told by the check that is not found and by the code of the last exit directive. -/
theorem judge_congr
    (hfollow : (follow outcome.lines .start ds).2 = (follow outcome.lines .start ds').2)
    (hcode : lastCode ds = lastCode ds') : judge ds outcome = judge ds' outcome := by
  cases h : (follow outcome.lines .start ds).2 with
  | some failure =>
    have h' := hfollow.symm.trans h
    rw [judge_eq_of_follow h, judge_eq_of_follow h']
  | none =>
    have h' := hfollow.symm.trans h
    rw [judge_eq_of_placeable (follow_start_eq_none_iff.mp h),
      judge_eq_of_placeable (follow_start_eq_none_iff.mp h'), hcode]

theorem follow_congr_of_checks (output : List Text) (p : Progress) (h : checks ds = checks ds') :
    (follow output p ds).2 = (follow output p ds').2 := by
  rw [← follow_checks, h, follow_checks]

/-- **Checks and exit directives do not interact.** Directives that make the same checks find the
same on the same lines and blame the same check, whatever exit directives stand among the checks, in
front of them or behind a check that is blamed. If the last exit directives ask for the same code,
too, the verdict is the same whatever it is. -/
theorem judge_separates (directives others : List Directive)
    (hchecks : checks directives = checks others) (outcome : Outcome) :
    found directives outcome.lines = found others outcome.lines ∧
    (∀ line pattern, judge directives outcome = .fail (.checkNotFound line pattern) ↔
      judge others outcome = .fail (.checkNotFound line pattern)) ∧
    (lastCode directives = lastCode others → judge directives outcome = judge others outcome) := by
  have hfollow := follow_congr_of_checks outcome.lines .start hchecks
  refine ⟨?_, fun line pattern => ?_, judge_congr hfollow⟩
  · rw [← found_checks, hchecks, found_checks]
  · rw [judge_eq_checkNotFound_iff_follow, judge_eq_checkNotFound_iff_follow, hfollow]

/-- Two checks with exit directives in front, between and behind. -/
def scattered : List Directive :=
  [.exit 1 1, .check ['a'] 2, .exit 7 3, .exit 7 4, .check ['z'] 5, .exit 3 6]

/-- The same checks with one exit directive on another line. -/
def gathered : List Directive :=
  [.check ['a'] 2, .exit 3 4, .check ['z'] 5]

/-- Where the second check is blamed, both tell where the first is found and ask for the code in
vain; where both checks are found, both miss the same code. -/
theorem judge_separates_scattered :
    checks scattered = checks gathered ∧ lastCode scattered = lastCode gathered ∧
      judge scattered ⟨[['x', 'a'], ['a']], [['e']], .exited 7⟩ = .fail (.checkNotFound 5 ['z']) ∧
      judge gathered ⟨[['x', 'a'], ['a']], [['e']], .exited 7⟩ = .fail (.checkNotFound 5 ['z']) ∧
      found scattered [['x', 'a'], ['a']] = found gathered [['x', 'a'], ['a']] ∧
      judge gathered ⟨[['a', 'z']], [['e']], .signaled 9⟩ =
        .fail (.signaled 9 3 [['a', 'z'], ['e']]) ∧
      judge scattered ⟨[['a', 'z']], [['e']], .signaled 9⟩ =
        judge gathered ⟨[['a', 'z']], [['e']], .signaled 9⟩ := by
  have hchecks : checks scattered = checks gathered := rfl
  have hcode : lastCode scattered = lastCode gathered := rfl
  have hblamed : judge scattered ⟨[['x', 'a'], ['a']], [['e']], .exited 7⟩ =
      .fail (.checkNotFound 5 ['z']) := rfl
  obtain ⟨hfound, hblame, -⟩ := judge_separates scattered gathered hchecks
    ⟨[['x', 'a'], ['a']], [['e']], .exited 7⟩
  obtain ⟨-, -, hsame⟩ := judge_separates scattered gathered hchecks
    ⟨[['a', 'z']], [['e']], .signaled 9⟩
  exact ⟨hchecks, hcode, hblamed, (hblame 5 ['z']).mp hblamed, hfound, rfl, hsame hcode⟩

/-! ### The ending alone -/

/-- What can be wrong with the way in which the subject ended, each with what it is told of. -/
theorem exitFailure?_eq_some_iff :
    exitFailure? outcome code = some failure ↔
      (∃ actual, outcome.termination = .exited actual ∧ actual ≠ code ∧ code = 0 ∧
        failure = .unexpectedExit actual outcome.dump) ∨
      (∃ actual, outcome.termination = .exited actual ∧ actual ≠ code ∧ code ≠ 0 ∧
        failure = .exitMismatch actual code) ∨
      ∃ signal, outcome.termination = .signaled signal ∧
        failure = .signaled signal code outcome.dump := by
  constructor
  · intro h
    rcases exitFailure?_cases outcome code with ⟨-, heq⟩ | ⟨actual, hended, hne, hzero, heq⟩ |
      ⟨actual, hended, hne, hnonzero, heq⟩ | ⟨signal, hended, heq⟩
    · cases heq.symm.trans h
    · exact .inl ⟨actual, hended, hne, hzero, Option.some.inj (h.symm.trans heq)⟩
    · exact .inr (.inl ⟨actual, hended, hne, hnonzero, Option.some.inj (h.symm.trans heq)⟩)
    · exact .inr (.inr ⟨signal, hended, Option.some.inj (h.symm.trans heq)⟩)
  · rintro (⟨actual, hended, hne, hzero, rfl⟩ | ⟨actual, hended, hne, hnonzero, rfl⟩ |
      ⟨signal, hended, rfl⟩)
    · simp only [exitFailure?, hended, if_neg hne, if_pos hzero]
    · simp only [exitFailure?, hended, if_neg hne, if_neg hnonzero]
    · simp only [exitFailure?, hended]

/-- Once every check is found, a verdict fails as the ending does. -/
theorem judge_eq_fail_iff_of_placeable (h : Placeable outcome.lines (patterns ds)) :
    judge ds outcome = .fail failure ↔ exitFailure? outcome (expectedExit ds) = some failure := by
  rw [judge_eq_of_placeable h, expectedExit_eq_lastCode]
  cases exitFailure? outcome (lastCode ds) <;> simp [ofFailure?]

/-- Along the directives, the code that is expected so far is the one that searching backward
finds. -/
theorem expected_follow_start (h : Placeable output (patterns ds)) :
    (follow output .start ds).1.expected = expectedExit ds := by
  rw [expected_follow (follow_start_eq_none_iff.mpr h), expectedExit_eq_lastCode]
  rfl

/-- **Both computations of the expected code agree, and the verdict on the ending follows them.** If
every check is found, the code that is expected after any first directives is the one found by
searching them backward. With all of them the verdict is a pass exactly if the subject exited with
that code; it is an unexpected exit, told with all output, exactly if the subject exited with
another code and that code is zero, whether an exit directive says so or none does; a mismatch
exactly if that code is not zero; and a signal exactly if the subject was killed. A subject that was
killed passes no directives at all. -/
theorem judge_follows_expectedExit (directives : List Directive) (outcome : Outcome)
    (hfound : Placeable outcome.lines (patterns directives)) :
    let code := expectedExit directives
    let dump := outcome.lines ++ outcome.stderr
    (∀ first rest, directives = first ++ rest →
      (follow outcome.lines .start first).1.expected = expectedExit first) ∧
    (judge directives outcome = .pass ↔ outcome.termination = .exited code) ∧
    (∀ actual output, judge directives outcome = .fail (.unexpectedExit actual output) ↔
      outcome.termination = .exited actual ∧ actual ≠ code ∧ code = 0 ∧ output = dump) ∧
    (∀ actual expected, judge directives outcome = .fail (.exitMismatch actual expected) ↔
      outcome.termination = .exited actual ∧ actual ≠ code ∧ code ≠ 0 ∧ expected = code) ∧
    (∀ signal expected output,
      judge directives outcome = .fail (.signaled signal expected output) ↔
        outcome.termination = .signaled signal ∧ expected = code ∧ output = dump) ∧
    (∀ others signal, outcome.termination = .signaled signal → judge others outcome ≠ .pass) := by
  intro code dump
  refine ⟨?_, ?_, ?_, ?_, ?_, ?_⟩
  · rintro first rest rfl
    apply expected_follow_start
    rw [patterns_append] at hfound
    exact hfound.of_isPrefix (List.prefix_append _ _)
  · rw [judge_eq_pass_iff, ← expectedExit_eq_lastCode]
    exact and_iff_right hfound
  · intro actual output
    rw [judge_eq_fail_iff_of_placeable hfound, exitFailure?_eq_some_iff]
    simp [code, dump, Outcome.dump]
  · intro actual expected
    rw [judge_eq_fail_iff_of_placeable hfound, exitFailure?_eq_some_iff]
    simp [code]
  · intro signal expected output
    rw [judge_eq_fail_iff_of_placeable hfound, exitFailure?_eq_some_iff]
    simp [code, dump, Outcome.dump]
  · intro others signal hkilled hpass
    rw [judge_eq_pass_iff, hkilled] at hpass
    exact Termination.noConfusion hpass.2

/-- A check and two exit directives, of which the second asks for zero again. -/
def withdrawn : List Directive :=
  [.exit 5 1, .check ['a'] 2, .exit 0 3]

/-- A subject that exits with the code that was withdrawn fails with all its output, and one that is
killed fails, too; asked for the code alone, another exit is a mismatch. -/
theorem judge_follows_expectedExit_withdrawn :
    Placeable [['a']] (patterns withdrawn) ∧
      judge withdrawn ⟨[['a']], [['e']], .exited 5⟩ = .fail (.unexpectedExit 5 [['a'], ['e']]) ∧
      judge withdrawn ⟨[['a']], [['e']], .signaled 9⟩ = .fail (.signaled 9 0 [['a'], ['e']]) ∧
      judge (withdrawn.take 2) ⟨[['a']], [['e']], .exited (-5)⟩ = .fail (.exitMismatch (-5) 5) ∧
      judge (withdrawn.take 2) ⟨[['a']], [['e']], .exited 5⟩ = .pass := by
  have hfound : Placeable [['a']] (patterns withdrawn) :=
    ⟨[0], by decide, .cons ⟨['a'], rfl, by decide⟩ .nil⟩
  obtain ⟨-, -, hunexpected, -⟩ :=
    judge_follows_expectedExit withdrawn ⟨[['a']], [['e']], .exited 5⟩ hfound
  obtain ⟨-, -, -, -, hsignaled, -⟩ :=
    judge_follows_expectedExit withdrawn ⟨[['a']], [['e']], .signaled 9⟩ hfound
  obtain ⟨-, -, -, hmismatch, -⟩ :=
    judge_follows_expectedExit (withdrawn.take 2) ⟨[['a']], [['e']], .exited (-5)⟩ hfound
  obtain ⟨-, hpass, -⟩ :=
    judge_follows_expectedExit (withdrawn.take 2) ⟨[['a']], [['e']], .exited 5⟩ hfound
  exact ⟨hfound, (hunexpected _ _).mpr ⟨rfl, by decide, rfl, rfl⟩,
    (hsignaled _ _ _).mpr ⟨rfl, rfl, rfl⟩, (hmismatch _ _).mpr ⟨rfl, by decide, by decide, rfl⟩,
    hpass.mpr rfl⟩

end Verdict

end Golden
