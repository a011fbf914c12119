import Golden.Proofs.Reading

/-!
# Blame

A check that is not found is named in the verdict. It is the right one to name: the checks before it
can be placed together, by some choice of lines, and with it they cannot, by any choice. So the line
that is told is the least line of the test case up to which the patterns cannot all be placed.

## Main results

* `isLeast_not_placeable_iff` — where a growing list of patterns stops being placeable
* `Verdict.judge_eq_checkNotFound_iff_split` — the blamed check among the directives
* `Verdict.judge_blames_least` — which check is blamed, and which line of the test case
-/

namespace Golden

variable {output : List Text} {directives : List Directive} {outcome : Outcome} {line : Nat}
  {pattern : Text}

/-- A growing list of patterns stops being placeable at the one step that makes it so. -/
theorem isLeast_not_placeable_iff {grown : Nat → List Text}
    (hgrow : ∀ m n, m ≤ n → grown m <+: grown n) {j : Nat} :
    IsLeast {n | ¬ Placeable output (grown n)} (j + 1) ↔
      Placeable output (grown j) ∧ ¬ Placeable output (grown (j + 1)) := by
  constructor
  · rintro ⟨hnot, hleast⟩
    refine ⟨?_, hnot⟩
    by_contra hbefore
    exact Nat.not_succ_le_self j (hleast hbefore)
  · rintro ⟨hbefore, hnot⟩
    refine ⟨hnot, fun n hn => ?_⟩
    -- What has grown less is a beginning of what can be placed.
    by_contra hlt
    exact hn (hbefore.of_isPrefix (hgrow n j (by omega)))

namespace Directive

theorem patterns_take_isPrefix (directives : List Directive) (m n : Nat) (h : m ≤ n) :
    patterns (directives.take m) <+: patterns (directives.take n) :=
  (List.take_prefix_take_left h).filterMap pattern?

theorem patternsIn_take_isPrefix (lines : List Text) (m n : Nat) (h : m ≤ n) :
    patternsIn (lines.take m) <+: patternsIn (lines.take n) :=
  (List.take_prefix_take_left h).filterMap (after? checkMark)

end Directive

namespace Verdict

open Directive

/-- A check is blamed exactly if the search for it finds nothing. -/
theorem judge_eq_checkNotFound_iff_follow :
    judge directives outcome = .fail (.checkNotFound line pattern) ↔
      (follow outcome.lines .start directives).2 = some (.checkNotFound line pattern) := by
  constructor
  · intro h
    cases hfollow : (follow outcome.lines .start directives).2 with
    | none =>
      -- With every check found, only the ending could be blamed, and that is no check.
      rw [judge_eq_of_placeable (follow_start_eq_none_iff.mp hfollow)] at h
      cases hexit : exitFailure? outcome (lastCode directives) with
      | none => simp [hexit, ofFailure?] at h
      | some failure =>
        rw [hexit, ofFailure?, Verdict.fail.injEq] at h
        exact absurd (hexit.trans (congrArg some h)) (exitFailure?_ne_checkNotFound _ _ _ _)
    | some failure =>
      rw [judge_eq_of_follow hfollow, Verdict.fail.injEq] at h
      rw [h]
  · exact judge_eq_of_follow

/-- A check is blamed if the patterns before it can be placed, and no longer with its own. -/
theorem judge_eq_checkNotFound_iff_split :
    judge directives outcome = .fail (.checkNotFound line pattern) ↔
      ∃ before after, directives = before ++ .check pattern line :: after ∧
        Placeable outcome.lines (patterns before) ∧
        ¬ Placeable outcome.lines (patterns before ++ [pattern]) := by
  simp only [judge_eq_checkNotFound_iff_follow, follow_eq_some_iff, Progress.start,
    placeableFrom_zero, Failure.checkNotFound.injEq]
  constructor
  · rintro ⟨before, _, _, after, hsplit, ⟨rfl, rfl⟩, hbefore, hnot⟩
    exact ⟨before, after, hsplit, hbefore, hnot⟩
  · rintro ⟨before, after, hsplit, hbefore, hnot⟩
    exact ⟨before, pattern, line, after, hsplit, ⟨rfl, rfl⟩, hbefore, hnot⟩

/-- Some check is blamed exactly if the patterns cannot be placed. -/
theorem exists_judge_eq_checkNotFound_iff :
    (∃ line pattern, judge directives outcome = .fail (.checkNotFound line pattern)) ↔
      ¬ Placeable outcome.lines (patterns directives) := by
  rw [← follow_start_eq_none_iff]
  simp only [judge_eq_checkNotFound_iff_follow]
  constructor
  · rintro ⟨line, pattern, h⟩
    simp [h]
  · intro h
    obtain ⟨failure, hfailure⟩ := Option.ne_none_iff_exists'.mp h
    obtain ⟨_, pattern, line, _, _, rfl, _⟩ := follow_eq_some_iff.mp hfailure
    exact ⟨line, pattern, hfailure⟩

/-- No check is blamed exactly if the patterns can be placed. -/
theorem forall_judge_ne_checkNotFound_iff :
    (∀ line pattern, judge directives outcome ≠ .fail (.checkNotFound line pattern)) ↔
      Placeable outcome.lines (patterns directives) := by
  constructor
  · intro hnone
    by_contra hnot
    obtain ⟨line, pattern, hblamed⟩ := exists_judge_eq_checkNotFound_iff.mpr hnot
    exact hnone line pattern hblamed
  · intro hplaced line pattern hblamed
    exact exists_judge_eq_checkNotFound_iff.mp ⟨line, pattern, hblamed⟩ hplaced

/-- The blamed check stands at the least position up to which the patterns cannot be placed. -/
theorem judge_eq_checkNotFound_iff_isLeast :
    judge directives outcome = .fail (.checkNotFound line pattern) ↔
      ∃ j, directives[j]? = some (.check pattern line) ∧
        IsLeast {n | ¬ Placeable outcome.lines (patterns (directives.take n))} (j + 1) := by
  simp only [judge_eq_checkNotFound_iff_split,
    isLeast_not_placeable_iff (patterns_take_isPrefix directives)]
  constructor
  · rintro ⟨before, after, rfl, hbefore, hnot⟩
    -- The position of the check is the number of directives before it.
    refine ⟨before.length, by simp, ?_, ?_⟩
    · rwa [List.take_left']
      rfl
    · rw [List.take_length_add_append]
      simpa using hnot
  · rintro ⟨j, hj, hbefore, hnot⟩
    obtain ⟨hlt, hcheck⟩ := List.getElem?_eq_some_iff.mp hj
    refine ⟨directives.take j, directives.drop (j + 1), ?_, hbefore, ?_⟩
    · rw [← hcheck, ← List.drop_eq_getElem_cons hlt, List.take_append_drop]
    · rw [List.take_succ_eq_append_getElem hlt, hcheck] at hnot
      simpa using hnot

/-- The line of the blamed check is the least one up to which the patterns of the test case cannot
be placed. -/
theorem isLeast_line_of_judge {content : Text} (hparse : parse content = .ok directives)
    (h : judge directives outcome = .fail (.checkNotFound line pattern)) :
    ∃ n, line = n + 1 ∧ content.lines[n]? = some (checkMark ++ pattern) ∧
      IsLeast {m | ¬ Placeable outcome.lines (patternsIn (content.lines.take m))} line := by
  obtain ⟨before, after, rfl, hbefore, hnot⟩ := judge_eq_checkNotFound_iff_split.mp h
  -- The directives before the blamed one are those of the lines above its own.
  obtain ⟨above, own, below, hlines, habove, hown⟩ := ofLines_split hparse
  obtain ⟨rfl, rfl⟩ := eq_of_ofLine_eq_check hown
  rw [patterns_of_ofLines habove] at hbefore hnot
  refine ⟨above.length, Nat.add_comm 1 _, by simp [hlines], ?_⟩
  rw [Nat.add_comm 1, isLeast_not_placeable_iff (patternsIn_take_isPrefix content.lines), hlines]
  refine ⟨?_, ?_⟩
  · rwa [List.take_left']
    rfl
  · rw [List.take_length_add_append]
    simpa [patternsIn] using hnot

/-- **Blame is exact.** A check is blamed exactly if the patterns cannot all be placed, whatever the
exit directives say and however the subject ended; it is the check at the least position up to which
the directives cannot be satisfied. If the directives are read off a content, the blamed line is the
mark and the pattern that are told, and no line above it is already too much. -/
theorem judge_blames_least (directives : List Directive) (outcome : Outcome) :
    ((∃ line pattern, judge directives outcome = .fail (.checkNotFound line pattern)) ↔
      ¬ Placeable outcome.lines (patterns directives)) ∧
    (∀ line pattern, judge directives outcome = .fail (.checkNotFound line pattern) ↔
      ∃ j, directives[j]? = some (.check pattern line) ∧
        IsLeast {n | ¬ Placeable outcome.lines (patterns (directives.take n))} (j + 1)) ∧
    ∀ content, parse content = .ok directives →
      ∀ line pattern, judge directives outcome = .fail (.checkNotFound line pattern) →
        ∃ n, line = n + 1 ∧ content.lines[n]? = some (checkMark ++ pattern) ∧
          IsLeast {m | ¬ Placeable outcome.lines (patternsIn (content.lines.take m))} line :=
  ⟨exists_judge_eq_checkNotFound_iff, fun _ _ => judge_eq_checkNotFound_iff_isLeast,
    fun _ hparse _ _ h => isLeast_line_of_judge hparse h⟩

/-- A test case whose two checks stand in the wrong order for the output `a`, `b`. -/
def reversed : Text :=
  "# CHECK: b\n# EXIT 3\n# CHECK: a\n".toList

/-- Its second check is blamed, although the subject was killed. -/
theorem judge_blames_reversed :
    parse reversed = .ok [.check ['b'] 1, .exit 3 2, .check ['a'] 3] ∧
      judge [.check ['b'] 1, .exit 3 2, .check ['a'] 3] ⟨[['a'], ['b']], [], .signaled 9⟩ =
        .fail (.checkNotFound 3 ['a']) ∧
      ∃ n, 3 = n + 1 ∧ reversed.lines[n]? = some (checkMark ++ ['a']) ∧
        IsLeast {m | ¬ Placeable [['a'], ['b']] (patternsIn (reversed.lines.take m))} 3 :=
  ⟨rfl, rfl, (judge_blames_least [.check ['b'] 1, .exit 3 2, .check ['a'] 3]
    ⟨[['a'], ['b']], [], .signaled 9⟩).2.2 reversed rfl 3 ['a'] rfl⟩

end Verdict

end Golden
