import Golden.Proofs.Earliest
import Mathlib.Data.List.TakeWhile

/-!
# Handing the output on

Directives that follow others are held against what these have left of the output: the lines from
that of the last found check on. So the verdict on two lists of directives is put together from two
verdicts, the second one on shorter output, and the search by position, which always looks at all
lines, does the same as one that hands the lines that are left from check to check.

## Main definitions

* `Verdict.lastIndex` — the position of the line that was found last
* `Verdict.Progress.followedBy` — what is known after directives that go on from what is known
* `Verdict.handOn`, `Verdict.judgeOnHand` — the search that hands the lines on, and its verdict

## Main results

* `Verdict.follow_followedBy` — following on the lines that are left is following from the last one
* `Verdict.cursor_follow` — the search goes on where the last check was found
* `Verdict.follow_eq_handOn` — both searches find the same and blame the same
* `Verdict.judge_composes` — the verdict on directives that follow others
-/

namespace Golden.Verdict

variable {output : List Text} {ds more : List Directive} {outcome : Outcome} {p q : Progress}
  {pattern : Text} {cursor i : Nat}

/-! ### From the last line on -/

/-- A found check, told on output that has more lines above. -/
def Found.below (above : Nat) (f : Found) : Found :=
  ⟨f.checkLine, above + f.outputLine⟩

/-- What is known after directives that go on from what is known, on the lines that are left. -/
def Progress.followedBy (q p : Progress) : Progress :=
  ⟨q.cursor + p.cursor, p.expected, q.found ++ p.found.map (Found.below q.cursor)⟩

theorem search_drop (output : List Text) (above cursor : Nat) (pattern : Text) :
    search output (above + cursor) pattern =
      (search (output.drop above) cursor pattern).map (above + ·) := by
  rw [search, search, List.drop_drop, Option.map_map]
  congr 1
  funext i
  exact Nat.add_assoc above cursor i

/-- Following directives on the lines that are left is following them from where the search is. -/
theorem follow_followedBy (output : List Text) (q p : Progress) (ds : List Directive) :
    follow output (q.followedBy p) ds =
      (q.followedBy (follow (output.drop q.cursor) p ds).1,
        (follow (output.drop q.cursor) p ds).2) := by
  induction ds generalizing p with
  | nil => rfl
  | cons d rest ih =>
    cases d with
    | exit code line => exact ih { p with expected := code }
    | check pattern line =>
      have hsearch : search output (q.followedBy p).cursor pattern =
          (search (output.drop q.cursor) p.cursor pattern).map (q.cursor + ·) :=
        search_drop output q.cursor p.cursor pattern
      rw [follow, follow, hsearch]
      cases search (output.drop q.cursor) p.cursor pattern with
      | none => rfl
      | some i =>
        -- The line found is counted from the cursor, and so is the one that is told.
        have hnext : { q.followedBy p with
            cursor := q.cursor + i
            found := (q.followedBy p).found ++ [⟨line, q.cursor + i + 1⟩] } =
            q.followedBy { p with cursor := i, found := p.found ++ [⟨line, i + 1⟩] } := by
          simp [Progress.followedBy, Found.below, Nat.add_assoc]
        dsimp only [Option.map_some]
        rw [hnext, ih]

/-- The check that is not found depends on where the search begins, and on nothing else that is
known. -/
theorem follow_failure_congr (h : p.cursor = q.cursor) (ds : List Directive) :
    (follow output p ds).2 = (follow output q ds).2 := by
  ext failure
  rw [follow_eq_some_iff, follow_eq_some_iff, h]

/-- The position of the line that was found last, the first one if none was found. -/
def lastIndex (found : List Found) : Nat :=
  (found.getLast?.map fun f => f.outputLine - 1).getD 0

/-- The search goes on where the last check was found. -/
theorem cursor_follow (h : p.cursor = lastIndex p.found) (ds : List Directive) :
    (follow output p ds).1.cursor = lastIndex (follow output p ds).1.found := by
  induction ds generalizing p with
  | nil => exact h
  | cons d rest ih =>
    cases d with
    | exit code line => exact ih h
    | check pattern line =>
      rw [follow]
      cases search output p.cursor pattern with
      | none => exact h
      | some i =>
        apply ih
        simp [lastIndex]

/-! ### Handing the lines on -/

/-- Follow directives by handing on what is left of the numbered lines of the output: each check
that is found hands on the lines from its own on. What is found, and the check that is not found or
else the code that is expected. -/
def handOn (expected : Int) : List (Text × Nat) → List Directive → List Found × Except Failure Int
  | _, [] => ([], .ok expected)
  | lines, .exit code _ :: rest => handOn code lines rest
  | lines, .check pattern line :: rest =>
    match lines.dropWhile fun l => !Text.occursIn pattern l.1 with
    | [] => ([], .error (.checkNotFound line pattern))
    | own :: below =>
      let (found, ending) := handOn expected (own :: below) rest
      (⟨line, own.2⟩ :: found, ending)

/-- The verdict of the search that hands the lines on. -/
def judgeOnHand (directives : List Directive) (outcome : Outcome) : Verdict :=
  match (handOn 0 (outcome.lines.zipIdx 1) directives).2 with
  | .error failure => fail failure
  | .ok expected => ofFailure? (exitFailure? outcome expected)

theorem dropWhile_zipIdx_of_none {lines : List Text} {test : Text → Bool}
    (h : lines.findIdx? test = none) (number : Nat) :
    (lines.zipIdx number).dropWhile (fun l => !test l.1) = [] := by
  rw [List.findIdx?_eq_none_iff] at h
  rw [List.dropWhile_eq_nil_iff]
  intro l hl
  simpa using h l.1 (List.fst_mem_of_mem_zipIdx hl)

theorem dropWhile_zipIdx_of_some {lines : List Text} {test : Text → Bool}
    (h : lines.findIdx? test = some i) (number : Nat) :
    (lines.zipIdx number).dropWhile (fun l => !test l.1) = (lines.drop i).zipIdx (number + i) := by
  induction lines generalizing i number with
  | nil => simp at h
  | cons line rest ih =>
    rw [List.findIdx?_cons] at h
    rw [List.zipIdx_cons]
    cases htest : test line with
    | true =>
      rw [htest, if_pos rfl] at h
      obtain rfl := Option.some.inj h
      exact List.dropWhile_cons_of_neg (by simp [htest])
    | false =>
      rw [htest, if_neg Bool.false_ne_true, Option.map_eq_some_iff] at h
      obtain ⟨j, hj, rfl⟩ := h
      rw [List.dropWhile_cons_of_pos (by simp [htest]), ih hj, List.drop_succ_cons,
        Nat.add_right_comm, Nat.add_assoc number j 1]

/-- The search that hands the lines on finds the same, and blames the same or expects the same code
in the end. -/
theorem follow_eq_handOn (output : List Text) (p : Progress) (ds : List Directive) :
    (follow output p ds).1.found =
        p.found ++ (handOn p.expected ((output.drop p.cursor).zipIdx (p.cursor + 1)) ds).1 ∧
      (follow output p ds).2.elim (.ok (follow output p ds).1.expected) .error =
        (handOn p.expected ((output.drop p.cursor).zipIdx (p.cursor + 1)) ds).2 := by
  induction ds generalizing p with
  | nil => simp [follow, handOn]
  | cons d rest ih =>
    cases d with
    | exit code line => exact ih { p with expected := code }
    | check pattern line =>
      rw [follow, handOn]
      cases hfind : (output.drop p.cursor).findIdx? (Text.occursIn pattern) with
      | none => simp [search, hfind, dropWhile_zipIdx_of_none hfind]
      | some k =>
        -- The lines that are handed on begin with the one that is found.
        have hsearch : search output p.cursor pattern = some (p.cursor + k) := by
          rw [search, hfind, Option.map_some]
        have hlt : p.cursor + k < output.length :=
          (search_eq_some_iff.mp hsearch).1.2.lt_length
        have hleft : ((output.drop p.cursor).zipIdx (p.cursor + 1)).dropWhile
              (fun l => !Text.occursIn pattern l.1) =
            (output[p.cursor + k], p.cursor + k + 1) ::
              (output.drop (p.cursor + k + 1)).zipIdx (p.cursor + k + 1 + 1) := by
          rw [dropWhile_zipIdx_of_some hfind, List.drop_drop, List.drop_eq_getElem_cons hlt,
            List.zipIdx_cons, Nat.add_right_comm]
        have hnext := ih
          { p with cursor := p.cursor + k, found := p.found ++ [⟨line, p.cursor + k + 1⟩] }
        rw [List.drop_eq_getElem_cons hlt, List.zipIdx_cons] at hnext
        rw [hsearch, hleft]
        obtain ⟨hfound, hending⟩ := hnext
        exact ⟨by rw [hfound, List.append_assoc]; rfl, hending⟩

/-- The search that hands the lines on comes to the same verdict. -/
theorem judge_eq_judgeOnHand (directives : List Directive) (outcome : Outcome) :
    judge directives outcome = judgeOnHand directives outcome := by
  have hending := (follow_eq_handOn outcome.lines .start directives).2
  rw [judge, judgeOnHand]
  cases hfollow : follow outcome.lines .start directives with
  | mk p failure? =>
    rw [hfollow] at hending
    have hhand : (handOn 0 (outcome.lines.zipIdx 1) directives).2 =
        failure?.elim (.ok p.expected) .error := hending.symm
    rw [hhand]
    cases failure? <;> rfl

/-! ### Putting verdicts together -/

theorem follow_append_of_eq_some {failure : Failure} (h : (follow output p ds).2 = some failure)
    (more : List Directive) : (follow output p (ds ++ more)).2 = some failure := by
  have hfollow : follow output p ds = ((follow output p ds).1, some failure) := Prod.ext rfl h
  rw [follow_append, hfollow]

theorem follow_append_of_eq_none (h : (follow output p ds).2 = none) (more : List Directive) :
    follow output p (ds ++ more) = follow output (follow output p ds).1 more := by
  have hfollow : follow output p ds = ((follow output p ds).1, none) := Prod.ext rfl h
  rw [follow_append, hfollow]

/-- Directives that follow others find and blame what they do on the lines that are left. -/
theorem follow_append_eq_drop (h : (follow output .start ds).2 = none) (more : List Directive) :
    found (ds ++ more) output = found ds output ++
        (found more (output.drop (lastIndex (found ds output)))).map
          (Found.below (lastIndex (found ds output))) ∧
      (follow output .start (ds ++ more)).2 =
        (follow (output.drop (lastIndex (found ds output))) .start more).2 := by
  have hcursor : (follow output .start ds).1.cursor = lastIndex (found ds output) :=
    cursor_follow rfl ds
  obtain ⟨q, hq⟩ : ∃ q, q = (follow output .start ds).1 := ⟨_, rfl⟩
  have hfound : found ds output = q.found := congrArg Progress.found hq.symm
  -- Only the code that is expected so far tells the state from a fresh one on the lines left.
  have hgoes : follow output .start (ds ++ more) =
      follow output (q.followedBy ⟨0, q.expected, []⟩) more := by
    rw [follow_append_of_eq_none h, ← hq]
    simp [Progress.followedBy]
  have hblame : (follow (output.drop q.cursor) ⟨0, q.expected, []⟩ more).2 =
      (follow (output.drop q.cursor) .start more).2 := by
    apply follow_failure_congr
    rfl
  rw [← hcursor, ← hq, found, hgoes, follow_followedBy]
  refine ⟨?_, hblame⟩
  rw [hfound, found_eq, Progress.followedBy, found_follow]
  rfl

/-- **Verdicts compose at the last found line.** If a check of the first directives is blamed, it is
blamed whatever follows. If none is, the directives that follow find what they find on the lines
from the last found one on, only lower by the lines above; the check that they blame there is the
one that is blamed; and if there is none, the expected code is that of their last exit directive, or
else that of the last one before them, or else zero. So the search by position is the search that
hands the lines on. -/
theorem judge_composes (directives more : List Directive) (outcome : Outcome) :
    let above := lastIndex (found directives outcome.lines)
    let left : Outcome := { outcome with lines := outcome.lines.drop above }
    (∀ line pattern, judge directives outcome = .fail (.checkNotFound line pattern) →
      judge (directives ++ more) outcome = .fail (.checkNotFound line pattern)) ∧
    ((∀ line pattern, judge directives outcome ≠ .fail (.checkNotFound line pattern)) →
      found (directives ++ more) outcome.lines =
        found directives outcome.lines ++ (found more left.lines).map (Found.below above) ∧
      (∀ line pattern, judge more left = .fail (.checkNotFound line pattern) ↔
        judge (directives ++ more) outcome = .fail (.checkNotFound line pattern)) ∧
      ((∀ line pattern, judge more left ≠ .fail (.checkNotFound line pattern)) →
        judge (directives ++ more) outcome = ofFailure? (exitFailure? outcome
          (((Directive.codes more).getLast?.or (Directive.codes directives).getLast?).getD 0)))) ∧
    judge directives outcome = judgeOnHand directives outcome ∧
    found directives outcome.lines = (handOn 0 (outcome.lines.zipIdx 1) directives).1 := by
  intro above left
  refine ⟨?_, ?_, judge_eq_judgeOnHand directives outcome,
    (follow_eq_handOn outcome.lines .start directives).1⟩
  · intro line pattern hblamed
    rw [judge_eq_checkNotFound_iff_follow] at hblamed ⊢
    exact follow_append_of_eq_some hblamed more
  · intro hnone
    have hplaced := follow_start_eq_none_iff.mpr (forall_judge_ne_checkNotFound_iff.mp hnone)
    obtain ⟨hfound, hblame⟩ := follow_append_eq_drop hplaced more
    -- Both verdicts blame the check at which their search ends, and the two searches end alike.
    have hsame (line : Nat) (pattern : Text) :
        judge more left = .fail (.checkNotFound line pattern) ↔
          judge (directives ++ more) outcome = .fail (.checkNotFound line pattern) := by
      rw [judge_eq_checkNotFound_iff_follow, judge_eq_checkNotFound_iff_follow, hblame]
    refine ⟨hfound, hsame, ?_⟩
    intro hnoneLeft
    -- With every check found, only the ending is left to judge.
    have hall : Placeable outcome.lines (Directive.patterns (directives ++ more)) :=
      forall_judge_ne_checkNotFound_iff.mp fun line pattern =>
        mt (hsame line pattern).mpr (hnoneLeft line pattern)
    rw [judge_eq_of_placeable hall, Directive.lastCode, Directive.codes_append,
      List.getLast?_append]

/-- A check, an exit directive and another check. -/
def opening : List Directive :=
  [.check ['a'] 1, .exit 3 2, .check ['b'] 3]

/-- Checks that are found below those. -/
def sequel : List Directive :=
  [.check ['a'] 4, .check ['c'] 5]

/-- A check for what stands above the last line found, and an exit directive below it. -/
def relapse : List Directive :=
  [.check ['x'] 4, .exit 4 5]

/-- Output with `x` between the lines on which the first checks are found, and with an `a` on the
second of these lines. -/
def handed : Outcome := ⟨[['a'], ['x'], ['b', 'a'], ['c']], [['e']], .exited 4⟩

/-- A check for `a` that follows is found on the line of `b`, and the code that is expected is the
one from before. A check for `x` that follows is blamed, although there is an `x` above, and it is
blamed whatever follows it. -/
theorem judge_composes_opening :
    (∀ line pattern, judge opening handed ≠ .fail (.checkNotFound line pattern)) ∧
      found (opening ++ sequel) handed.lines =
        found opening handed.lines ++ [Found.below 2 ⟨4, 1⟩, Found.below 2 ⟨5, 2⟩] ∧
      judge (opening ++ sequel) handed = ofFailure? (exitFailure? handed 3) ∧
      judge (opening ++ relapse) handed = .fail (.checkNotFound 4 ['x']) ∧
      judge (opening ++ relapse ++ sequel) handed = .fail (.checkNotFound 4 ['x']) := by
  have hopening : judge opening handed = .fail (.exitMismatch 4 3) := rfl
  have hnone (line : Nat) (pattern : Text) :
      judge opening handed ≠ .fail (.checkNotFound line pattern) := by
    simp [hopening]
  -- The line of `b` is the first of those that are left.
  have hleft : judge sequel { handed with lines := [['b', 'a'], ['c']] } =
      .fail (.unexpectedExit 4 [['b', 'a'], ['c'], ['e']]) := rfl
  have hnoneLeft (line : Nat) (pattern : Text) :
      judge sequel { handed with lines := [['b', 'a'], ['c']] } ≠
        .fail (.checkNotFound line pattern) := by
    simp [hleft]
  obtain ⟨-, hgoes, -⟩ := judge_composes opening sequel handed
  obtain ⟨hfound, -, hcode⟩ := hgoes hnone
  obtain ⟨-, hstops, -⟩ := judge_composes opening relapse handed
  obtain ⟨-, hblame, -⟩ := hstops hnone
  have hblamed : judge (opening ++ relapse) handed = .fail (.checkNotFound 4 ['x']) :=
    (hblame 4 ['x']).mp rfl
  obtain ⟨hkept, -⟩ := judge_composes (opening ++ relapse) sequel handed
  exact ⟨hnone, hfound, hcode hnoneLeft, hblamed, hkept 4 ['x'] hblamed⟩

end Golden.Verdict
