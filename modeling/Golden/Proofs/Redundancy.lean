import Golden.Proofs.Separation
import Golden.Proofs.Weakening

/-!
# Checks that ask for nothing new

The search stays on the line that it has found. A check for a part of the pattern that was just
found is therefore found at once, on the same line, and the search goes on from there as if it had
not been made. So no verdict needs such a check, and to make a check twice never asks for a second
line.

The exit directives between the two checks move nothing, so they are followed to the end before the
second check is looked at.

## Main results

* `Verdict.search_part` — a part of a pattern is found on the line of the pattern
* `Verdict.follow_check_exits` — what is known after a check and exit directives behind it
* `Verdict.follow_part` — a check for a part changes what is told and nothing else
* `Verdict.judge_unmoved_by_part` — no verdict needs it
-/

namespace Golden.Verdict

open Directive

variable {output : List Text} {above exits below : List Directive} {outcome : Outcome}
  {p : Progress} {pattern part : Text} {cursor i : Nat}

/-- A part of a pattern is found on the line of the pattern, if the search begins there. -/
theorem search_part (h : search output cursor pattern = some i) (hpart : part <:+: pattern) :
    search output i part = some i := by
  have hoccurs : OccursAt output pattern i := (search_eq_some_iff.mp h).1.2
  exact search_eq_some_iff.mpr ⟨⟨Nat.le_refl i, hoccurs.of_isInfix hpart⟩, fun j hj => hj.1⟩

/-- Exit directives change the code that is expected and nothing else. -/
theorem follow_exits (output : List Text) (p : Progress)
    (hexits : ∀ d ∈ exits, ∃ code line, d = .exit code line) :
    ∃ code, follow output p exits = ({ p with expected := code }, none) := by
  induction exits generalizing p with
  | nil => exact ⟨p.expected, rfl⟩
  | cons d rest ih =>
    obtain ⟨⟨code, line, rfl⟩, hrest⟩ := List.forall_mem_cons.mp hexits
    exact ih { p with expected := code } hrest

/-- Behind a check that is found and exit directives, the search stands on the line found. -/
theorem follow_check_exits (hsearch : search output p.cursor pattern = some i)
    (hexits : ∀ d ∈ exits, ∃ code line, d = .exit code line) (line : Nat) :
    ∃ code, ∀ more, follow output p ([.check pattern line] ++ exits ++ more) =
      follow output ⟨i, code, p.found ++ [⟨line, i + 1⟩]⟩ more := by
  obtain ⟨code, hcode⟩ :=
    follow_exits output { p with cursor := i, found := p.found ++ [⟨line, i + 1⟩] } hexits
  refine ⟨code, fun more => ?_⟩
  have hcheck : follow output p ([.check pattern line] ++ exits) =
      (⟨i, code, p.found ++ [⟨line, i + 1⟩]⟩, none) := by
    rw [List.singleton_append, follow, hsearch]
    exact hcode
  rw [follow_append, hcheck]

/-- A check for a part of the pattern that was just found leaves the search where it is and the code
that is expected as it is. It is told with the line of that pattern. -/
theorem follow_part (hsearch : search output p.cursor pattern = some i)
    (hexits : ∀ d ∈ exits, ∃ code line, d = .exit code line) (hpart : part <:+: pattern)
    (line line' : Nat) (below : List Directive) :
    ∃ code, follow output p ([.check pattern line] ++ exits ++ below) =
        follow output ⟨i, code, p.found ++ [⟨line, i + 1⟩]⟩ below ∧
      follow output p ([.check pattern line] ++ exits ++ .check part line' :: below) =
        follow output ⟨i, code, p.found ++ [⟨line, i + 1⟩, ⟨line', i + 1⟩]⟩ below := by
  obtain ⟨code, hcode⟩ := follow_check_exits hsearch hexits line
  refine ⟨code, hcode below, ?_⟩
  rw [hcode, follow, search_part hsearch hpart]
  simp

/-- Directives behind checks that cannot be placed are not looked at. -/
theorem follow_append_of_not_placeable (h : ¬ Placeable output (patterns above))
    (more : List Directive) :
    follow output .start (above ++ more) = follow output .start above := by
  obtain ⟨failure, hfailure⟩ := Option.ne_none_iff_exists'.mp (mt follow_start_eq_none_iff.mp h)
  have hfollow : follow output .start above = ((follow output .start above).1, some failure) :=
    Prod.ext rfl hfailure
  rw [follow_append, hfollow]

/-- What is found from a line on is put behind what was found before, whatever that is. -/
theorem exists_found_from (output : List Text) (i : Nat) (ds : List Directive) :
    ∃ rest, ∀ code before, (follow output ⟨i, code, before⟩ ds).1.found = before ++ rest := by
  refine ⟨List.zipWith Found.mk (checkLines ds)
    ((positions output i (patterns ds)).map (· + 1)), fun code before => ?_⟩
  rw [found_follow]

/-- If a pattern can be placed behind others, the search finds them and then the pattern. -/
theorem exists_search_of_placeable (h : Placeable output (patterns above ++ [pattern])) :
    (follow output .start above).2 = none ∧
      ∃ i, search output (follow output .start above).1.cursor pattern = some i := by
  have habove : (follow output .start above).2 = none :=
    follow_start_eq_none_iff.mpr (h.of_isPrefix (List.prefix_append _ _))
  have hboth : (follow output .start (above ++ [.check pattern 0])).2 = none := by
    rw [follow_start_eq_none_iff, patterns_append]
    exact h
  rw [follow_append_of_eq_none habove, follow] at hboth
  refine ⟨habove, ?_⟩
  cases hsearch : search output (follow output .start above).1.cursor pattern with
  | none => simp [hsearch] at hboth
  | some i => exact ⟨i, rfl⟩

/-- **A weaker check behind a stronger one is redundant.** With only exit directives between them, a
check for a part of the pattern of the check before it changes no verdict, wherever the two stand
and whatever the outcome is. If the first check is found, the second is told with the same line, and
everything else that is told stays; if it is not, nothing that is told changes. -/
theorem judge_unmoved_by_part (above exits below : List Directive)
    (hexits : ∀ d ∈ exits, ∃ code line, d = .exit code line) (pattern part : Text)
    (hpart : part <:+: pattern) (line line' : Nat) (outcome : Outcome) :
    let once := above ++ [.check pattern line] ++ exits ++ below
    let twice := above ++ [.check pattern line] ++ exits ++ [.check part line'] ++ below
    judge twice outcome = judge once outcome ∧
    (Placeable outcome.lines (patterns above ++ [pattern]) → ∃ n rest,
      found once outcome.lines = found above outcome.lines ++ ⟨line, n⟩ :: rest ∧
      found twice outcome.lines =
        found above outcome.lines ++ ⟨line, n⟩ :: ⟨line', n⟩ :: rest) ∧
    (¬ Placeable outcome.lines (patterns above ++ [pattern]) →
      found twice outcome.lines = found once outcome.lines) := by
  intro once twice
  have hcode : lastCode twice = lastCode once := by simp [once, twice, lastCode]
  by_cases hplaced : Placeable outcome.lines (patterns above ++ [pattern])
  · obtain ⟨habove, i, hsearch⟩ := exists_search_of_placeable hplaced
    obtain ⟨code, honce, htwice⟩ := follow_part hsearch hexits hpart line line' below
    obtain ⟨rest, hrest⟩ := exists_found_from outcome.lines i below
    rw [← follow_append_of_eq_none habove] at honce htwice
    replace honce : follow outcome.lines .start once = _ := Eq.trans (by simp [once]) honce
    replace htwice : follow outcome.lines .start twice = _ := Eq.trans (by simp [twice]) htwice
    have hblame : (follow outcome.lines .start twice).2 = (follow outcome.lines .start once).2 := by
      rw [honce, htwice]
      apply follow_failure_congr
      rfl
    refine ⟨judge_congr hblame hcode, fun _ => ⟨i + 1, rest, ?_, ?_⟩, absurd hplaced⟩
    · rw [found, honce, hrest, List.append_assoc]
      rfl
    · rw [found, htwice, hrest, List.append_assoc]
      rfl
  · -- The check for the pattern is blamed, or one above it, and what is behind is not looked at.
    have hblamed : ¬ Placeable outcome.lines (patterns (above ++ [.check pattern line])) := by
      rwa [patterns_append]
    have hsame : follow outcome.lines .start twice = follow outcome.lines .start once := by
      simp only [once, twice, List.append_assoc _ _ below, List.append_assoc _ exits]
      rw [follow_append_of_not_placeable hblamed, follow_append_of_not_placeable hblamed]
    exact ⟨judge_congr (congrArg Prod.snd hsame) hcode, fun h => absurd h hplaced,
      fun _ => congrArg (fun r => r.1.found) hsame⟩

/-- A check for `ab`, and behind an exit directive a check for something else. -/
def repeated (part : Text) : List Directive :=
  [.check ['a', 'b'] 1, .exit 4 2, .check part 3]

/-- The check for `ab` is made again on output that has one `ab`, and so is a check for its second
half, which stands on an earlier line, too: neither asks for another line. On output without `ab`
the first check is blamed, although the weaker one would be found. -/
theorem judge_unmoved_by_part_again :
    (∀ d ∈ [Directive.exit 4 2], ∃ code line, d = .exit code line) ∧ ['b'] <:+: ['a', 'b'] ∧
      judge (repeated ['a', 'b']) ⟨[['b'], ['a', 'b']], [], .exited 4⟩ = .pass ∧
      (∃ n rest, found (repeated ['b']) [['b'], ['a', 'b']] = ⟨1, n⟩ :: ⟨3, n⟩ :: rest) ∧
      judge (repeated ['b']) ⟨[['b']], [], .exited 4⟩ = .fail (.checkNotFound 1 ['a', 'b']) := by
  have hexits : ∀ d ∈ [Directive.exit 4 2], ∃ code line, d = .exit code line := by simp
  have hpart : ['b'] <:+: ['a', 'b'] := by decide
  have hplaced : Placeable [['b'], ['a', 'b']] [['a', 'b']] :=
    ⟨[1], by decide, .cons ⟨['a', 'b'], rfl, by decide⟩ .nil⟩
  obtain ⟨hagain, -⟩ := judge_unmoved_by_part [] [.exit 4 2] [] hexits ['a', 'b'] ['a', 'b']
    (List.infix_refl _) 1 3 ⟨[['b'], ['a', 'b']], [], .exited 4⟩
  obtain ⟨-, htold, -⟩ := judge_unmoved_by_part [] [.exit 4 2] [] hexits ['a', 'b'] ['b'] hpart 1 3
    ⟨[['b'], ['a', 'b']], [], .exited 4⟩
  obtain ⟨hblamed, -⟩ := judge_unmoved_by_part [] [.exit 4 2] [] hexits ['a', 'b'] ['b'] hpart 1 3
    ⟨[['b']], [], .exited 4⟩
  obtain ⟨n, rest, -, htwice⟩ := htold hplaced
  exact ⟨hexits, hpart, hagain.trans rfl, ⟨n, rest, htwice⟩, hblamed.trans rfl⟩

end Golden.Verdict
