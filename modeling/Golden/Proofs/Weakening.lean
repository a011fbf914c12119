import Golden.Proofs.Earliest

/-!
# Asking for less of more

A run that passes still passes if fewer checks are made, if the checks ask for parts of their
patterns, and if its output lines stand in the same order among other lines and have more text
around them. The search may then find the checks on entirely different lines, so the two runs are
not followed step by step: a placement of the patterns is carried over instead, and the search loses
none. For output that only goes on below, the search does not even move: what is found is found
again on the same lines.

## Main definitions

* `Directive.Weakened` — checks are dropped, or ask for parts of their patterns

## Main results

* `Placeable.mono` — parts of some patterns can be placed on longer lines among others
* `Verdict.found_follow_isPrefix` — more lines below the output leave what is found
* `Verdict.judge_passes_of_weakened` — passing is monotone
-/

namespace Golden

variable {output richer patterns fewer : List Text} {pattern : Text} {cursor i : Nat}

/-! ### Placements on richer lines and for lesser patterns -/

theorem OccursAt.of_forall₂ (h : OccursAt output pattern i)
    (hricher : List.Forall₂ (· <:+: ·) output richer) : OccursAt richer pattern i := by
  have hi := h.lt_length
  have hi' : i < richer.length := hricher.length_eq ▸ hi
  rw [occursAt_iff_getElem hi] at h
  rw [occursAt_iff_getElem hi']
  exact h.trans (hricher.get hi hi')

theorem PlaceableFrom.of_forall₂ (h : PlaceableFrom output cursor patterns)
    (hricher : List.Forall₂ (· <:+: ·) output richer) : PlaceableFrom richer cursor patterns := by
  obtain ⟨positions, ⟨hordered, hoccurs⟩, hcursor⟩ := h
  exact ⟨positions, ⟨hordered, hoccurs.imp fun _ _ hi => hi.of_forall₂ hricher⟩, hcursor⟩

theorem OccursAt.of_isInfix {part : Text} (h : OccursAt output pattern i)
    (hpart : part <:+: pattern) : OccursAt output part i := by
  obtain ⟨line, hline, hinfix⟩ := h
  exact ⟨line, hline, hpart.trans hinfix⟩

/-- Parts of some of the patterns are placed where these were. -/
theorem PlaceableFrom.of_sublistForall₂ (h : PlaceableFrom output cursor patterns)
    (hfewer : List.SublistForall₂ (· <:+: ·) fewer patterns) :
    PlaceableFrom output cursor fewer := by
  induction hfewer generalizing cursor with
  | nil => exact placeableFrom_nil output cursor
  | cons hpart _ ih =>
    obtain ⟨i, hi, hoccurs, hrest⟩ := placeableFrom_cons_iff.mp h
    exact placeableFrom_cons_iff.mpr ⟨i, hi, hoccurs.of_isInfix hpart, ih hrest⟩
  | cons_right _ ih =>
    -- The line of a pattern that is left out is still below the cursor.
    obtain ⟨i, hi, -, hrest⟩ := placeableFrom_cons_iff.mp h
    exact ih (hrest.of_le hi)

/-- Parts of some patterns can be placed on longer lines among others, if the patterns can be placed
on the lines. -/
theorem Placeable.mono (h : Placeable output patterns)
    (hricher : List.SublistForall₂ (· <:+: ·) output richer)
    (hfewer : List.SublistForall₂ (· <:+: ·) fewer patterns) : Placeable richer fewer := by
  obtain ⟨longer, hlonger, hamong⟩ := List.sublistForall₂_iff.mp hricher
  have hplaced : Placeable longer fewer :=
    placeableFrom_zero.mp (((placeableFrom_zero.mpr h).of_sublistForall₂ hfewer).of_forall₂ hlonger)
  exact hplaced.of_sublist hamong

namespace Directive

/-- Directives of which some checks are dropped, and others ask for parts of their patterns. -/
inductive Weakened : List Directive → List Directive → Prop
  | nil : Weakened [] []
  | exit {ds weaker : List Directive} (code : Int) (line : Nat) (h : Weakened ds weaker) :
      Weakened (.exit code line :: ds) (.exit code line :: weaker)
  | drop {ds weaker : List Directive} (pattern : Text) (line : Nat) (h : Weakened ds weaker) :
      Weakened (.check pattern line :: ds) weaker
  | shorten {ds weaker : List Directive} {pattern part : Text} (line : Nat)
      (hpart : part <:+: pattern) (h : Weakened ds weaker) :
      Weakened (.check pattern line :: ds) (.check part line :: weaker)

variable {ds weaker : List Directive}

theorem Weakened.sublistForall₂_patterns (h : Weakened ds weaker) :
    List.SublistForall₂ (· <:+: ·) (Directive.patterns weaker) (Directive.patterns ds) := by
  induction h with
  | nil => exact .nil
  | exit _ _ _ ih => exact ih
  | drop _ _ _ ih => exact .cons_right ih
  | shorten _ hpart _ ih => exact .cons hpart ih

theorem Weakened.codes_eq (h : Weakened ds weaker) : codes weaker = codes ds := by
  induction h with
  | nil => rfl
  | exit code _ _ ih => exact congrArg (code :: ·) ih
  | drop _ _ _ ih => exact ih
  | shorten _ _ _ ih => exact ih

theorem Weakened.lastCode_eq (h : Weakened ds weaker) : lastCode weaker = lastCode ds := by
  rw [lastCode, lastCode, h.codes_eq]

end Directive

namespace Verdict

/-- A line that is found is found again if there are more lines below the output. -/
theorem search_append (h : search output cursor pattern = some i) (more : List Text) :
    search (output ++ more) cursor pattern = some i := by
  obtain ⟨⟨hi, hoccurs⟩, hleast⟩ := search_eq_some_iff.mp h
  have hsame (j : Nat) (hj : j < output.length) :
      OccursAt (output ++ more) pattern j ↔ OccursAt output pattern j := by
    rw [OccursAt, OccursAt, List.getElem?_append_left hj]
  refine search_eq_some_iff.mpr ⟨⟨hi, (hsame i hoccurs.lt_length).mpr hoccurs⟩, ?_⟩
  rintro j ⟨hj, hother⟩
  rcases Nat.lt_or_ge j output.length with hlt | hge
  · exact hleast ⟨hj, (hsame j hlt).mp hother⟩
  · exact hoccurs.lt_length.le.trans hge

/-- What is found is found again on the same lines if there are more lines below the output. -/
theorem found_follow_isPrefix (output more : List Text) (p : Progress) (ds : List Directive) :
    (follow output p ds).1.found <+: (follow (output ++ more) p ds).1.found := by
  induction ds generalizing p with
  | nil => exact List.prefix_rfl
  | cons d rest ih =>
    cases d with
    | exit code line => exact ih _
    | check pattern line =>
      cases hsearch : search output p.cursor pattern with
      | none =>
        -- Nothing more is found on the output; what was found stays in front.
        rw [found_follow (output ++ more), follow, hsearch]
        exact List.prefix_append _ _
      | some i =>
        rw [follow, follow, hsearch, search_append hsearch]
        exact ih _

/-- **Passing is monotone.** A run that passes still passes, ended as it has, if checks are dropped
or ask for parts of their patterns, and if its lines stand in their order among others and are parts
of longer lines. Passing or not, what is found is found again, in front of anything else, if the
output goes on below. -/
theorem judge_passes_of_weakened (directives : List Directive) (output : List Text) :
    (∀ weaker richer stderr stderr' termination,
      judge directives ⟨output, stderr, termination⟩ = .pass →
      Directive.Weakened directives weaker →
      List.SublistForall₂ (· <:+: ·) output richer →
      judge weaker ⟨richer, stderr', termination⟩ = .pass) ∧
    ∀ more, found directives output <+: found directives (output ++ more) := by
  refine ⟨?_, fun more => found_follow_isPrefix output more .start directives⟩
  intro weaker richer stderr stderr' termination hpass hweaker hricher
  -- The search may now find other lines, so its placement is carried over and not its steps.
  obtain ⟨hplaced, hended⟩ := judge_eq_pass_iff.mp hpass
  rw [← hweaker.lastCode_eq] at hended
  exact judge_eq_pass_iff.mpr ⟨hplaced.mono hricher hweaker.sublistForall₂_patterns, hended⟩

/-- Checks for `ab`, `c` and `b` with an exit directive pass on three lines. Without the second
check, and with `b` for the first pattern, they pass on longer lines among others, the first check
now being found on a line that was not there. -/
theorem judge_passes_of_weakened_elsewhere :
    judge [.check ['a', 'b'] 1, .exit 3 2, .check ['c'] 3, .check ['b'] 5]
        ⟨[['a', 'b'], ['c'], ['b']], [], .exited 3⟩ = .pass ∧
      Directive.Weakened [.check ['a', 'b'] 1, .exit 3 2, .check ['c'] 3, .check ['b'] 5]
        [.check ['b'] 1, .exit 3 2, .check ['b'] 5] ∧
      List.SublistForall₂ (· <:+: ·) [['a', 'b'], ['c'], ['b']]
        [['b'], ['a', 'b', '!'], ['c'], [], ['a', 'b']] ∧
      judge [.check ['b'] 1, .exit 3 2, .check ['b'] 5]
        ⟨[['b'], ['a', 'b', '!'], ['c'], [], ['a', 'b']], [['e']], .exited 3⟩ = .pass := by
  have hpass : judge [.check ['a', 'b'] 1, .exit 3 2, .check ['c'] 3, .check ['b'] 5]
      ⟨[['a', 'b'], ['c'], ['b']], [], .exited 3⟩ = .pass := rfl
  have hweaker : Directive.Weakened [.check ['a', 'b'] 1, .exit 3 2, .check ['c'] 3, .check ['b'] 5]
      [.check ['b'] 1, .exit 3 2, .check ['b'] 5] :=
    .shorten 1 (by decide) (.exit 3 2 (.drop ['c'] 3 (.shorten 5 (by decide) .nil)))
  have hricher : List.SublistForall₂ (· <:+: ·) [['a', 'b'], ['c'], ['b']]
      [['b'], ['a', 'b', '!'], ['c'], [], ['a', 'b']] :=
    .cons_right (.cons (by decide) (.cons (by decide) (.cons_right (.cons (by decide) .nil))))
  obtain ⟨hmono, -⟩ := judge_passes_of_weakened _ _
  exact ⟨hpass, hweaker, hricher, hmono _ _ _ [['e']] _ hpass hweaker hricher⟩

end Verdict

end Golden
