import Golden.Proofs.Decimal
import Golden.Proofs.Separation
import Golden.Proofs.Succession

/-!
# Remarks that come true

A remark is made as soon as a second exit line is seen, and it announces that the directive there
takes effect. Which directive takes effect is only known at the end of the content, though: it is
the one whose code is expected, so that another code on its line is expected in place of its own.
A later exit line takes the effect away from every line that was announced before. So of all remarks
only the last one comes true, and all of them do only if there are at most two exit lines.

## Main definitions

* `Directive.recoded` — the directive with another code, if it is an exit directive on a line
* `Directive.TakesEffect` — the exit directive on a line has the say in the code that is expected
* `Directive.announcement` — the wording of a remark that announces a line

## Main results

* `Directive.takesEffect_iff` — the directive that takes effect is the last exit directive
* `Directive.announcement_true_iff_last` — which remarks come true
-/

namespace Golden.Directive

open Verdict

variable {ds : List Directive} {w : Warning} {n m i : Nat} {code : Int}

/-- The directive with another code, if it is an exit directive on line `n`. -/
def recoded (n : Nat) (code : Int) : Directive → Directive
  | check pattern line => check pattern line
  | exit c line => if line = n then exit code line else exit c line

/-- The exit directive on a line has the say: whatever code stands there is the one expected. -/
def TakesEffect (ds : List Directive) (n : Nat) : Prop :=
  ∀ code, expectedExit (ds.map (recoded n code)) = code

/-- The wording of a remark that announces the exit directive on a line. -/
def announcement (n : Nat) : Text :=
  "multiple EXIT directives; the one on line ".toList ++ Numeral.decimal n ++
    " takes effect".toList

/-! ### The directive that takes effect -/

/-- Without exit lines there are no codes, and there are none after another code was put. -/
theorem codes_map_recoded_of_exitLines (h : exitLines ds = []) (n : Nat) (code : Int) :
    codes (ds.map (recoded n code)) = [] := by
  induction ds with
  | nil => rfl
  | cons d rest ih =>
    cases d with
    | check pattern line => exact ih h
    | exit c line => cases h

/-- The code that is expected is the one on the last exit line, be it the one that was there before
or the one that was put there. -/
theorem expectedExit_map_recoded (h : (exitLines ds).getLast? = some m) (n : Nat) (code : Int) :
    expectedExit (ds.map (recoded n code)) = if m = n then code else expectedExit ds := by
  obtain ⟨before, c, after, rfl, hafter, hexpected⟩ := exists_split_of_getLast?_exitLines h
  have hbehind : codes (after.map (recoded n code)) = [] :=
    codes_map_recoded_of_exitLines hafter n code
  have hlast : recoded n code (exit c m) = exit (if m = n then code else c) m := by
    rw [recoded]
    split <;> rfl
  rw [hexpected, expectedExit_eq_lastCode, lastCode, List.map_append, List.map_cons, codes_append,
    hlast, codes_cons_exit, hbehind, List.getLast?_concat, Option.getD_some]

/-- The directive that takes effect is the last exit directive. -/
theorem takesEffect_iff : TakesEffect ds n ↔ (exitLines ds).getLast? = some n := by
  constructor
  · intro heffect
    cases hlast : (exitLines ds).getLast? with
    | none =>
      -- Without an exit directive the code is zero, which is not one.
      have hone := heffect 1
      rw [List.getLast?_eq_none_iff] at hlast
      rw [expectedExit_eq_lastCode, lastCode, codes_map_recoded_of_exitLines hlast] at hone
      cases hone
    | some m =>
      by_cases hm : m = n
      · rw [hm]
      · -- The code stays what it was, and so it cannot become the next number, too.
        have hnext := heffect (expectedExit ds + 1)
        rw [expectedExit_map_recoded hlast, if_neg hm] at hnext
        omega
  · intro hlast code
    rw [expectedExit_map_recoded hlast, if_pos rfl]

/-- Its code is the one that is expected, and the one that a run is held against. -/
theorem TakesEffect.exists_code (h : TakesEffect ds n) :
    ∃ code, exit code n ∈ ds ∧ expectedExit ds = code ∧
      ∀ outcome : Outcome, Placeable outcome.lines (patterns ds) →
        (judge ds outcome = .pass ↔ outcome.termination = .exited code) := by
  obtain ⟨before, code, after, hsplit, -, hcode⟩ :=
    exists_split_of_getLast?_exitLines (takesEffect_iff.mp h)
  refine ⟨code, ?_, hcode, fun outcome hfound => ?_⟩
  · rw [hsplit]
    exact List.mem_append_right before List.mem_cons_self
  · rw [judge_eq_pass_iff, ← expectedExit_eq_lastCode, hcode]
    exact and_iff_right hfound

/-! ### The remarks -/

/-- A remark announces one line. -/
theorem announcement_injective : Function.Injective announcement := by
  intro m n h
  have hdecimal := List.append_cancel_left (List.append_cancel_right h)
  exact Numeral.decimal_injective hdecimal

/-- Where the exit lines stand one below the other, a remark ends at the last of them exactly if it
is the last remark. -/
theorem getLast?_exitLines_iff (hlines : (exitLines ds).Pairwise (· < ·))
    (hw : (warnings ds)[i]? = some w) :
    (exitLines ds).getLast? = some w.line ↔ i + 1 = (warnings ds).length := by
  have hlength : (warnings ds).length = (exitLines ds).length - 1 := by
    rw [warnings_eq_links, length_links]
  rw [warnings_eq_links, getElem?_links_eq_some_iff] at hw
  obtain ⟨hi, -⟩ := List.getElem?_eq_some_iff.mp hw.2
  rw [List.getLast?_eq_getElem?, ← hw.2]
  constructor
  · intro hlast
    -- No exit line stands twice among them, so that both positions are the same.
    have hnodup : (exitLines ds).Nodup := hlines.imp fun hlt => Nat.ne_of_lt hlt
    have hsame := (List.getElem?_inj hi hnodup).mp hlast.symm
    omega
  · intro hlast
    have hsame : (exitLines ds).length - 1 = i + 1 := by omega
    rw [hsame]

/-- **Only the last remark comes true.** A remark announces a line, and the exit directive there
takes effect exactly if no further remark follows. So all remarks about a content come true exactly
if it has at most two exit lines. Whatever directive takes effect, its code is the expected one, and
a run in which the checks are found passes exactly if it ends with that code. -/
theorem announcement_true_iff_last (content : Text) (ds : List Directive)
    (h : parse content = .ok ds) :
    (∀ (i : Nat) w n, (warnings ds)[i]? = some w → w.message = announcement n →
      (TakesEffect ds n ↔ i + 1 = (warnings ds).length)) ∧
    ((∀ w ∈ warnings ds, ∀ n, w.message = announcement n → TakesEffect ds n) ↔
      (exitLines ds).length ≤ 2) ∧
    ∀ n, TakesEffect ds n → ∃ code, exit code n ∈ ds ∧ expectedExit ds = code ∧
      ∀ outcome : Outcome, Placeable outcome.lines (patterns ds) →
        (judge ds outcome = .pass ↔ outcome.termination = .exited code) := by
  have heffects : ∀ (i : Nat) w n, (warnings ds)[i]? = some w → w.message = announcement n →
      (TakesEffect ds n ↔ i + 1 = (warnings ds).length) := by
    intro i w n hw hmessage
    obtain rfl : w.line = n := announcement_injective hmessage
    rw [takesEffect_iff, getLast?_exitLines_iff (pairwise_exitLines h) hw]
  have hlength : (warnings ds).length = (exitLines ds).length - 1 := by
    rw [warnings_eq_links, length_links]
  refine ⟨heffects, ⟨fun hall => ?_, fun htwo w hw n hmessage => ?_⟩,
    fun n hn => hn.exists_code⟩
  · -- With three exit lines the first remark would be followed by another one.
    by_contra hthree
    have hzero : 0 < (warnings ds).length := by omega
    have hfirst := List.getElem?_eq_getElem hzero
    have htrue := hall _ (List.getElem_mem hzero) _ rfl
    have hlast := (heffects 0 _ _ hfirst rfl).mp htrue
    omega
  · obtain ⟨i, hi, hget⟩ := List.getElem_of_mem hw
    have hposition : (warnings ds)[i]? = some w := by rw [List.getElem?_eq_getElem hi, hget]
    exact (heffects i w n hposition hmessage).mpr (by omega)

/-- Two exit lines around a check. -/
def revised : Text :=
  "# EXIT 5\n# CHECK: a\n# EXIT 0\n".toList

/-- The one remark about them comes true: a run that ends with the second code passes, and one that
ends with the first does not. -/
theorem announcement_true_iff_last_revised :
    let ds : List Directive := [.exit 5 1, .check ['a'] 2, .exit 0 3]
    parse revised = .ok ds ∧ warnings ds = [⟨3, 1⟩] ∧
      Warning.message ⟨3, 1⟩ = announcement 3 ∧ TakesEffect ds 3 ∧ ¬ TakesEffect ds 1 ∧
      judge ds ⟨[['a']], [], .exited 0⟩ = .pass ∧ judge ds ⟨[['a']], [], .exited 5⟩ ≠ .pass := by
  intro ds
  have hparse : parse revised = .ok ds := rfl
  obtain ⟨heffects, -, hcode⟩ := announcement_true_iff_last _ _ hparse
  have heffect : TakesEffect ds 3 := (heffects 0 ⟨3, 1⟩ 3 rfl rfl).mpr rfl
  obtain ⟨code, hmem, -, hpass⟩ := hcode 3 heffect
  obtain rfl : code = 0 := by simpa [ds] using hmem
  have hfound : Placeable [['a']] (patterns ds) :=
    ⟨[0], by decide, .cons ⟨['a'], rfl, by decide⟩ .nil⟩
  refine ⟨hparse, rfl, rfl, heffect, fun hfirst => ?_, (hpass _ hfound).mpr rfl, fun hother => ?_⟩
  · exact absurd (hfirst 7) (by decide)
  · exact absurd ((hpass _ hfound).mp hother) (by decide)

/-- With a third exit line below it, the second is announced and does not take effect: another code
in its place would not be expected. -/
theorem announcement_false_of_third :
    let ds : List Directive := [.exit 1 1, .exit 2 2, .exit 3 3]
    parse "# EXIT 1\n# EXIT 2\n# EXIT 3\n".toList = .ok ds ∧
      (∃ w ∈ warnings ds, w.message = announcement 2) ∧ ¬ TakesEffect ds 2 ∧
      expectedExit ds = 3 ∧ judge ds ⟨[], [], .exited 2⟩ ≠ .pass := by
  refine ⟨rfl, ⟨⟨2, 1⟩, by decide, rfl⟩, fun heffect => ?_, by decide, by decide⟩
  exact absurd (heffect 7) (by decide)

end Golden.Directive
