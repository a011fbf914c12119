import Golden.Proofs.Concatenation
import Golden.Proofs.Provenance

/-!
# Exit lines one below the other

The remarks about a test case join its exit lines, each with the next one below it. While the
directives are gone through, all that is remembered is the last exit line, and whatever stands
between two exit lines changes nothing about it. So there is one remark less than there are exit
lines, each remark begins where the one before it ends, and the last one ends at the line whose code
is expected of the subject, although that code is found by searching from the other end.

## Main definitions

* `Directive.links` — the remarks that join lines, each with the next one

## Main results

* `Directive.warningsAfter_eq_links` — going through directives joins the remembered line and theirs
* `Directive.getElem?_links_eq_some_iff`, `Directive.isChain_links` — which lines a remark joins, and
  which remarks it stands between
* `Directive.exists_split_of_getLast?_exitLines` — the last exit line has the code that is expected
* `Directive.warnings_link_exit_lines` — the remarks about the directives of a content
-/

namespace Golden.Directive

variable {content : Text} {ds : List Directive} {w : Warning} {es : List Nat} {n i : Nat}

/-- The remarks that join lines, each line with the next one. -/
def links : List Nat → List Warning
  | previous :: line :: rest => ⟨line, previous⟩ :: links (line :: rest)
  | _ => []

/-! ### Links -/

theorem length_links (es : List Nat) : (links es).length = es.length - 1 := by
  induction es with
  | nil => rfl
  | cons previous es ih =>
    cases es with
    | nil => rfl
    | cons line rest =>
      rw [links, List.length_cons, ih]
      rfl

/-- The remark at a position joins the line at that position and the next one. -/
theorem getElem?_links_eq_some_iff :
    (links es)[i]? = some w ↔ es[i]? = some w.previous ∧ es[i + 1]? = some w.line := by
  -- Induction on the lines: behind the first remark, remarks and lines are one position lower.
  induction es generalizing i with
  | nil => simp [links]
  | cons previous es ih =>
    cases es with
    | nil => simp [links]
    | cons line rest =>
      rw [links]
      cases i with
      | zero =>
        simp only [List.getElem?_cons_zero, List.getElem?_cons_succ, Option.some.injEq]
        constructor
        · intro h
          rw [← h]
          exact ⟨rfl, rfl⟩
        · intro h
          rw [h.1, h.2]
      | succ i => exact ih

/-- Each remark ends where the next one begins. -/
theorem isChain_links (es : List Nat) :
    (links es).IsChain fun w next => w.line = next.previous := by
  rw [List.isChain_iff_getElem]
  intro i hi
  -- The line at the position between the two remarks belongs to both.
  have hone := (getElem?_links_eq_some_iff.mp (List.getElem?_eq_getElem (Nat.lt_of_succ_lt hi))).2
  have hnext := (getElem?_links_eq_some_iff.mp (List.getElem?_eq_getElem hi)).1
  exact Option.some.inj (hone.symm.trans hnext)

/-- The last remark ends at the last line. -/
theorem getLast?_of_getLast?_links (h : (links es).getLast? = some w) :
    es.getLast? = some w.line := by
  rw [List.getLast?_eq_getElem?, length_links] at h
  have hline := (getElem?_links_eq_some_iff.mp h).2
  have hpositive : es.length - 1 - 1 + 1 = es.length - 1 := by
    have hlt := (List.getElem?_eq_some_iff.mp hline).1
    omega
  rwa [hpositive, ← List.getLast?_eq_getElem?] at hline

/-! ### Remarks -/

/-- Going through directives joins the exit line that is remembered, if there is one, and those of
the directives. Checks are passed over. -/
theorem warningsAfter_eq_links (previous : Option Nat) (ds : List Directive) :
    warningsAfter previous ds = links (previous.toList ++ exitLines ds) := by
  -- The invariant is what is remembered: after an exit directive, that is its line.
  induction ds generalizing previous with
  | nil => cases previous <;> rfl
  | cons d rest ih =>
    cases d with
    | check pattern line => exact ih previous
    | exit code line =>
      rw [warningsAfter, ih, exitLines_cons_exit]
      cases previous with
      | none => rfl
      | some previous => rfl

theorem warnings_eq_links (ds : List Directive) : warnings ds = links (exitLines ds) :=
  warningsAfter_eq_links none ds

/-! ### The lines -/

/-- The exit lines of a content stand one below the other. -/
theorem pairwise_exitLines (h : parse content = .ok ds) : (exitLines ds).Pairwise (· < ·) := by
  refine (pairwise_above_of_ofLines h).filterMap exitLine? ?_
  intro a b habove k hk l hl
  cases a with
  | check pattern line => cases hk
  | exit code line =>
    cases b with
    | check pattern line' => cases hl
    | exit code' line' =>
      cases hk
      cases hl
      exact habove

theorem mem_exitLines_iff : n ∈ exitLines ds ↔ ∃ code, exit code n ∈ ds := by
  rw [exitLines, List.mem_filterMap]
  constructor
  · intro h
    obtain ⟨d, hd, hline⟩ := h
    cases d with
    | check pattern line => cases hline
    | exit code line =>
      cases hline
      exact ⟨code, hd⟩
  · intro h
    obtain ⟨code, hd⟩ := h
    exact ⟨exit code n, hd, rfl⟩

/-- They are the lines that begin with the mark of an exit code. -/
theorem mem_exitLines_iff_of_parse (h : parse content = .ok ds) :
    n ∈ exitLines ds ↔
      ∃ k payload, n = 1 + k ∧ content.lines[k]? = some (exitMark ++ payload) := by
  rw [mem_exitLines_iff]
  constructor
  · intro hexit
    obtain ⟨code, hd⟩ := hexit
    obtain ⟨k, line, hn, hline, payload, rfl, -⟩ := (mem_ofLines_iff h).mp hd
    exact ⟨k, payload, hn, hline⟩
  · intro hline
    obtain ⟨k, payload, rfl, hline⟩ := hline
    -- The content is read, and so the payload of the line is the number of some code.
    have hwell := exists_parse_iff.mp ⟨ds, h⟩
    obtain ⟨code, hcode⟩ := hwell payload (List.mem_of_getElem? hline)
    exact ⟨code, (mem_ofLines_iff h).mpr ⟨k, _, rfl, hline, payload, rfl, hcode⟩⟩

/-- The directive on the last exit line is the one that is found by searching backward, and its code
is the one that is expected. -/
theorem exists_split_of_getLast?_exitLines (h : (exitLines ds).getLast? = some n) :
    ∃ before code after, ds = before ++ exit code n :: after ∧ exitLines after = [] ∧
      expectedExit ds = code := by
  have hback : ds.reverse.findSome? exitLine? = some n := by
    rw [← List.head?_filterMap, List.filterMap_reverse, List.head?_reverse]
    exact h
  obtain ⟨below, d, above, hsplit, hline, hbelow⟩ := List.findSome?_eq_some_iff.mp hback
  have hds : ds = above.reverse ++ d :: below.reverse := by
    rw [← List.reverse_reverse ds, hsplit]
    simp
  -- What the search passes over has no exit line, and so it has no code either.
  have hnocode : below.findSome? code? = none := by
    rw [List.findSome?_eq_none_iff]
    intro c hc
    cases c with
    | check pattern line => rfl
    | exit code line => cases hbelow _ hc
  cases d with
  | check pattern line => cases hline
  | exit code line =>
    cases hline
    refine ⟨above.reverse, code, below.reverse, hds, ?_, ?_⟩
    · rw [exitLines, List.filterMap_eq_nil_iff]
      intro c hc
      exact hbelow c (List.mem_reverse.mp hc)
    · rw [expectedExit, hsplit, List.findSome?_append, hnocode]
      rfl

/-- **The remarks join the exit lines, each with the next one.** In a content that is read, the exit
lines are those that begin with the mark, and their numbers grow. There is one remark less than
there are exit lines, and none without any; the remark at a position joins the exit line at that
position and the next one, whatever stands between them, and so each remark ends where the next one
begins. The last remark ends at the line of the last exit directive, whose code is expected. -/
theorem warnings_link_exit_lines (content : Text) (ds : List Directive)
    (h : parse content = .ok ds) :
    (exitLines ds).Pairwise (· < ·) ∧
    (∀ n, n ∈ exitLines ds ↔
      ∃ k payload, n = 1 + k ∧ content.lines[k]? = some (exitMark ++ payload)) ∧
    (warnings ds).length = (exitLines ds).length - 1 ∧
    (∀ (i : Nat) w, (warnings ds)[i]? = some w ↔
      (exitLines ds)[i]? = some w.previous ∧ (exitLines ds)[i + 1]? = some w.line) ∧
    (warnings ds).IsChain (fun w next => w.line = next.previous) ∧
    ∀ w, (warnings ds).getLast? = some w →
      ∃ before code after, ds = before ++ exit code w.line :: after ∧ exitLines after = [] ∧
        expectedExit ds = code := by
  rw [warnings_eq_links]
  refine ⟨pairwise_exitLines h, fun n => mem_exitLines_iff_of_parse h, length_links _, ?_,
    isChain_links _, ?_⟩
  · intro i w
    exact getElem?_links_eq_some_iff
  · intro w hw
    exact exists_split_of_getLast?_exitLines (getLast?_of_getLast?_links hw)

/-- Four exit lines with a check and ordinary lines between them, the second of which asks for the
same code as the first. -/
def overridden : Text :=
  "# EXIT 3\n# EXIT 3\r\n\n# CHECK: # EXIT 9\nx\n# EXIT -1\n# EXIT 0".toList

/-- Three remarks join them, and the last one ends at the line with the code that is expected. -/
theorem warnings_link_exit_lines_overridden :
    let ds : List Directive :=
      [.exit 3 1, .exit 3 2, .check "# EXIT 9".toList 4, .exit (-1) 6, .exit 0 7]
    parse overridden = .ok ds ∧ exitLines ds = [1, 2, 6, 7] ∧
      warnings ds = [⟨2, 1⟩, ⟨6, 2⟩, ⟨7, 6⟩] ∧ (warnings ds)[1]? = some ⟨6, 2⟩ ∧
      (warnings ds).length = 4 - 1 ∧
      ∃ before code after, ds = before ++ exit code 7 :: after ∧ exitLines after = [] ∧
        expectedExit ds = code := by
  intro ds
  have hparse : parse overridden = .ok ds := rfl
  obtain ⟨-, -, hlength, hjoined, -, hlast⟩ := warnings_link_exit_lines _ _ hparse
  exact ⟨hparse, rfl, rfl, (hjoined 1 ⟨6, 2⟩).mpr ⟨rfl, rfl⟩, hlength, hlast ⟨7, 6⟩ rfl⟩

end Golden.Directive
