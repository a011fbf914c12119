import Golden.Proofs.Decimal
import Golden.Proofs.Lines
import Golden.Proofs.Provenance

/-!
# Writing directives

Directives are written each on the line of its number, with empty lines between them and every line
ended in the longer of the two ways. Reading this gives the directives back. What can be written and
read back is exactly what some content is read as: directives one below the other, patterns that
keep to one line, and codes of thirty-two bits.

## Main definitions

* `Directive.written` — the line of a directive
* `Directive.render` — a content with given directives
* `Directive.Writable` — what directives that are read from a content are like

## Main results

* `Directive.writable_of_parse` — what is read can be written
* `Directive.lines_render` — the lines of what is written
* `Directive.parse_render_of_writable` — what is written is read back
* `Directive.parse_undoes_render` — writing and reading are inverse to each other
-/

namespace Golden

namespace Directive

variable {ds : List Directive} {d : Directive} {number : Nat} {content : Text}

/-- The line of a directive. -/
def written : Directive → Text
  | check pattern _ => checkMark ++ pattern
  | exit code _ => exitMark ++ Numeral.decimalInt code

/-- The number of the last line that has a directive, zero if there is none. -/
def lastLine (ds : List Directive) : Nat :=
  (ds.getLast?.map line).getD 0

/-- The line with a number: the directive that stands there, or nothing. -/
def lineAt (ds : List Directive) (number : Nat) : Text :=
  ((ds.find? (·.line = number)).map written).getD []

/-- The lines from the first to the last one that has a directive. -/
def writtenLines (ds : List Directive) : List Text :=
  (List.range' 1 (lastLine ds)).map (lineAt ds)

/-- A content with given directives, every line ended by a carriage return and a line feed. -/
def render (ds : List Directive) : Text :=
  (writtenLines ds).flatMap (· ++ ['\r', '\n'])

/-- Directives that stand one below the other, with patterns that keep to one line and codes of
thirty-two bits. -/
structure Writable (ds : List Directive) : Prop where
  above : ds.Pairwise Above
  positive : ∀ d ∈ ds, 1 ≤ d.line
  oneLine : ∀ pattern n, check pattern n ∈ ds → '\n' ∉ pattern
  inRange : ∀ code n, exit code n ∈ ds → Numeral.int32Min ≤ code ∧ code ≤ Numeral.int32Max

/-! ### What is read can be written -/

/-- The directives of a content stand in its lines, which hold no line feed. -/
theorem writable_of_parse (h : parse content = .ok ds) : Writable ds where
  above := pairwise_above_of_ofLines h
  positive d hd := by
    obtain ⟨n, -, hnumber, -⟩ := (mem_ofLines_iff h).mp hd
    omega
  oneLine pattern n hcheck := by
    obtain ⟨k, line, -, hline, hsaid⟩ := (mem_ofLines_iff h).mp hcheck
    obtain rfl : line = checkMark ++ pattern := hsaid
    have hfeed : '\n' ∉ checkMark ++ pattern :=
      Lines.not_mem_of_mem_split (List.mem_of_getElem? hline)
    exact fun hmem => hfeed (List.mem_append_right checkMark hmem)
  inRange code n hexit := by
    obtain ⟨k, line, -, -, payload, -, hcode⟩ := (mem_ofLines_iff h).mp hexit
    exact (Numeral.int32?_eq_some_iff.mp hcode).2

/-! ### The lines that are written -/

/-- A line that is written is that of a directive with its number, or else it is empty and no
directive has its number. -/
theorem lineAt_cases (ds : List Directive) (number : Nat) :
    (∃ d ∈ ds, d.line = number ∧ lineAt ds number = d.written) ∨
      (∀ d ∈ ds, d.line ≠ number) ∧ lineAt ds number = [] := by
  cases hfind : ds.find? (·.line = number) with
  | some d =>
    have hnumber : d.line = number := by simpa using List.find?_some hfind
    exact .inl ⟨d, List.mem_of_find?_eq_some hfind, hnumber, by simp [lineAt, hfind]⟩
  | none =>
    have hnone : ∀ d ∈ ds, d.line ≠ number := by simpa using hfind
    exact .inr ⟨hnone, by simp [lineAt, hfind]⟩

theorem Writable.eq_of_line_eq (h : Writable ds) {other : Directive} (hd : d ∈ ds)
    (hother : other ∈ ds) (hline : d.line = other.line) : d = other := by
  have hnodup : (ds.map line).Nodup :=
    List.pairwise_map.mpr (h.above.imp fun hlt => Nat.ne_of_lt hlt)
  exact List.inj_on_of_nodup_map hnodup hd hother hline

theorem Writable.lineAt_of_mem (h : Writable ds) (hd : d ∈ ds) :
    lineAt ds d.line = d.written := by
  rcases lineAt_cases ds d.line with ⟨other, hother, hline, hwritten⟩ | ⟨hnone, -⟩
  · rw [hwritten, h.eq_of_line_eq hother hd hline]
  · exact absurd rfl (hnone d hd)

/-- No directive stands below the last line. -/
theorem Writable.line_le_lastLine (h : Writable ds) (hd : d ∈ ds) : d.line ≤ lastLine ds := by
  rcases List.eq_nil_or_concat ds with rfl | ⟨front, last, rfl⟩
  · simp at hd
  · rw [List.concat_eq_append] at h hd ⊢
    have hlast : lastLine (front ++ [last]) = last.line := by simp [lastLine]
    rw [hlast]
    -- Every other directive stands above the last one.
    rcases List.mem_append.mp hd with hfront | hend
    · exact Nat.le_of_lt ((List.pairwise_append.mp h.above).2.2 d hfront last (by simp))
    · rw [List.mem_singleton.mp hend]

theorem getElem?_writtenLines {n : Nat} {line : Text} :
    (writtenLines ds)[n]? = some line ↔ n < lastLine ds ∧ lineAt ds (1 + n) = line := by
  simp [writtenLines, List.getElem?_eq_some_iff]

theorem mem_writtenLines {line : Text} (h : line ∈ writtenLines ds) :
    ∃ number, lineAt ds number = line := by
  obtain ⟨number, -, hline⟩ := List.mem_map.mp h
  exact ⟨number, hline⟩

/-- A directive is said by the line on which it is written. -/
theorem Writable.saidBy_written (h : Writable ds) (hd : d ∈ ds) : d.SaidBy d.written := by
  cases d with
  | check pattern n => rfl
  | exit code n =>
    obtain ⟨hlow, hhigh⟩ := h.inRange code n hd
    refine ⟨Numeral.decimalInt code, rfl, ?_⟩
    rw [codeOf?, Numeral.trimmed_decimalInt, Numeral.int32?_decimalInt hlow hhigh]

/-- A directive is written on one line. -/
theorem Writable.feed_not_mem_written (h : Writable ds) (hd : d ∈ ds) : '\n' ∉ d.written := by
  cases d with
  | check pattern n =>
    intro hfeed
    rcases List.mem_append.mp hfeed with hmark | hpattern
    · exact absurd hmark (by decide)
    · exact h.oneLine pattern n hd hpattern
  | exit code n =>
    intro hfeed
    rcases List.mem_append.mp hfeed with hmark | hcode
    · exact absurd hmark (by decide)
    · exact Numeral.not_mem_decimalInt (by decide) (by decide) code hcode

/-- The lines of what is written are the lines from which it was put together. -/
theorem lines_render (h : Writable ds) : (render ds).lines = writtenLines ds := by
  -- A content is split where its lines were ended if none of them holds a line feed.
  apply Lines.split_flatMap (by decide)
  intro line hline
  obtain ⟨number, rfl⟩ := mem_writtenLines hline
  rcases lineAt_cases ds number with ⟨d, hd, -, hwritten⟩ | ⟨-, hempty⟩
  · rw [hwritten]
    exact h.feed_not_mem_written hd
  · rw [hempty]
    exact List.not_mem_nil

/-! ### What is written is read back -/

/-- The directives that stand in the written lines are those that were written. -/
theorem Writable.standsIn_writtenLines_iff (h : Writable ds) :
    StandsIn 1 (writtenLines ds) d ↔ d ∈ ds := by
  constructor
  · rintro ⟨n, line, hnumber, hline, hsaid⟩
    obtain ⟨-, hline⟩ := getElem?_writtenLines.mp hline
    rcases lineAt_cases ds (1 + n) with ⟨own, hown, hsame, hwritten⟩ | ⟨-, hempty⟩
    · -- The line is that of a directive, and it says no other one.
      have hownSaid : own.SaidBy line := by
        rw [← hline, hwritten]
        exact h.saidBy_written hown
      rw [hsaid.unique hownSaid (hnumber.trans hsame.symm)]
      exact hown
    · -- An empty line says nothing.
      have hmarked := hsaid.marked
      rw [← hline, hempty] at hmarked
      exact absurd hmarked not_marked_nil
  · intro hd
    have hpositive := h.positive d hd
    have hlast := h.line_le_lastLine hd
    have hnumber : 1 + (d.line - 1) = d.line := by omega
    refine ⟨d.line - 1, d.written, hnumber.symm, ?_, h.saidBy_written hd⟩
    rw [getElem?_writtenLines, hnumber]
    exact ⟨by omega, h.lineAt_of_mem hd⟩

theorem Writable.wellFormed_writtenLines (h : Writable ds) : WellFormed (writtenLines ds) := by
  intro payload hpayload
  obtain ⟨number, hline⟩ := mem_writtenLines hpayload
  rcases lineAt_cases ds number with ⟨d, hd, -, hwritten⟩ | ⟨-, hempty⟩
  · have hread := ofLine_eq_some_iff.mpr ⟨rfl, h.saidBy_written hd⟩
    exact exists_ofLine_iff.mp ⟨some d, hread⟩ payload (hwritten.symm.trans hline)
  · have hmarked : Marked [] := .inr ⟨payload, hline.symm.trans hempty⟩
    exact absurd hmarked not_marked_nil

/-- What is written is read back. -/
theorem parse_render_of_writable (h : Writable ds) : parse (render ds) = .ok ds := by
  rw [parse, lines_render h, ofLines_eq_ok_iff]
  exact ⟨h.wellFormed_writtenLines, h.above, fun _ => h.standsIn_writtenLines_iff.symm⟩

/-- **Reading undoes writing.** Some content is read as given directives exactly if these stand one
below the other on lines from one on, their patterns keep to one line and their codes to thirty-two
bits; and exactly then reading what is written of them gives them back. So a content that is read
may be replaced by what is written of its directives. -/
theorem parse_undoes_render (ds : List Directive) :
    ((∃ content, parse content = .ok ds) ↔ Writable ds) ∧
      (parse (render ds) = .ok ds ↔ Writable ds) ∧
      ∀ content, parse content = .ok ds → parse (render ds) = .ok ds := by
  refine ⟨⟨?_, fun h => ⟨render ds, parse_render_of_writable h⟩⟩,
    ⟨writable_of_parse, parse_render_of_writable⟩, ?_⟩
  · rintro ⟨content, h⟩
    exact writable_of_parse h
  · intro content h
    exact parse_render_of_writable (writable_of_parse h)

/-- A content with gaps, a pattern that ends in a carriage return, a pattern that looks like an exit
line, and a code written at length. -/
def roundabout : Text :=
  "\n# CHECK: y\r\r\nplain\n# EXIT -002147483648\n# CHECK: # EXIT 9".toList

/-- What is written of its directives is read as the same directives. -/
theorem parse_undoes_render_roundabout :
    parse roundabout =
        .ok [.check "y\r".toList 2, .exit (-2147483648) 4, .check "# EXIT 9".toList 5] ∧
      parse (render [.check "y\r".toList 2, .exit (-2147483648) 4, .check "# EXIT 9".toList 5]) =
        .ok [.check "y\r".toList 2, .exit (-2147483648) 4, .check "# EXIT 9".toList 5] := by
  have hparse : parse roundabout =
      .ok [.check "y\r".toList 2, .exit (-2147483648) 4, .check "# EXIT 9".toList 5] := rfl
  exact ⟨hparse, (parse_undoes_render _).2.2 roundabout hparse⟩

/-- The lines that have no directive are written as empty lines. -/
example : render [.check "y\r".toList 2, .exit (-3) 4] =
    "\r\n# CHECK: y\r\r\n\r\n# EXIT -3\r\n".toList := by decide

end Directive

end Golden
