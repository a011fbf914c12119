import Golden.Proofs.Decimal
import Golden.Proofs.LineByLine
import Golden.Proofs.Matching

/-!
# How a failure is worded

A failure is shown as a heading, and two kinds of failures are shown with all captured lines below
it. As no captured line holds a line feed, the heading and the lines are told apart again: the kind
of the failure, its numbers and every single line are in the text, so that no lines are told from
one that is empty. All that is not shown is the pattern of a check that was not found.

## Main definitions

* `Failure.Heading` — what the first line of a failure tells
* `Failure.dumped` — the lines that are shown below it
* `Outcome.IsCaptured` — the lines of an outcome are those of streams

## Main results

* `Failure.splitOn_text` — the heading and the lines are the lines of the text
* `Failure.Heading.text_injective` — a heading tells the kind of a failure and its numbers
* `Failure.text_eq_text_iff` — which failures have the same text
* `Verdict.failure_reads_back` — all this for the failures of captured outcomes
-/

namespace Golden

/-! ### Numbers within a text -/

namespace Numeral

variable {i j : Int}

/-- A number is told from what is behind it by the first character that no number holds. -/
theorem decimalInt_append_inj {front middle more more' : Text}
    (hmiddle : ∃ c ∈ middle.head?, c.isDigit = false ∧ c ≠ '-')
    (h : front ++ decimalInt i ++ middle ++ more = front ++ decimalInt j ++ middle ++ more') :
    i = j ∧ more = more' := by
  obtain ⟨c, hc, hdigit, hminus⟩ := hmiddle
  cases middle with
  | nil => simp at hc
  | cons x middle =>
    obtain rfl : x = c := Option.some.inj hc
    simp only [List.append_assoc, List.cons_append] at h
    obtain ⟨hsame, hmore⟩ := Lines.append_cons_inj (not_mem_decimalInt hdigit hminus i)
      (not_mem_decimalInt hdigit hminus j) (List.append_cancel_left h)
    exact ⟨decimalInt_injective hsame, List.append_cancel_left hmore⟩

end Numeral

namespace Failure

variable {f g : Failure}

/-- What the first line of a failure tells: its kind and its numbers. -/
inductive Heading where
  | checkNotFound (line : Nat)
  | unexpectedExit (actual : Int)
  | exitMismatch (actual expected : Int)
  | signaled (signal expected : Int)
  deriving DecidableEq

namespace Heading

/-- The failure with a heading that shows nothing else. -/
def bare : Heading → Failure
  | checkNotFound line => .checkNotFound line []
  | unexpectedExit actual => .unexpectedExit actual []
  | exitMismatch actual expected => .exitMismatch actual expected
  | signaled signal expected => .signaled signal expected []

/-- How a heading is shown. -/
def text (h : Heading) : Text :=
  h.bare.text

/-- Whether all captured lines are shown below it. -/
def dumps : Heading → Bool
  | unexpectedExit _ | signaled _ _ => true
  | checkNotFound _ | exitMismatch _ _ => false

/-- What a heading begins with, by its kind. -/
def beginning : Heading → Text
  | checkNotFound _ => ['C', 'H', 'E', 'C', 'K', ' ', 'o', 'n', ' ']
  | unexpectedExit _ => ['P', 'r', 'o', 'c', 'e', 's', 's', ' ', 'e']
  | exitMismatch _ _ => ['E', 'x', 'i', 't', ' ', 'c', 'o', 'd', 'e']
  | signaled _ _ => ['P', 'r', 'o', 'c', 'e', 's', 's', ' ', 't']

theorem take_text (h : Heading) : h.text.take 9 = h.beginning := by
  cases h <;> rfl

theorem beginning_eq_of_text_eq {g h : Heading} (heq : g.text = h.text) :
    g.beginning = h.beginning := by
  rw [← take_text, heq, take_text]

theorem text_checkNotFound (line : Nat) : (checkNotFound line).text =
    "CHECK on line ".toList ++ Numeral.decimal line ++ " not found".toList :=
  rfl

theorem text_unexpectedExit (actual : Int) : (unexpectedExit actual).text =
    "Process exited with code ".toList ++ Numeral.decimalInt actual ++ "; output:".toList :=
  List.append_nil _

theorem text_exitMismatch (actual expected : Int) : (exitMismatch actual expected).text =
    "Exit code ".toList ++ Numeral.decimalInt actual ++
      " does not match expected value of ".toList ++ Numeral.decimalInt expected :=
  rfl

theorem text_signaled (signal expected : Int) : (signaled signal expected).text =
    "Process terminated by signal ".toList ++ Numeral.decimalInt signal ++
      " (expected exit code ".toList ++ Numeral.decimalInt expected ++ "); output:".toList :=
  List.append_nil _

/-- A heading tells the kind of a failure and its numbers. -/
theorem text_injective : Function.Injective text := by
  intro g h heq
  -- Headings of different kinds begin differently; in each kind the numbers are what is left.
  have hkind := beginning_eq_of_text_eq heq
  cases g with
  | checkNotFound m =>
    cases h with
    | checkNotFound n =>
      have hwords := (text_checkNotFound m).symm.trans (heq.trans (text_checkNotFound n))
      have hnumber := List.append_cancel_left (List.append_cancel_right hwords)
      rw [Numeral.decimal_injective hnumber]
    | _ => simp [beginning] at hkind
  | unexpectedExit a =>
    cases h with
    | unexpectedExit b =>
      have hwords := (text_unexpectedExit a).symm.trans (heq.trans (text_unexpectedExit b))
      have hnumber := List.append_cancel_left (List.append_cancel_right hwords)
      rw [Numeral.decimalInt_injective hnumber]
    | _ => simp [beginning] at hkind
  | exitMismatch a e =>
    cases h with
    | exitMismatch b e' =>
      have hwords := (text_exitMismatch a e).symm.trans (heq.trans (text_exitMismatch b e'))
      obtain ⟨hactual, hexpected⟩ := Numeral.decimalInt_append_inj ⟨' ', rfl, rfl, by decide⟩ hwords
      rw [hactual, Numeral.decimalInt_injective hexpected]
    | _ => simp [beginning] at hkind
  | signaled k e =>
    cases h with
    | signaled l e' =>
      have hwords := (text_signaled k e).symm.trans (heq.trans (text_signaled l e'))
      obtain ⟨hsignal, hexpected⟩ := Numeral.decimalInt_append_inj ⟨' ', rfl, rfl, by decide⟩
        (List.append_cancel_right hwords)
      rw [hsignal, Numeral.decimalInt_injective hexpected]
    | _ => simp [beginning] at hkind

/-- A heading is one line. -/
theorem lineFeed_not_mem_text (h : Heading) : '\n' ∉ h.text := by
  have hnumber (i : Int) : '\n' ∉ Numeral.decimalInt i :=
    Numeral.not_mem_decimalInt (by decide) (by decide) i
  cases h with
  | checkNotFound line =>
    rw [text_checkNotFound]
    have hline : '\n' ∉ Numeral.decimal line := hnumber (.ofNat line)
    exact List.not_mem_append (List.not_mem_append (by decide) hline) (by decide)
  | unexpectedExit actual =>
    rw [text_unexpectedExit]
    exact List.not_mem_append (List.not_mem_append (by decide) (hnumber actual)) (by decide)
  | exitMismatch actual expected =>
    rw [text_exitMismatch]
    exact List.not_mem_append (List.not_mem_append (List.not_mem_append (by decide)
      (hnumber actual)) (by decide)) (hnumber expected)
  | signaled signal expected =>
    rw [text_signaled]
    exact List.not_mem_append (List.not_mem_append (List.not_mem_append (List.not_mem_append
      (by decide) (hnumber signal)) (by decide)) (hnumber expected)) (by decide)

end Heading

/-- The kind of a failure and its numbers. -/
def heading : Failure → Heading
  | checkNotFound line _ => .checkNotFound line
  | unexpectedExit actual _ => .unexpectedExit actual
  | exitMismatch actual expected => .exitMismatch actual expected
  | signaled signal expected _ => .signaled signal expected

/-- The lines that are shown below the heading. -/
def dumped : Failure → List Text
  | checkNotFound _ _ | exitMismatch _ _ => []
  | unexpectedExit _ output | signaled _ _ output => output

/-- No line that is shown holds a line feed. -/
def IsLegible (f : Failure) : Prop :=
  ∀ line ∈ f.dumped, '\n' ∉ line

theorem below_nil (first : Text) : below first [] = first :=
  List.append_nil first

theorem below_eq_intercalate (first : Text) (output : List Text) :
    below first output = ['\n'].intercalate (first :: output) := by
  induction output generalizing first with
  | nil => simp [below]
  | cons line output ih =>
    have hbelow : below first (line :: output) = first ++ '\n' :: below line output := by
      simp [below]
    rw [hbelow, ih line, List.intercalate_cons_cons]
    simp

/-- The text of a failure is its heading and the lines below it. -/
theorem text_eq_below (f : Failure) : f.text = below f.heading.text f.dumped := by
  have hbare (first : Text) (output : List Text) :
      below first output = below (below first []) output := by rw [below_nil]
  cases f with
  | checkNotFound line pattern => exact (below_nil _).symm
  | unexpectedExit actual output => exact hbare _ output
  | exitMismatch actual expected => exact (below_nil _).symm
  | signaled signal expected output => exact hbare _ output

/-- The lines of the text are the heading and the lines below it. -/
theorem splitOn_text (h : f.IsLegible) : f.text.splitOn '\n' = f.heading.text :: f.dumped := by
  rw [text_eq_below, below_eq_intercalate]
  refine List.splitOn_intercalate '\n' ?_ (List.cons_ne_nil _ _)
  exact List.forall_mem_cons.mpr ⟨f.heading.lineFeed_not_mem_text, h⟩

/-- Failures have the same text if they have the same kind, the same numbers and the same lines. -/
theorem text_eq_text_iff (hf : f.IsLegible) (hg : g.IsLegible) :
    f.text = g.text ↔ f.heading = g.heading ∧ f.dumped = g.dumped := by
  constructor
  · intro h
    have hlines : f.heading.text :: f.dumped = g.heading.text :: g.dumped := by
      rw [← splitOn_text hf, h, splitOn_text hg]
    obtain ⟨hheading, hdumped⟩ := List.cons.inj hlines
    exact ⟨Heading.text_injective hheading, hdumped⟩
  · rintro ⟨hheading, hdumped⟩
    rw [text_eq_below, hheading, hdumped, ← text_eq_below]

/-- All that is not shown is the pattern of a check. -/
theorem eq_or_checkNotFound (hheading : f.heading = g.heading) (hdumped : f.dumped = g.dumped) :
    f = g ∨ ∃ line pattern pattern', f = .checkNotFound line pattern ∧
      g = .checkNotFound line pattern' := by
  cases f with
  | checkNotFound line pattern =>
    cases g <;> cases hheading
    exact .inr ⟨line, pattern, _, rfl, rfl⟩
  | unexpectedExit actual output =>
    cases g <;> cases hheading
    obtain rfl : output = _ := hdumped
    exact .inl rfl
  | exitMismatch actual expected =>
    cases g <;> cases hheading
    exact .inl rfl
  | signaled signal expected output =>
    cases g <;> cases hheading
    obtain rfl : output = _ := hdumped
    exact .inl rfl

end Failure

/-- The lines of an outcome are those of streams. -/
def Outcome.IsCaptured (o : Outcome) : Prop :=
  ∃ output errors : Bytes, o.lines = linesOf output ∧ o.stderr = linesOf errors

theorem Outcome.IsCaptured.lineFeed_not_mem {o : Outcome} (h : o.IsCaptured) :
    ∀ line ∈ o.dump, '\n' ∉ line := by
  obtain ⟨output, errors, hlines, hstderr⟩ := h
  intro line hline
  rw [dump, hlines, hstderr] at hline
  rcases List.mem_append.mp hline with hline | hline
  · exact feed_not_mem_of_mem_linesOf hline
  · exact feed_not_mem_of_mem_linesOf hline

namespace Verdict

variable {ds : List Directive} {o : Outcome} {f : Failure}

/-- What is shown below the heading of a failure is all that was captured, or nothing. -/
theorem dumped_of_judge (h : judge ds o = .fail f) :
    f.dumped = if f.heading.dumps then o.dump else [] := by
  by_cases hplaced : Placeable o.lines (Directive.patterns ds)
  · rw [judge_eq_of_placeable hplaced] at h
    rcases exitFailure?_cases o (Directive.lastCode ds) with ⟨-, heq⟩ | ⟨actual, -, -, -, heq⟩ |
      ⟨actual, -, -, -, heq⟩ | ⟨signal, -, heq⟩ <;> rw [heq] at h
    · cases h
    all_goals
      obtain rfl := Verdict.fail.inj h
      rfl
  · -- Some check is not found, and it is shown without any lines.
    obtain ⟨failure, hfailure⟩ :=
      Option.ne_none_iff_exists'.mp (mt follow_start_eq_none_iff.mp hplaced)
    obtain ⟨_, _, _, _, -, rfl, -⟩ := follow_eq_some_iff.mp hfailure
    rw [judge_eq_of_follow hfailure] at h
    obtain rfl := Verdict.fail.inj h
    rfl

/-- The failure of a captured outcome shows no line feeds but those that end its lines. -/
theorem isLegible_of_judge (ho : o.IsCaptured) (h : judge ds o = .fail f) : f.IsLegible := by
  intro line hline
  rw [dumped_of_judge h] at hline
  split at hline
  · exact ho.lineFeed_not_mem line hline
  · cases hline

/-- **The text of a failure can be read back.** On an outcome whose lines are those of streams, the
lines of the text are a heading and, where the kind of the failure shows them, all lines of the
output and those of the error stream behind them; nothing is below the heading of a check that was
not found or of a mismatch. A heading tells the kind and the numbers. So two failures with the same
text are the same, unless both are that of a check on the same line, whose pattern is not shown. -/
theorem failure_reads_back :
    (∀ ds (o : Outcome) f, o.IsCaptured → judge ds o = .fail f →
      f.text.splitOn '\n' = f.heading.text :: f.dumped ∧
      f.dumped = if f.heading.dumps then o.lines ++ o.stderr else []) ∧
    Function.Injective Failure.Heading.text ∧
    ∀ ds ds' (o o' : Outcome) f g, o.IsCaptured → o'.IsCaptured →
      judge ds o = .fail f → judge ds' o' = .fail g → f.text = g.text →
        f = g ∨ ∃ line pattern pattern', f = .checkNotFound line pattern ∧
          g = .checkNotFound line pattern' := by
  refine ⟨fun ds o f ho h => ⟨Failure.splitOn_text (isLegible_of_judge ho h), dumped_of_judge h⟩,
    Failure.Heading.text_injective, fun ds ds' o o' f g ho ho' h h' htext => ?_⟩
  obtain ⟨hheading, hdumped⟩ := (Failure.text_eq_text_iff (isLegible_of_judge ho h)
    (isLegible_of_judge ho' h')).mp htext
  exact Failure.eq_or_checkNotFound hheading hdumped

/-- A signal with two lines of output and one of the error stream; an exit without output and one
with an empty line, which are told apart; and checks for two patterns, which are not. -/
theorem failure_reads_back_dumps :
    let killed : Outcome := ⟨[['a'], []], [['e']], .signaled 9⟩
    let silent : Outcome := ⟨[], [], .exited 3⟩
    let blank : Outcome := ⟨[[]], [], .exited 3⟩
    let signal := Failure.signaled 9 0 [['a'], [], ['e']]
    killed.IsCaptured ∧ silent.IsCaptured ∧ blank.IsCaptured ∧
      judge [] killed = .fail signal ∧
      signal.text.splitOn '\n' = signal.heading.text :: [['a'], [], ['e']] ∧
      judge [] silent = .fail (.unexpectedExit 3 []) ∧
      judge [] blank = .fail (.unexpectedExit 3 [[]]) ∧
      (Failure.unexpectedExit 3 []).text ≠ (Failure.unexpectedExit 3 [[]]).text ∧
      judge [.check ['a'] 1] silent = .fail (.checkNotFound 1 ['a']) ∧
      judge [.check ['b'] 1] silent = .fail (.checkNotFound 1 ['b']) ∧
      (Failure.checkNotFound 1 ['a']).text = (Failure.checkNotFound 1 ['b']).text := by
  intro killed silent blank signal
  have hkilled : killed.IsCaptured :=
    ⟨[0x61, 0x0a, 0x0a], [0x65], by decide +kernel, by decide +kernel⟩
  have hsilent : silent.IsCaptured := ⟨[], [], by decide +kernel, by decide +kernel⟩
  have hblank : blank.IsCaptured := ⟨[0x0a], [], by decide +kernel, by decide +kernel⟩
  have hsignal : judge [] killed = .fail signal := rfl
  have hnone : judge [] silent = .fail (.unexpectedExit 3 []) := rfl
  have hempty : judge [] blank = .fail (.unexpectedExit 3 [[]]) := rfl
  obtain ⟨hlines, -, hsame⟩ := failure_reads_back
  refine ⟨hkilled, hsilent, hblank, hsignal, (hlines _ _ _ hkilled hsignal).1, hnone, hempty,
    fun htext => ?_, rfl, rfl, rfl⟩
  obtain heq | ⟨line, pattern, pattern', heq, -⟩ :=
    hsame _ _ _ _ _ _ hsilent hblank hnone hempty htext
  · simp at heq
  · cases heq

end Verdict

end Golden
