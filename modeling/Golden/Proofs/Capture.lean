import Golden.Proofs.Decoding
import Golden.Proofs.Matching
import Golden.Proofs.Pipeline

/-!
# Two captures of one run

The output of a subject is captured together or apart, and either way the same run is seen. If the
subject only ever writes whole lines, capturing together gives the lines of both streams, each once
and each stream in its own order, whatever bytes the lines are made of. A test case that is
satisfied by the output stream alone is then satisfied by both streams as well.

## Main definitions

* `Shuffle` — a list is put together from two others, each in its own order
* `Trace.WritesLines` — a run only writes whole lines

## Main results

* `Trace.WritesLines.shuffle_linesOf` — the lines of both streams are a shuffle of those of each
* `Script.writesLines_runFrom` — which scripts write whole lines
* `World.merged_shuffles_separate` — what the two captures have to do with each other
-/

namespace Golden

open Stage

/-! ### Shuffles -/

section Shuffle

variable {α : Type} {xs ys zs : List α}

/-- The third list is put together from the first two: every element of either is taken once, and
those of each in their order. -/
inductive Shuffle : List α → List α → List α → Prop
  | nil : Shuffle [] [] []
  | left {x : α} {xs ys zs : List α} (h : Shuffle xs ys zs) : Shuffle (x :: xs) ys (x :: zs)
  | right {y : α} {xs ys zs : List α} (h : Shuffle xs ys zs) : Shuffle xs (y :: ys) (y :: zs)

theorem Shuffle.append_left (front : List α) (h : Shuffle xs ys zs) :
    Shuffle (front ++ xs) ys (front ++ zs) := by
  induction front with
  | nil => exact h
  | cons x front ih => exact ih.left

theorem Shuffle.append_right (front : List α) (h : Shuffle xs ys zs) :
    Shuffle xs (front ++ ys) (front ++ zs) := by
  induction front with
  | nil => exact h
  | cons y front ih => exact ih.right

theorem Shuffle.sublist_left (h : Shuffle xs ys zs) : xs.Sublist zs := by
  induction h with
  | nil => exact .slnil
  | left _ ih => exact ih.cons_cons _
  | right _ ih => exact ih.cons _

end Shuffle

/-! ### Runs that write whole lines -/

namespace Trace

variable {t : Trace} {bytes : Bytes}

/-- Every piece that was written is nothing or ends with a line feed. -/
def WritesLines (t : Trace) : Prop :=
  ∀ write ∈ t.writes, EndsLine write.2

/-- The lines of both streams, captured together, are a shuffle of the lines of each. -/
def Shuffles (t : Trace) : Prop :=
  Shuffle (Outcome.linesOf (t.only .out)) (Outcome.linesOf (t.only .err)) (Outcome.linesOf t.merged)

theorem writesLines_after {s : Stream} :
    (t.after s bytes).WritesLines ↔ EndsLine bytes ∧ t.WritesLines := by
  simp [WritesLines, after]

/-- One more piece of whole lines goes in front of the lines of its own stream, and in front of all
lines. -/
theorem Shuffles.after (h : t.Shuffles) (hbytes : EndsLine bytes) (s : Stream) :
    (t.after s bytes).Shuffles := by
  rw [Shuffles, merged_after, only_after, only_after, Outcome.linesOf_append hbytes]
  cases s with
  | out =>
    have hout : (if Stream.out = .out then bytes else []) ++ t.only .out = bytes ++ t.only .out :=
      rfl
    have herr : (if Stream.out = .err then bytes else []) ++ t.only .err = t.only .err := rfl
    rw [hout, herr, Outcome.linesOf_append hbytes]
    exact Shuffle.append_left _ h
  | err =>
    have hout : (if Stream.err = .out then bytes else []) ++ t.only .out = t.only .out := rfl
    have herr : (if Stream.err = .err then bytes else []) ++ t.only .err = bytes ++ t.only .err :=
      rfl
    rw [hout, herr, Outcome.linesOf_append hbytes]
    exact Shuffle.append_right _ h

/-- Captured together, the lines of a run that writes whole lines are a shuffle of the lines of its
streams. -/
theorem WritesLines.shuffle_linesOf (h : t.WritesLines) : t.Shuffles := by
  obtain ⟨writes, ending, holds⟩ := t
  induction writes with
  | nil =>
    have hnothing : (⟨[], ending, holds⟩ : Trace).merged = [] := rfl
    have hnone (s : Stream) : (⟨[], ending, holds⟩ : Trace).only s = [] := rfl
    rw [Shuffles, hnothing, hnone, hnone, Outcome.linesOf_nil]
    exact .nil
  | cons write rest ih =>
    obtain ⟨s, bytes⟩ := write
    obtain ⟨hbytes, hrest⟩ := writesLines_after (t := ⟨rest, ending, holds⟩).mp h
    exact (ih hrest).after hbytes s

end Trace

namespace Script

variable {scene : Scene} {input : Bytes} {script : Script}

theorem endsLine_lineOf (text : Text) : EndsLine (lineOf text) := by
  have hline : lineOf text = Utf8.encode text ++ [Utf8.feed] := by
    rw [lineOf, Utf8.encode, List.flatMap_append]
    rfl
  rw [hline]
  exact endsLine_concat _

theorem endsLine_append {bytes more : Bytes} (h : EndsLine bytes) (hmore : EndsLine more) :
    EndsLine (bytes ++ more) := by
  rcases hmore.cases with rfl | ⟨line, rfl⟩
  · rwa [List.append_nil]
  · rw [← List.append_assoc]
    exact endsLine_concat _

theorem endsLine_argumentLines (arguments : List Text) : EndsLine (argumentLines arguments) := by
  apply endsLine_append (endsLine_lineOf _)
  induction arguments with
  | nil => exact endsLine_nil
  | cons a rest ih => exact endsLine_append (endsLine_lineOf _) ih

theorem endsLine_variableLine (name : Text) (value : Option Bytes) :
    EndsLine (variableLine name value) :=
  endsLine_concat _

/-- A script that is told to write whole lines does so, if its input is made of whole lines wherever
it copies that. What it shows of the scene is made of whole lines anyway. -/
theorem writesLines_runFrom
    (hwrites : ∀ stream bytes, .write stream bytes ∈ script → EndsLine bytes)
    (hinput : .copyInput ∈ script → EndsLine input) :
    (runFrom scene input script).WritesLines := by
  induction script generalizing input with
  | nil => simp [runFrom, Trace.WritesLines]
  | cons a rest ih =>
    have hrest : ∀ stream bytes, .write stream bytes ∈ rest → EndsLine bytes :=
      fun stream bytes hmem => hwrites stream bytes (List.mem_cons_of_mem a hmem)
    have hleft : .copyInput ∈ rest → EndsLine input :=
      fun hmem => hinput (List.mem_cons_of_mem a hmem)
    cases a with
    | write stream bytes =>
      exact Trace.writesLines_after.mpr ⟨hwrites stream bytes List.mem_cons_self, ih hrest hleft⟩
    | copyInput =>
      -- Nothing is left of the input behind this.
      have hbehind : (runFrom scene [] rest).WritesLines := ih hrest fun _ => endsLine_nil
      exact Trace.writesLines_after.mpr ⟨hinput List.mem_cons_self, hbehind⟩
    | showArguments =>
      exact Trace.writesLines_after.mpr ⟨endsLine_argumentLines _, ih hrest hleft⟩
    | showDirectory => exact Trace.writesLines_after.mpr ⟨endsLine_lineOf _, ih hrest hleft⟩
    | showVariable name =>
      exact Trace.writesLines_after.mpr ⟨endsLine_variableLine _ _, ih hrest hleft⟩
    | exit code => simp [runFrom, Trace.WritesLines]
    | signal number => simp [runFrom, Trace.WritesLines]
    | hang => simp [runFrom, Trace.WritesLines]
    | background grip => exact ih hrest hleft

end Script

/-! ### The two captures -/

namespace Execution

variable {o : RunOptions} {run : Trace}

/-- What becomes of a run does not depend on how it is captured, but for what is kept of it. -/
theorem outcome_merged_separate (o : RunOptions) (run : Trace) :
    (∃ fault, outcome { o with capture := .merged } run = some (.error fault) ∧
        outcome { o with capture := .separate } run = some (.error fault)) ∨
      (o.limit = none ∧ run.ending = none ∧ outcome { o with capture := .merged } run = none ∧
        outcome { o with capture := .separate } run = none) ∨
      ∃ ending,
        outcome { o with capture := .merged } run = some (.ok (captured .merged run ending)) ∧
        outcome { o with capture := .separate } run =
          some (.ok (captured .separate run ending)) := by
  rcases outcome_cases { o with capture := .merged } run with ⟨hlimit, hended, hnone⟩ |
    ⟨limit, hlimit, hheld, herror⟩ | ⟨ending, hended, hclosed, hleft⟩
  · have hseparate : outcome { o with capture := .separate } run = none :=
      outcome_eq_none_iff.mpr ⟨hlimit, hended⟩
    exact .inr (.inl ⟨hlimit, hended, hnone, hseparate⟩)
  · have hseparate := outcome_of_held (o := { o with capture := .separate }) hlimit hheld
    exact .inl ⟨_, herror, hseparate⟩
  · have hseparate := outcome_of_closed (o := { o with capture := .separate }) hended hclosed
    exact .inr (.inr ⟨ending, hleft, hseparate⟩)

/-- Whatever passes with the output stream alone passes with both streams together, if the run
writes whole lines. -/
theorem judge_merged_of_separate (h : run.WritesLines) (ending : Termination)
    {directives : List Directive}
    (hpass : Verdict.judge directives (captured .separate run ending) = .pass) :
    Verdict.judge directives (captured .merged run ending) = .pass := by
  rw [Verdict.judge_eq_pass_iff] at hpass ⊢
  obtain ⟨hplaced, hcode⟩ := hpass
  -- The lines of the output stream are among all lines, in their order.
  have hlines : (captured .separate run ending).lines.Sublist (captured .merged run ending).lines :=
    h.shuffle_linesOf.sublist_left
  exact ⟨hplaced.of_sublist hlines, hcode⟩

end Execution

namespace World

variable {w : World} {exe testCase : Path} {stdin : Option Path} {o : RunOptions}

/-- **Capturing together loses nothing.** If the subject only writes whole lines, the two captures
of its run fail alike, or they have outcomes that end alike, unless it never ends and is waited for
without a limit, which gives no answer to either. Of outcomes, no line is kept apart from the output
that was captured together, and its lines are a shuffle of those of the output stream and of those
of the error stream. So a test case that passes with the streams apart passes with them together. -/
theorem merged_shuffles_separate
    (hlines : ∀ run, w.launch exe testCase stdin o = .ok run → run.WritesLines) :
    (∃ fault, w.execute exe testCase stdin { o with capture := .merged } = some (.error fault) ∧
        w.execute exe testCase stdin { o with capture := .separate } = some (.error fault)) ∨
      (o.limit = none ∧ (∃ run, w.launch exe testCase stdin o = .ok run ∧ run.ending = none) ∧
        w.execute exe testCase stdin { o with capture := .merged } = none ∧
        w.execute exe testCase stdin { o with capture := .separate } = none) ∨
      ∃ together apart,
        w.execute exe testCase stdin { o with capture := .merged } = some (.ok together) ∧
        w.execute exe testCase stdin { o with capture := .separate } = some (.ok apart) ∧
        together.termination = apart.termination ∧ together.stderr = [] ∧
        Shuffle apart.lines apart.stderr together.lines ∧
        ∀ directives, Verdict.judge directives apart = .pass →
          Verdict.judge directives together = .pass := by
  -- The subject is launched in the same way for both captures.
  have hlaunch (c : Capture) :
      w.launch exe testCase stdin { o with capture := c } = w.launch exe testCase stdin o := rfl
  cases hrun : w.launch exe testCase stdin o with
  | error fault =>
    have hfails (c : Capture) :
        w.execute exe testCase stdin { o with capture := c } = some (.error fault) := by
      rw [execute, hlaunch, hrun]
      rfl
    exact .inl ⟨fault, hfails .merged, hfails .separate⟩
  | ok run =>
    have hexecute (c : Capture) : w.execute exe testCase stdin { o with capture := c } =
        Execution.outcome { o with capture := c } run :=
      execute_of_launch ((hlaunch c).trans hrun)
    have hwhole := hlines run hrun
    rw [hexecute, hexecute]
    rcases Execution.outcome_merged_separate o run with hfails |
      ⟨hlimit, hended, hmerged, hseparate⟩ | ⟨ending, hmerged, hseparate⟩
    · exact .inl hfails
    · exact .inr (.inl ⟨hlimit, ⟨run, rfl, hended⟩, hmerged, hseparate⟩)
    · exact .inr (.inr ⟨_, _, hmerged, hseparate, rfl, rfl, hwhole.shuffle_linesOf,
        fun directives => Execution.judge_merged_of_separate hwhole ending⟩)

/-- A script that writes to both streams in turns, bytes among them that are no text. -/
def quarrel : Script :=
  [.write .err [0xff, 0x0a], .copyInput, .write .err [0xe2, 0x82, 0x0d, 0x0a], .write .out [],
    .showArguments, .exit 3]

/-- A test case of two lines. -/
def quarrelCase : Bytes :=
  Utf8.encode "# CHECK: [c]\n# EXIT 3\n".toList

/-- A directory with that test case as `c`, and a tool `t` that acts by that script. -/
def quarrelling : World where
  tree := ⟨[([['c']], .file quarrelCase .plain), ([['t']], .file [] (.scripted quarrel))]⟩
  directory := []
  environ := []
  programs := .unknown

/-- The tool is run for a second at most. -/
def quarrelOptions : RunOptions := ⟨some (.ofSecs 1), .merged, true, .empty⟩

/-- The tool gets the test case as its input as well. Everything that it writes are whole lines, and
so it passes with its streams captured together because it does with its streams apart. -/
theorem merged_shuffles_separate_quarrelling :
    (∀ run, quarrelling.launch ['t'] ['c'] (some ['c']) quarrelOptions = .ok run →
        run.WritesLines) ∧
      ∃ together apart,
        quarrelling.execute ['t'] ['c'] (some ['c']) quarrelOptions = some (.ok together) ∧
        quarrelling.execute ['t'] ['c'] (some ['c']) { quarrelOptions with capture := .separate } =
          some (.ok apart) ∧
        apart.stderr = [[Utf8.replacement], [Utf8.replacement]] ∧
        together.termination = apart.termination ∧ together.stderr = [] ∧
        Shuffle apart.lines apart.stderr together.lines ∧
        Verdict.judge [.check "[c]".toList 1, .exit 3 2] together = .pass := by
  have hwrites : ∀ run, quarrelling.launch ['t'] ['c'] (some ['c']) quarrelOptions = .ok run →
      run.WritesLines := by
    intro run hrun
    have hscript : quarrelling.launch ['t'] ['c'] (some ['c']) quarrelOptions =
        .ok (Script.run ⟨[['c']], ['/'], quarrelCase, fun _ => none⟩ quarrel) := rfl
    obtain rfl := Except.ok.inj (hscript.symm.trans hrun)
    apply Script.writesLines_runFrom
    · intro stream bytes hmem
      have hpieces : bytes = [0xff, 0x0a] ∨ bytes = [0xe2, 0x82, 0x0d, 0x0a] ∨ bytes = [] := by
        simp only [quarrel, List.mem_cons, Action.write.injEq, reduceCtorEq,
          List.not_mem_nil] at hmem
        tauto
      obtain rfl | rfl | rfl := hpieces <;> decide
    · intro _
      decide
  obtain ⟨fault, htogether, -⟩ | ⟨hlimit, -⟩ |
    ⟨together, apart, htogether, hapart, hending, hnone, hshuffle, hpass⟩ :=
      merged_shuffles_separate hwrites
  · have hok : (quarrelling.execute ['t'] ['c'] (some ['c']) quarrelOptions).any Except.isOk := by
      decide +kernel
    have hfails : quarrelling.execute ['t'] ['c'] (some ['c']) quarrelOptions =
        some (.error fault) := htogether
    rw [hfails] at hok
    exact Bool.noConfusion hok
  · cases hlimit
  · have hkept : ((quarrelling.execute ['t'] ['c'] (some ['c'])
          { quarrelOptions with capture := .separate }).bind Except.toOption).map
          (fun o => (o.stderr, Verdict.judge [.check "[c]".toList 1, .exit 3 2] o)) =
        some ([[Utf8.replacement], [Utf8.replacement]], .pass) := by
      decide +kernel
    rw [hapart] at hkept
    obtain ⟨hstderr, hjudge⟩ := Prod.mk.inj (Option.some.inj hkept)
    exact ⟨hwrites, together, apart, htogether, hapart, hstderr, hending, hnone, hshuffle,
      hpass _ hjudge⟩

end World

end Golden
