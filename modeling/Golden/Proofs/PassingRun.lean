import Golden.Proofs.Pipeline
import Golden.Proofs.Reading

/-!
# Passing runs

What has to be so that a command line is answered with exit code zero and no output, said for all
stages at once: the files that are there, the configuration that they make, the run of the subject,
and a placement of the patterns on what the run has written. A command line with such a run passes.
Every other one is answered with exit code one and a text, but for one whose subject never ends and
is waited for without a limit: that one is never answered.

## Main definitions

* `LaunchedRun` — a run of the subject for a complete command line
* `TestRun` — such a run for a test case that can be read
* `PassingRun` — one that satisfies the test case
* `EndlessRun` — one that is waited for without end

## Main results

* `TestRun.exists_verdict_eq` — the verdict on a run is about what is captured of it
* `World.verdict_eq_pass_iff` — the verdict is a pass exactly if there is a passing run
* `World.verdict_eq_none_iff` — there is none exactly if there is an endless run
* `World.report_exits_zero_iff` — the exit code and the output tell exactly that
-/

namespace Golden

open Stage

/-- Whether the patterns are matched against the output stream alone. -/
def Invocation.separates (i : Invocation) (s : Settings) : Bool :=
  s.mergeStderr = some false || i.separateStderr

/-- The limit of a run in seconds, zero for none: that of the command line, or else that of the
configuration, or else a minute. -/
def Invocation.seconds (i : Invocation) (s : Settings) : Nat :=
  i.timeout.getD (s.timeout.getD 60)

/-- What the command line overrides. -/
def Invocation.overrides (i : Invocation) : Overrides :=
  ⟨i.timeout, i.separateStderr⟩

namespace Trace

/-- The bytes that the patterns are matched against. -/
def matched (separate : Bool) (t : Trace) : Bytes :=
  if separate then t.only .out else t.merged

/-- A limit passes before a run has ended and everything has closed its output. -/
def TimesOut (seconds : Nat) (t : Trace) : Prop :=
  seconds ≠ 0 ∧ (t.ending = none ∨ t.held = true)

end Trace

/-- A run of the subject for a complete command line, with everything that it rests on. -/
structure LaunchedRun (w : World) (i : Invocation) where
  place : Location
  bytes : Bytes
  /-- The test case is a regular file. -/
  testCase : w.HasFile i.testCase place bytes
  settings : Settings
  env : Variables
  /-- The configuration file for the test case, if there is one, can be loaded. -/
  configured : w.Configured i.testCase settings
  /-- All variables of the configuration can be expanded. -/
  expanded : Settings.expandAll w.environ settings.env = .ok env
  input : Bytes
  /-- The file for the input, if one is given, is a regular file. -/
  stdin : w.HasInput i.stdin input
  program : Path
  /-- The executable is meant relative to the caller's directory. -/
  named : Path.absolute w.directory.path i.executable = some program
  run : Trace
  /-- The executable can be launched. -/
  launched :
    Launch.run w.programs w.tree (Execution.orderAt place input
      (Execution.environment w.environ (settings.effective env i.overrides).runOptions)) program =
      .ok run

/-- A run of the subject for a test case that can be read. -/
structure TestRun (w : World) (i : Invocation) extends LaunchedRun w i where
  content : Text
  /-- The test case holds text. -/
  isText : Utf8.decode? bytes = some content
  /-- Each of its exit lines is well formed. -/
  wellFormed : Directive.WellFormed content.lines

/-- A run that satisfies the test case of a complete command line. -/
structure PassingRun (w : World) (i : Invocation) extends TestRun w i where
  /-- The run does not time out. -/
  inTime : ¬ run.TimesOut (i.seconds settings)
  /-- The patterns can be placed on the lines of the matched stream. -/
  placed :
    Placeable (Outcome.linesOf (run.matched (i.separates settings)))
      (Directive.patternsIn content.lines)
  /-- The subject exited, with the code of the last exit line. -/
  exited : run.ending = some (.exited (Directive.codeIn content.lines))

/-- A run that is waited for without end. -/
structure EndlessRun (w : World) (i : Invocation) extends TestRun w i where
  /-- No limit is set. -/
  unlimited : i.seconds settings = 0
  /-- The subject never ends. -/
  endless : run.ending = none

namespace Execution

/-- What is captured of a run are the lines of the matched stream, and its ending. -/
theorem captured_effective (i : Invocation) (s : Settings) (env : Variables) (t : Trace)
    (ending : Termination) :
    let outcome := captured (s.effective env i.overrides).runOptions.capture t ending
    outcome.lines = Outcome.linesOf (t.matched (i.separates s)) ∧ outcome.termination = ending := by
  -- The command line and the configuration may both ask for a capture apart.
  by_cases hapart : i.separateStderr = true ∨ s.mergeStderr = some false
  · have hseparates : i.separates s = true := by simpa [Invocation.separates, or_comm] using hapart
    simp [Effective.runOptions, Settings.effective, Invocation.overrides, hapart, captured,
      Trace.matched, hseparates]
  · have hseparates : i.separates s = false := by
      simpa [Invocation.separates, and_comm] using hapart
    simp [Effective.runOptions, Settings.effective, Invocation.overrides, hapart, captured,
      Trace.matched, hseparates]

/-- No limit is set exactly if it is zero seconds. -/
theorem limit_eq_none_iff (i : Invocation) (s : Settings) (env : Variables) :
    (s.effective env i.overrides).runOptions.limit = none ↔ i.seconds s = 0 := by
  have hseconds : (s.effective env i.overrides).timeoutSecs = i.seconds s := rfl
  rw [Effective.runOptions, hseconds]
  by_cases hzero : i.seconds s = 0 <;> simp [hzero]

/-- A run that has ended is in time if no limit is set or its output is closed. -/
theorem not_timesOut_iff (i : Invocation) (s : Settings) (env : Variables) {t : Trace}
    {ending : Termination} (h : t.ending = some ending) :
    ¬ t.TimesOut (i.seconds s) ↔
      (s.effective env i.overrides).runOptions.limit = none ∨ t.held = false := by
  rw [limit_eq_none_iff, Trace.TimesOut, h]
  by_cases hzero : i.seconds s = 0 <;> simp [hzero]

end Execution

variable {w : World} {i : Invocation}

/-- The options under which the subject is run. -/
def LaunchedRun.options (r : LaunchedRun w i) : RunOptions :=
  (r.settings.effective r.env i.overrides).runOptions

theorem LaunchedRun.launch_eq (r : LaunchedRun w i) :
    w.launch i.executable i.testCase i.stdin r.options = .ok r.run :=
  World.launch_eq_ok_iff.mpr
    ⟨r.place, r.bytes, r.input, r.program, r.testCase, r.stdin, r.named, r.launched⟩

/-- The verdict of a run is about what is captured of it. -/
theorem TestRun.exists_verdict_eq (r : TestRun w i) :
    ∃ directives, Directive.parse r.content = .ok directives ∧
      w.verdict i =
        (Execution.outcome r.options r.run).map (·.map (Verdict.judge directives)) := by
  obtain ⟨directives, hparse⟩ := Directive.exists_parse_iff.mpr r.wellFormed
  have hcase : TestCase.load w i.testCase = .ok ⟨i.testCase, r.content.lines, directives⟩ :=
    TestCase.load_eq_ok_iff.mpr
      ⟨r.place, r.bytes, r.content, directives, r.testCase, r.isText, hparse, rfl⟩
  have hsettings : w.effective i.testCase i.overrides =
      .ok (r.settings.effective r.env i.overrides) :=
    World.effective_eq_ok_iff.mpr ⟨r.settings, r.env, r.configured, r.expanded, rfl⟩
  have hexecute := World.execute_of_launch r.launch_eq
  rw [Invocation.overrides] at hsettings
  rw [LaunchedRun.options, Invocation.overrides] at hexecute
  refine ⟨directives, hparse, ?_⟩
  rw [World.verdict, hcase, Execution.proceed_ok, hsettings, Execution.proceed_ok, hexecute]
  rfl

namespace World

/-- Unless some stage fails, there is a run for a test case that can be read. -/
theorem verdict_fails_or_exists_testRun (w : World) (i : Invocation) :
    (∃ fault, w.verdict i = some (.error fault)) ∨ Nonempty (TestRun w i) := by
  rw [verdict]
  cases hcase : TestCase.load w i.testCase with
  | error fault => exact .inl ⟨fault, rfl⟩
  | ok case =>
    obtain ⟨place, bytes, content, directives, hfile, htext, hparse, rfl⟩ :=
      TestCase.load_eq_ok_iff.mp hcase
    rw [Execution.proceed_ok, ← Invocation.overrides.eq_1]
    cases hsettings : w.effective i.testCase i.overrides with
    | error fault => exact .inl ⟨fault, rfl⟩
    | ok effective =>
      obtain ⟨settings, env, hconfigured, hexpanded, rfl⟩ := effective_eq_ok_iff.mp hsettings
      rw [Execution.proceed_ok, execute]
      cases hlaunch : w.launch i.executable i.testCase i.stdin
          (settings.effective env i.overrides).runOptions with
      | error fault => exact .inl ⟨fault, rfl⟩
      | ok run =>
        -- The test case that is read and the one that the subject is given are one file.
        obtain ⟨place', _, input, program, hfile', hinput, hnamed, hlaunched⟩ :=
          launch_eq_ok_iff.mp hlaunch
        obtain ⟨rfl, -⟩ := hfile.unique hfile'
        exact .inr ⟨{
          place := place
          bytes := bytes
          testCase := hfile
          settings := settings
          env := env
          configured := hconfigured
          expanded := hexpanded
          input := input
          stdin := hinput
          program := program
          named := hnamed
          run := run
          launched := hlaunched
          content := content
          isText := htext
          wellFormed := Directive.exists_parse_iff.mp ⟨directives, hparse⟩ }⟩

/-- A command line passes exactly if it has a passing run. -/
theorem verdict_eq_pass_iff : w.verdict i = some (.ok .pass) ↔ Nonempty (PassingRun w i) := by
  constructor
  · intro h
    obtain ⟨fault, hfault⟩ | ⟨⟨r⟩⟩ := w.verdict_fails_or_exists_testRun i
    · simp [hfault] at h
    obtain ⟨directives, hparse, hverdict⟩ := r.exists_verdict_eq
    rw [hverdict] at h
    obtain ⟨left, hleft, hpass⟩ := Execution.map_map_eq_some_ok_iff.mp h
    obtain ⟨ending, hended, htime, rfl⟩ := Execution.outcome_eq_ok_iff.mp hleft
    obtain ⟨hlines, htermination⟩ := Execution.captured_effective i r.settings r.env r.run ending
    obtain ⟨hplaced, hcode⟩ := Verdict.judge_eq_pass_iff.mp hpass
    rw [LaunchedRun.options, hlines, Directive.patterns_of_parse hparse] at hplaced
    rw [LaunchedRun.options, htermination, Directive.lastCode_of_parse hparse] at hcode
    exact ⟨{ r with
      inTime := (Execution.not_timesOut_iff i r.settings r.env hended).mpr htime
      placed := hplaced
      exited := by rw [hended, hcode] }⟩
  · rintro ⟨p⟩
    obtain ⟨directives, hparse, hverdict⟩ := p.exists_verdict_eq
    have htime := (Execution.not_timesOut_iff i p.settings p.env p.exited).mp p.inTime
    obtain ⟨hlines, htermination⟩ := Execution.captured_effective i p.settings p.env p.run
      (.exited (Directive.codeIn p.content.lines))
    rw [hverdict, LaunchedRun.options, Execution.outcome_of_closed p.exited htime]
    refine Execution.map_map_eq_some_ok_iff.mpr ⟨_, rfl, ?_⟩
    rw [Verdict.judge_eq_pass_iff, hlines, htermination, Directive.patterns_of_parse hparse,
      Directive.lastCode_of_parse hparse]
    exact ⟨p.placed, rfl⟩

/-- A command line is never answered exactly if it has an endless run. -/
theorem verdict_eq_none_iff : w.verdict i = none ↔ Nonempty (EndlessRun w i) := by
  constructor
  · intro h
    obtain ⟨fault, hfault⟩ | ⟨⟨r⟩⟩ := w.verdict_fails_or_exists_testRun i
    · simp [hfault] at h
    obtain ⟨_, -, hverdict⟩ := r.exists_verdict_eq
    rw [hverdict, Option.map_eq_none_iff, Execution.outcome_eq_none_iff, LaunchedRun.options,
      Execution.limit_eq_none_iff] at h
    exact ⟨{ r with unlimited := h.1, endless := h.2 }⟩
  · rintro ⟨e⟩
    obtain ⟨_, -, hverdict⟩ := e.exists_verdict_eq
    rw [hverdict, Option.map_eq_none_iff, Execution.outcome_eq_none_iff, LaunchedRun.options,
      Execution.limit_eq_none_iff]
    exact ⟨e.unlimited, e.endless⟩

end World

/-! ### Exit code and output -/

namespace Report

/-- Only a pass and the two pages that were asked for are told by exit code zero. -/
theorem exitCode_eq_zero_iff {r : Report} :
    r.exitCode = 0 ↔ r = .verdict .pass ∨ r = .help ∨ r = .version := by
  cases r with
  | verdict v => cases v <;> simp [exitCode]
  | _ => simp [exitCode]

/-- Whatever is not told by exit code zero is told by exit code one, with a text. -/
theorem fails_of_exitCode_ne_zero {r : Report} (h : r.exitCode ≠ 0) :
    r.exitCode = 1 ∧ r.output ≠ [] := by
  cases r with
  | verdict v =>
    cases v with
    | pass => exact absurd rfl h
    | fail failure => exact ⟨rfl, List.append_ne_nil_of_right_ne_nil _ (by simp)⟩
  | fault f => exact ⟨rfl, List.append_ne_nil_of_right_ne_nil _ (by simp)⟩
  | help => exact absurd rfl h
  | version => exact absurd rfl h
  | usage => exact ⟨rfl, by decide⟩

end Report

namespace World

variable {arguments : List Text}

/-- The two pages are told exactly if they are asked for. -/
theorem report_eq_page_iff :
    (w.report arguments = some .help ↔ CommandLine.read arguments = .help) ∧
      (w.report arguments = some .version ↔ CommandLine.read arguments = .version) := by
  rw [report]
  cases CommandLine.read arguments with
  | run i =>
    have hne (r : Report) (hr : ∀ x, Report.ofVerdict x ≠ r) :
        (w.verdict i).map Report.ofVerdict ≠ some r := by
      intro h
      obtain ⟨x, -, hx⟩ := Option.map_eq_some_iff.mp h
      exact hr x hx
    simp [hne .help fun x => by cases x <;> simp [Report.ofVerdict],
      hne .version fun x => by cases x <;> simp [Report.ofVerdict]]
  | _ => simp

/-- A report is a pass exactly if the arguments are a complete command line that has a passing
run. -/
theorem report_eq_pass_iff :
    w.report arguments = some (.verdict .pass) ↔
      ∃ i, CommandLine.read arguments = .run i ∧ Nonempty (PassingRun w i) := by
  rw [report]
  cases CommandLine.read arguments with
  | run i =>
    simp only [CommandLine.Request.run.injEq, exists_eq_left', ← verdict_eq_pass_iff]
    cases w.verdict i with
    | none => simp
    | some x => cases x <;> simp [Report.ofVerdict]
  | _ => simp

/-- There is no report exactly if the arguments are a complete command line that has an endless
run. -/
theorem report_eq_none_iff :
    w.report arguments = none ↔
      ∃ i, CommandLine.read arguments = .run i ∧ Nonempty (EndlessRun w i) := by
  rw [report]
  cases CommandLine.read arguments with
  | run i =>
    simp only [CommandLine.Request.run.injEq, exists_eq_left', ← verdict_eq_none_iff,
      Option.map_eq_none_iff]
  | _ => simp

/-- **The exit code is the verdict.** Unless help or the version is asked for, the exit code is zero
and nothing is printed exactly if the arguments are a complete command line that has a passing run.
There is no answer at all exactly if they are one whose subject never ends and is waited for without
a limit. In every other case the exit code is one and a text is printed. -/
theorem report_exits_zero_iff (w : World) (arguments : List Text)
    (hhelp : CommandLine.read arguments ≠ .help)
    (hversion : CommandLine.read arguments ≠ .version) :
    ((∃ r, w.report arguments = some r ∧ r.exitCode = 0 ∧ r.output = []) ↔
        ∃ i, CommandLine.read arguments = .run i ∧ Nonempty (PassingRun w i)) ∧
      (w.report arguments = none ↔
        ∃ i, CommandLine.read arguments = .run i ∧ Nonempty (EndlessRun w i)) ∧
      (¬ (∃ i, CommandLine.read arguments = .run i ∧ Nonempty (PassingRun w i)) →
        ¬ (∃ i, CommandLine.read arguments = .run i ∧ Nonempty (EndlessRun w i)) →
          ∃ r, w.report arguments = some r ∧ r.exitCode = 1 ∧ r.output ≠ []) := by
  have hzero (r : Report) (h : w.report arguments = some r) :
      r.exitCode = 0 ↔ r = .verdict .pass := by
    rw [Report.exitCode_eq_zero_iff]
    constructor
    · rintro (rfl | rfl | rfl)
      · rfl
      · exact absurd (report_eq_page_iff.1.mp h) hhelp
      · exact absurd (report_eq_page_iff.2.mp h) hversion
    · exact .inl
  rw [← report_eq_pass_iff, ← report_eq_none_iff]
  refine ⟨⟨?_, ?_⟩, Iff.rfl, ?_⟩
  · rintro ⟨r, hr, hcode, -⟩
    rw [hr, (hzero r hr).mp hcode]
  · intro h
    -- A pass is told by nothing but the exit code.
    exact ⟨_, h, rfl, rfl⟩
  · intro hpass hanswer
    obtain ⟨r, hr⟩ := Option.ne_none_iff_exists'.mp hanswer
    refine ⟨r, hr, Report.fails_of_exitCode_ne_zero fun hcode => hpass ?_⟩
    rw [hr, (hzero r hr).mp hcode]

/-- A directory with a test case `c` and a tool `t` that complains on its error stream, says what
the test case wants to see, and exits with the code that it asks for. -/
def complaining : World where
  tree := ⟨[([['c']], .file (Utf8.encode "# CHECK: hi\n# EXIT 3\n".toList) .plain),
    ([['t']], .file [] (.scripted [.write .err (Utf8.encode "hi\n".toList),
      .write .out (Utf8.encode "oh, hi\n".toList), .exit 3]))]⟩
  directory := []
  environ := []
  programs := .unknown

/-- With the two streams kept apart, the tool passes. -/
theorem report_exits_zero_complaining :
    CommandLine.read ["--separate-stderr".toList, ['t'], ['c']] ≠ .help ∧
      CommandLine.read ["--separate-stderr".toList, ['t'], ['c']] ≠ .version ∧
      ∃ i, CommandLine.read ["--separate-stderr".toList, ['t'], ['c']] = .run i ∧
        Nonempty (PassingRun complaining i) :=
  ⟨by decide, by decide, (report_exits_zero_iff complaining _ (by decide) (by decide)).1.mp
    ⟨.verdict .pass, by decide +kernel, rfl, rfl⟩⟩

end World

end Golden
