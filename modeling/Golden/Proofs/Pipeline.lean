import Golden.Proofs.Stage
import Golden.Report

/-!
# The stages of a run

A command line is carried out in stages: the test case is read, its configuration is found and
expanded, the subject is launched and its output captured. For each stage this file says what it
needs in order to answer, and what it answers then, in terms of the files and of the run alone.

## Main definitions

* `World.HasFile`, `World.HasInput` — a path names a regular file; what a run gets as its input
* `World.Configured` — what the configuration file for a test case says, if there is one
* `Settings.effective` — what a configuration and a command line make of the defaults
* `Execution.orderAt` — what the subject is started with
* `Execution.captured` — what is captured of a run that has ended

## Main results

* `TestCase.load_eq_ok_iff` — when a test case is read
* `World.effective_eq_ok_iff` — when there are settings for it
* `Execution.outcome_cases` — what can become of a run
* `World.launch_eq_ok_iff` — when there is a run
* `World.execute_of_launch` — what comes of it
-/

namespace Golden

open Stage

variable {w : World} {path testCase exe : Path} {place : Location} {content : Bytes}

namespace World

/-- A path names a regular file, which lies at a location and has a content. -/
def HasFile (w : World) (path : Path) (place : Location) (content : Bytes) : Prop :=
  w.tree.locate w.directory path = .ok place ∧
    ∃ kind, w.tree.node? place = some (.file content kind)

/-- What a run gets as its input: the content of a regular file, or nothing. -/
def HasInput (w : World) : Option Path → Bytes → Prop
  | none, input => input = []
  | some path, input => ∃ place, w.HasFile path place input

/-- What the configuration file for a test case says; nothing if there is no such file. -/
def Configured (w : World) (testCase : Path) (settings : Settings) : Prop :=
  match Settings.locate w testCase with
  | none => settings = .empty
  | some path => Settings.load w path = .ok settings

theorem isFile_iff : w.isFile path = true ↔ ∃ place content, w.HasFile path place content := by
  rw [isFile, Tree.isFile]
  cases hlocate : w.tree.locate w.directory path with
  | error cause => simp [HasFile, hlocate]
  | ok place =>
    cases hnode : w.tree.node? place with
    | none => simp [HasFile, hlocate, hnode]
    | some node => cases node <;> simp [HasFile, hlocate, hnode, Node.isFile]

theorem require_eq_ok_iff {u : Unit} :
    w.require path = .ok u ↔ ∃ place content, w.HasFile path place content := by
  rw [← isFile_iff, require]
  cases w.isFile path <;> simp

theorem readBytes_eq_ok_iff :
    w.readBytes path = .ok content ↔ ∃ place, w.HasFile path place content := by
  rw [readBytes, mapError_eq_ok_iff, Tree.readBytes, bind_eq_ok_iff]
  constructor
  · rintro ⟨place, hlocate, hread⟩
    cases hnode : w.tree.node? place with
    | none => simp [hnode] at hread
    | some node =>
      cases node with
      | directory => simp [hnode] at hread
      | file bytes kind =>
        simp only [hnode, Except.ok.injEq] at hread
        exact ⟨place, hlocate, kind, by rw [hnode, hread]⟩
  · rintro ⟨place, hlocate, kind, hnode⟩
    exact ⟨place, hlocate, by simp [hnode]⟩

theorem readText_eq_ok_iff {text : Text} :
    w.readText path = .ok text ↔
      ∃ place content, w.HasFile path place content ∧ Utf8.decode? content = some text := by
  have hread : w.readText path = .ok text ↔
      ∃ content, w.readBytes path = .ok content ∧ Utf8.decode? content = some text := by
    rw [readText, mapError_eq_ok_iff, Tree.readText, bind_eq_ok_iff]
    refine exists_congr fun content => ?_
    rw [readBytes, mapError_eq_ok_iff]
    cases Utf8.decode? content <;> simp
  rw [hread]
  simp only [readBytes_eq_ok_iff]
  constructor
  · rintro ⟨content, ⟨place, hfile⟩, htext⟩
    exact ⟨place, content, hfile, htext⟩
  · rintro ⟨place, content, hfile, htext⟩
    exact ⟨content, ⟨place, hfile⟩, htext⟩

theorem locate_eq_ok_of_hasFile (h : w.HasFile path place content) :
    w.locate path = .ok place := by
  rw [locate, mapError_eq_ok_iff]
  exact h.1

theorem HasFile.unique {place' : Location} {content' : Bytes} (h : w.HasFile path place content)
    (h' : w.HasFile path place' content') : place = place' ∧ content = content' := by
  obtain ⟨hplace, kind, hnode⟩ := h
  obtain ⟨hplace', kind', hnode'⟩ := h'
  obtain rfl := Except.ok.inj (hplace.symm.trans hplace')
  have hsame := Option.some.inj (hnode.symm.trans hnode')
  exact ⟨rfl, (Node.file.inj hsame).1⟩

theorem input_eq_ok_iff {stdin : Option Path} {input : Bytes} :
    Execution.input w stdin = .ok input ↔ w.HasInput stdin input := by
  cases stdin with
  | none => simp [Execution.input, HasInput, eq_comm]
  | some path => exact readBytes_eq_ok_iff

end World

/-! ### The test case -/

/-- A test case is read if its path names a regular file of text whose exit lines are well formed. -/
theorem TestCase.load_eq_ok_iff {case : TestCase} :
    TestCase.load w path = .ok case ↔
      ∃ place bytes text directives, w.HasFile path place bytes ∧
        Utf8.decode? bytes = some text ∧ Directive.parse text = .ok directives ∧
        case = ⟨path, text.lines, directives⟩ := by
  simp only [load, bind_eq_ok_iff, World.require_eq_ok_iff, World.readText_eq_ok_iff, ofContent,
    map_eq_ok_iff, mapError_eq_ok_iff]
  -- That the path names a file is asked twice: the second time by reading it.
  constructor
  · rintro ⟨-, -, text, ⟨place, bytes, hfile, htext⟩, directives, hparse, rfl⟩
    exact ⟨place, bytes, text, directives, hfile, htext, hparse, rfl⟩
  · rintro ⟨place, bytes, text, directives, hfile, htext, hparse, rfl⟩
    exact ⟨(), ⟨place, bytes, hfile⟩, text, ⟨place, bytes, hfile, htext⟩, directives, hparse, rfl⟩

/-! ### The settings -/

/-- What a configuration, with its variables expanded, and a command line make of the defaults. -/
def Settings.effective (s : Settings) (env : Variables) (o : Overrides) : Effective where
  timeoutSecs := o.timeout.getD (s.timeout.getD Effective.defaultTimeoutSecs)
  capture := if o.separateStderr ∨ s.mergeStderr = some false then .separate else .merged
  inheritEnv := s.inheritEnv.getD true
  env := env

theorem Effective.resolve_none (environ : Environment) (o : Overrides) :
    Effective.resolve environ none o = .ok (Settings.empty.effective .empty o) := by
  simp [Effective.resolve, Effective.override, Effective.default, Settings.effective,
    Settings.empty]

theorem Effective.resolve_some_eq_ok_iff {environ : Environment} {s : Settings} {o : Overrides}
    {e : Effective} :
    Effective.resolve environ (some (path, s)) o = .ok e ↔
      ∃ env, Settings.expandAll environ s.env = .ok env ∧ e = s.effective env o := by
  rw [Effective.resolve, map_eq_ok_iff, Effective.ofSettings]
  cases Settings.expandAll environ s.env with
  | error problem => simp
  | ok env =>
    have heffective : s.effective env o = Effective.override
        { timeoutSecs := s.timeout.getD defaultTimeoutSecs
          capture := if s.mergeStderr = some false then .separate else .merged
          inheritEnv := s.inheritEnv.getD true
          env := env } o := by
      by_cases ho : o.separateStderr = true <;> simp [Settings.effective, Effective.override, ho]
    simp [heffective, eq_comm (a := e)]

/-- There are settings for a test case if its configuration, if there is one, can be loaded and
expanded. -/
theorem World.effective_eq_ok_iff {o : Overrides} {e : Effective} :
    w.effective testCase o = .ok e ↔
      ∃ settings env, w.Configured testCase settings ∧
        Settings.expandAll w.environ settings.env = .ok env ∧ e = settings.effective env o := by
  rw [effective, bind_eq_ok_iff, Settings.loadFor]
  simp only [Configured]
  cases Settings.locate w testCase with
  | none =>
    -- No file is like a file that says nothing.
    simp only [Except.ok.injEq, exists_eq_left', Effective.resolve_none]
    constructor
    · rintro rfl
      exact ⟨.empty, .empty, rfl, rfl, rfl⟩
    · rintro ⟨settings, env, rfl, henv, rfl⟩
      obtain rfl := Except.ok.inj henv
      rfl
  | some path =>
    simp only [map_eq_ok_iff]
    constructor
    · rintro ⟨-, ⟨settings, hload, rfl⟩, hresolve⟩
      obtain ⟨env, henv, he⟩ := Effective.resolve_some_eq_ok_iff.mp hresolve
      exact ⟨settings, env, hload, henv, he⟩
    · rintro ⟨settings, env, hload, henv, he⟩
      exact ⟨_, ⟨settings, hload, rfl⟩, Effective.resolve_some_eq_ok_iff.mpr ⟨env, henv, he⟩⟩

/-! ### The run -/

namespace Launch

variable {programs : Programs} {t : Tree} {o : Order} {program : Path} {run' : Trace}

theorem run_of_isSound (h : o.isSound = true) :
    run programs t o program = start programs t o program :=
  if_pos h

/-- Nothing is started that holds what ends a text for the system. -/
theorem run_of_not_isSound (h : o.isSound = false) :
    run programs t o program = .error .nulInData := by
  rw [run, h]
  rfl

theorem start_of_isPlain (h : Order.isPlain program = true) :
    start programs t o program = (do
      match ← t.kind o.directory program with
      | some (.scripted script) => return Script.run o.scene script
      | some .executable => (programs o program).run t o.directory
      | _ => .error .permissionDenied) := by
  rw [start, h]
  rfl

/-- A program that acts by a script plays it in the scene of its order. -/
theorem start_of_scripted {script : Script}
    (h : t.kind o.directory program = .ok (some (.scripted script))) :
    start programs t o program = .ok (Script.run o.scene script) := by
  obtain ⟨place, hplace, -⟩ := map_eq_ok_iff.mp h
  have hplain : Order.isPlain program = true := by
    rw [Tree.locate] at hplace
    split at hplace
    · cases hplace
    · simpa [Order.isPlain]
  rw [start_of_isPlain hplain, h]
  rfl

/-- A program is found before it runs. -/
theorem exists_locate_of_run (h : run programs t o program = .ok run') :
    ∃ place, t.locate o.directory program = .ok place := by
  rw [run] at h
  split at h
  · rw [start] at h
    split at h
    · cases h
    · obtain ⟨kind, hkind, -⟩ := bind_eq_ok_iff.mp h
      obtain ⟨place, hplace, -⟩ := map_eq_ok_iff.mp hkind
      exact ⟨place, hplace⟩
  · cases h

end Launch

namespace Execution

/-- What the subject is started with: the name of the test case's file as its only argument, and the
directory of that file to run in. -/
def orderAt (place : Location) (input : Bytes) (environ : Environment) : Launch.Order where
  arguments := place.getLast?.toList
  directory := place.dropLast
  input := input
  environ := environ

/-- What is captured of a run that ended in some way. -/
def captured (capture : Capture) (t : Trace) (ending : Termination) : Outcome :=
  match capture with
  | .merged => ⟨Outcome.linesOf t.merged, [], ending⟩
  | .separate => ⟨Outcome.linesOf (t.only .out), Outcome.linesOf (t.only .err), ending⟩

theorem collect_of_closed (limit : Option Duration) {p : Pipe} (h : limit = none ∨ p.held = false) :
    collect limit p = .ok p.bytes := by
  cases limit with
  | none => rfl
  | some limit =>
    have hclosed : p.held = false := by simpa using h
    simp [collect, hclosed]

theorem collect_of_held (limit : Duration) {p : Pipe} (h : p.held = true) :
    collect (some limit) p = .error (.timeout limit) := by
  simp [collect, h]

/-- The pipes of a run that is left alone are all read to their ends. -/
theorem gather_of_closed {o : RunOptions} {t : Trace} (ending : Termination)
    (h : o.limit = none ∨ t.held = false) :
    gather o t ending = .ok (captured o.capture t ending) := by
  rw [gather]
  cases o.capture with
  | merged =>
    have hpipe := collect_of_closed (p := t.mergedPipe) o.limit h
    simp only [hpipe]
    rfl
  | separate =>
    -- Nothing that is held open means that neither stream is.
    have hout : o.limit = none ∨ (t.pipe .out).held = false :=
      h.imp_right fun h => (Bool.or_eq_false_iff.mp h).1
    have herr : o.limit = none ∨ (t.pipe .err).held = false :=
      h.imp_right fun h => (Bool.or_eq_false_iff.mp h).2
    simp only [collect_of_closed _ hout, collect_of_closed _ herr]
    rfl

/-- A limit expires while one of the pipes is read that something holds open: the one that carries
everything, or that of the first stream, or only then that of the second. -/
theorem gather_of_held {o : RunOptions} {t : Trace} {limit : Duration} (ending : Termination)
    (hlimit : o.limit = some limit) (h : t.held = true) :
    gather o t ending = .error (.timeout limit) := by
  rw [gather, hlimit]
  cases o.capture with
  | merged =>
    simp only [collect_of_held (p := t.mergedPipe) limit h]
    rfl
  | separate =>
    by_cases hout : t.holds .out = true
    · simp only [collect_of_held (p := t.pipe .out) limit hout]
      rfl
    · -- The first stream ends, and so it is the second that is held.
      have herr : t.holds .err = true := by simpa [Trace.held, hout] using h
      have hclosed : (t.pipe .out).held = false := by simpa [Trace.pipe] using hout
      simp only [collect_of_closed (some limit) (.inr hclosed),
        collect_of_held (p := t.pipe .err) limit herr]
      rfl

/-- Once a run has ended, its pipes are all that is left to read. -/
theorem outcome_of_ending {o : RunOptions} {t : Trace} {ending : Termination}
    (h : t.ending = some ending) : outcome o t = some (gather o t ending) := by
  have hwait : wait o.limit t = some (.ok ending) := by simp [wait, h]
  rw [outcome, hwait]
  rfl

theorem outcome_of_closed {o : RunOptions} {t : Trace} {ending : Termination}
    (hended : t.ending = some ending) (hclosed : o.limit = none ∨ t.held = false) :
    outcome o t = some (.ok (captured o.capture t ending)) := by
  rw [outcome_of_ending hended, gather_of_closed ending hclosed]

/-- A limit expires while the subject is waited for, or while one of the pipes is read. -/
theorem outcome_of_held {o : RunOptions} {t : Trace} {limit : Duration}
    (hlimit : o.limit = some limit) (h : t.ending = none ∨ t.held = true) :
    outcome o t = some (.error (.timeout limit)) := by
  cases hended : t.ending with
  | none =>
    have hwait : wait (some limit) t = some (.error (.timeout limit)) := by simp [wait, hended]
    rw [outcome, hlimit, hwait]
    rfl
  | some ending =>
    have hheld : t.held = true := by simpa [hended] using h
    rw [outcome_of_ending hended, gather_of_held ending hlimit hheld]

/-- There is no answer exactly if a subject that never ends is waited for without a limit. -/
theorem outcome_eq_none_iff {o : RunOptions} {t : Trace} :
    outcome o t = none ↔ o.limit = none ∧ t.ending = none := by
  rw [outcome, Option.map_eq_none_iff]
  cases hended : t.ending <;> cases o.limit <;> simp [wait, hended]

/-- Everything that can become of a run: it never ends and nobody stops it, or it is stopped at the
limit, or it ends and all that it wrote is captured. -/
theorem outcome_cases (o : RunOptions) (t : Trace) :
    (o.limit = none ∧ t.ending = none ∧ outcome o t = none) ∨
    (∃ limit, o.limit = some limit ∧ (t.ending = none ∨ t.held = true) ∧
      outcome o t = some (.error (.timeout limit))) ∨
    (∃ ending, t.ending = some ending ∧ (o.limit = none ∨ t.held = false) ∧
      outcome o t = some (.ok (captured o.capture t ending))) := by
  cases hlimit : o.limit with
  | none =>
    cases hended : t.ending with
    | none => exact .inl ⟨rfl, rfl, outcome_eq_none_iff.mpr ⟨hlimit, hended⟩⟩
    | some ending =>
      exact .inr (.inr ⟨ending, rfl, .inl rfl, outcome_of_closed hended (.inl hlimit)⟩)
  | some limit =>
    by_cases hheld : t.ending = none ∨ t.held = true
    · exact .inr (.inl ⟨limit, rfl, hheld, outcome_of_held hlimit hheld⟩)
    · obtain ⟨hended, hclosed⟩ := not_or.mp hheld
      obtain ⟨ending, hending⟩ := Option.ne_none_iff_exists'.mp hended
      have hfree : t.held = false := Bool.eq_false_iff.mpr hclosed
      exact .inr (.inr ⟨ending, hending, .inr hfree, outcome_of_closed hending (.inr hfree)⟩)

/-- A run has an outcome if it ends, and nothing holds its output open where a limit is set. -/
theorem outcome_eq_ok_iff {o : RunOptions} {t : Trace} {left : Outcome} :
    outcome o t = some (.ok left) ↔
      ∃ ending, t.ending = some ending ∧ (o.limit = none ∨ t.held = false) ∧
        left = captured o.capture t ending := by
  constructor
  · intro h
    rcases outcome_cases o t with ⟨-, -, hendless⟩ | ⟨limit, -, -, hexpired⟩ |
      ⟨ending, hended, hclosed, hleft⟩
    · simp [hendless] at h
    · simp [hexpired] at h
    · rw [hleft, Option.some.injEq, Except.ok.injEq] at h
      exact ⟨ending, hended, hclosed, h.symm⟩
  · rintro ⟨ending, hended, hclosed, rfl⟩
    exact outcome_of_closed hended hclosed

end Execution

namespace World

theorem absolute_eq_ok_iff {whole : Path} :
    w.absolute path = .ok whole ↔ Path.absolute w.directory.path path = some whole := by
  rw [absolute]
  cases Path.absolute w.directory.path path <;> simp

/-- The file for the input is required to be a regular file if one is given. -/
theorem forM_require_eq_ok_iff {stdin : Option Path} {u : Unit} :
    stdin.forM w.require = .ok u ↔ ∃ input, w.HasInput stdin input := by
  cases stdin with
  | none => simp [Option.forM, HasInput, pure_eq_ok_iff]
  | some path =>
    rw [Option.forM, require_eq_ok_iff]
    exact exists_comm

/-- What the subject is started with, once the test case is known to be a regular file. -/
theorem order_eq_ok_iff (hcase : w.HasFile testCase place content) {stdin : Option Path}
    {o : RunOptions} {program : Path} {launched : Launch.Order} :
    w.order exe testCase stdin o = .ok (program, launched) ↔
      Path.absolute w.directory.path exe = some program ∧
        ∃ input, w.HasInput stdin input ∧
          launched = Execution.orderAt place input (Execution.environment w.environ o) := by
  simp only [order, bind_eq_ok_iff, pure_eq_ok_iff, absolute_eq_ok_iff, input_eq_ok_iff,
    locate_eq_ok_of_hasFile hcase, Except.ok.injEq, exists_eq_left', Prod.mk.injEq]
  constructor
  · rintro ⟨_, hprogram, input, hinput, rfl, rfl⟩
    exact ⟨hprogram, input, hinput, rfl⟩
  · rintro ⟨hprogram, input, hinput, rfl⟩
    exact ⟨program, hprogram, input, hinput, rfl, rfl⟩

/-- Once the test case and the input are known to be regular files, launching is all that is
left. -/
theorem launch_eq_run {stdin : Option Path} {input : Bytes} {program : Path}
    (hcase : w.HasFile testCase place content) (hinput : w.HasInput stdin input)
    (hprogram : Path.absolute w.directory.path exe = some program) (o : RunOptions) :
    w.launch exe testCase stdin o =
      (Launch.run w.programs w.tree
        (Execution.orderAt place input (Execution.environment w.environ o)) program).mapError
          (Fault.launch program) := by
  have hrequire : w.require testCase = .ok () := require_eq_ok_iff.mpr ⟨place, content, hcase⟩
  have hstdin : stdin.forM w.require = .ok () := forM_require_eq_ok_iff.mpr ⟨input, hinput⟩
  have horder := (order_eq_ok_iff hcase (o := o)).mpr ⟨hprogram, input, hinput, rfl⟩
  rw [launch, hrequire, bind_ok, hstdin, bind_ok, horder, bind_ok]

/-- What a run needs in order to be launched. -/
theorem launch_eq_ok_iff {stdin : Option Path} {o : RunOptions} {run : Trace} :
    w.launch exe testCase stdin o = .ok run ↔
      ∃ place bytes input program, w.HasFile testCase place bytes ∧
        w.HasInput stdin input ∧ Path.absolute w.directory.path exe = some program ∧
        Launch.run w.programs w.tree
          (Execution.orderAt place input (Execution.environment w.environ o)) program = .ok run := by
  simp only [launch, bind_eq_ok_iff, mapError_eq_ok_iff, require_eq_ok_iff, forM_require_eq_ok_iff]
  constructor
  · rintro ⟨-, ⟨place, bytes, hfile⟩, -, -, ⟨program, launched⟩, horder, hrun⟩
    -- The test case is known to be a file here, so that nothing is left to fail but the rest.
    obtain ⟨hprogram, input, hinput, rfl⟩ := (order_eq_ok_iff hfile).mp horder
    exact ⟨place, bytes, input, program, hfile, hinput, hprogram, hrun⟩
  · rintro ⟨place, bytes, input, program, hfile, hinput, hprogram, hrun⟩
    have horder : w.order exe testCase stdin o = .ok (program, _) :=
      (order_eq_ok_iff hfile).mpr ⟨hprogram, input, hinput, rfl⟩
    exact ⟨(), ⟨place, bytes, hfile⟩, (), ⟨input, hinput⟩, _, horder, hrun⟩

/-- Once a run is launched, what becomes of it is all that is left to see. -/
theorem execute_of_launch {stdin : Option Path} {o : RunOptions} {run : Trace}
    (h : w.launch exe testCase stdin o = .ok run) :
    w.execute exe testCase stdin o = Execution.outcome o run := by
  rw [execute, h]
  rfl

end World

end Golden
