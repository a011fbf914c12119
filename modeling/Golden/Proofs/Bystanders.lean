import Golden.Proofs.Neighbour
import Golden.Proofs.PassingRun
import Golden.Session

/-!
# Files that are not looked at

Where a path leads, whether it names a file, and what the system makes of a file that it is told to
run are told by the outline of a tree and the kinds of its files. What a file holds is looked at for
few of them: the runner reads the test case, the file for the input and the configuration that is
found, and an executable reads what it likes when it is run, by itself or through what interprets
it. A subject that acts by a script reads nothing. All other files are bystanders: two worlds that
differ in what these hold cannot be told apart.

## Main definitions

* `Tree.SameShape` — two trees differ in nothing but in what their files hold
* `Behaviour.Reads`, `Launch.Reads` — the files that a program reads when it is run
* `World.LooksInto`, `World.Reads` — the files into which the runner and the executable look
* `World.rewritten` — the world in which a file is written anew
* `World.handing` — a system with a small shell, to which executables hand files

## Main results

* `Behaviour.run_congr` — what becomes of a program is told by the files that it reads
* `World.Resembles.answer_eq` — an answer is told by the files into which is looked for it
* `World.answer_unmoved_by_bystanders` — a subject that acts by a script looks into none, and the
  second of two configurations is not looked into
* `World.report_moved_by_handed_file` — an executable may look into others
-/

namespace Golden

open Stage

theorem Node.isSome_kind? (node : Node) : node.kind?.isSome = node.isFile := by
  cases node <;> rfl

namespace Tree

variable {t t' : Tree} {cwd : Location} {path : Path}

/-- Two trees have the same directories and the same files, which the system treats in the same way
when it is told to run them. What is in the files may differ. -/
def SameShape (t t' : Tree) : Prop :=
  ∀ l, (t.node? l).map Node.kind? = (t'.node? l).map Node.kind?

/-- Two trees have the same node at a location if a path leads there. -/
def SameAt (t t' : Tree) (cwd : Location) (path : Path) : Prop :=
  ∀ place, t.locate cwd path = .ok place → t.node? place = t'.node? place

namespace SameShape

theorem outline (h : t.SameShape t') : t.SameOutline t' := by
  intro l
  have hl := congrArg (Option.map Option.isSome) (h l)
  simpa only [Option.map_map, Function.comp_def, Node.isSome_kind?] using hl

/-- What is read of a file is the same in both trees if the file is. -/
theorem readBytes_eq (h : t.SameShape t') (hsame : t.SameAt t' cwd path) :
    t.readBytes cwd path = t'.readBytes cwd path := by
  rw [readBytes, readBytes, h.outline.locate_eq]
  cases hlocate : t'.locate cwd path with
  | error cause => rfl
  | ok place =>
    rw [← h.outline.locate_eq] at hlocate
    rw [bind_ok, bind_ok, hsame place hlocate]

/-- Kinds are part of the shape. -/
theorem kind_eq (h : t.SameShape t') (cwd : Location) (path : Path) :
    t.kind cwd path = t'.kind cwd path := by
  rw [kind, kind, h.outline.locate_eq]
  cases t'.locate cwd path with
  | error cause => rfl
  | ok place =>
    have hplace : (t.node? place).bind Node.kind? = (t'.node? place).bind Node.kind? := by
      have hkind := congrArg (Option.bind · id) (h place)
      simpa only [Option.bind_map, Function.id_comp] using hkind
    exact congrArg Except.ok hplace

end SameShape

end Tree

namespace Behaviour

variable {t t' : Tree} {directory : Location} {b : Behaviour}

/-- The files that a program reads when it runs in a directory. -/
def Reads (t : Tree) (directory : Location) : Behaviour → Location → Prop
  | ends _, _ => False
  | find path next, place => (next (t.kind directory path)).Reads t directory place
  | read path next, place =>
    t.locate directory path = .ok place ∨
      (next (t.readBytes directory path)).Reads t directory place

/-- What becomes of a program is told by the files that it reads. -/
theorem run_congr (hshape : t.SameShape t')
    (hsame : ∀ place, b.Reads t directory place → t.node? place = t'.node? place) :
    b.run t directory = b.run t' directory := by
  -- Wherever the program goes on, it has seen the same in both trees so far.
  induction b with
  | ends result => rfl
  | find path next ih =>
    rw [run, run, ← hshape.kind_eq]
    exact ih _ hsame
  | read path next ih =>
    rw [run, run, ← hshape.readBytes_eq fun place hplace => hsame place (.inl hplace)]
    exact ih _ fun place hplace => hsame place (.inr hplace)

end Behaviour

namespace Launch

variable {programs : Programs} {t t' : Tree} {o : Order} {program : Path}

/-- The files that an executable reads when it is run, by itself or through what interprets it. A
program that acts by a script reads none. -/
def Reads (programs : Programs) (t : Tree) (o : Order) (program : Path) (place : Location) : Prop :=
  t.kind o.directory program = .ok (some .executable) ∧
    (programs o program).Reads t o.directory place

theorem start_congr (hshape : t.SameShape t')
    (hsame : ∀ place, Reads programs t o program place → t.node? place = t'.node? place) :
    start programs t o program = start programs t' o program := by
  rw [start, start, ← hshape.kind_eq]
  split
  · rfl
  · apply bind_congr rfl
    intro kind hkind
    cases kind with
    | none => rfl
    | some kind =>
      cases kind with
      | executable =>
        exact Behaviour.run_congr hshape fun place hplace => hsame place ⟨hkind, hplace⟩
      | _ => rfl

theorem run_congr (hshape : t.SameShape t')
    (hsame : ∀ place, Reads programs t o program place → t.node? place = t'.node? place) :
    run programs t o program = run programs t' o program := by
  rw [run, run, start_congr hshape hsame]

end Launch

/-- The place of a name in the directory of a location. -/
def Location.beside (place : Location) (name : Text) : Location :=
  place.dropLast ++ [name]

/-- Two worlds differ in nothing but in what their files hold. -/
structure World.Resembles (w w' : World) : Prop where
  directory : w.directory = w'.directory
  environ : w.environ = w'.environ
  programs : w.programs = w'.programs
  shape : w.tree.SameShape w'.tree

namespace World

/-- A path leads to a location. -/
def LeadsTo (w : World) (path : Path) (place : Location) : Prop :=
  w.tree.locate w.directory path = .ok place

/-- The configuration file for a test case is at a location. -/
def ConfiguredAt (w : World) (testCase : Path) (place : Location) : Prop :=
  ∃ path, Settings.locate w testCase = some path ∧ w.LeadsTo path place

/-- The files that are handed to a run: the test case and the file for the input. -/
def HandsOver (w : World) (testCase : Path) (stdin : Option Path) (place : Location) : Prop :=
  w.LeadsTo testCase place ∨ ∃ path, stdin = some path ∧ w.LeadsTo path place

/-- The files into which is looked for an answer, if the executable is left out. -/
def LooksInto (w : World) : Query → Location → Prop
  | .settings path, place => w.LeadsTo path place
  | .applied testCase _, place => w.ConfiguredAt testCase place
  | .testCase path, place => w.LeadsTo path place
  | .outcome _ testCase stdin _, place => w.HandsOver testCase stdin place
  | .report arguments, place => ∃ i, CommandLine.read arguments = .run i ∧
      (w.ConfiguredAt i.testCase place ∨ w.HandsOver i.testCase i.stdin place)

/-- What the executable is started with for an answer, and its path. -/
def Starts (w : World) : Query → Launch.Order → Path → Prop
  | .outcome exe testCase stdin o, order, program =>
    w.order exe testCase stdin o = .ok (program, order)
  | .report arguments, order, program => ∃ i settings, CommandLine.read arguments = .run i ∧
      w.effective i.testCase i.overrides = .ok settings ∧
      w.order i.executable i.testCase i.stdin settings.runOptions = .ok (program, order)
  | _, _, _ => False

/-- The files that the executable reads when it is run for an answer. -/
def Reads (w : World) (q : Query) (place : Location) : Prop :=
  ∃ order program, w.Starts q order program ∧
    Launch.Reads w.programs w.tree order program place

/-- The executable that is run for an answer acts by a script. -/
def IsScripted (w : World) (q : Query) : Prop :=
  ∀ order program, w.Starts q order program →
    ∃ script, w.tree.kind order.directory program = .ok (some (.scripted script))

/-- The world in which a file is written anew. -/
def rewritten (w : World) (place : Location) (content : Bytes) (kind : FileKind) : World :=
  { w with tree := w.tree.replace place (.file content kind) }

variable {w w' : World} {path testCase exe : Path} {stdin : Option Path} {o : RunOptions}
  {l place : Location} {content content' : Bytes} {kind : FileKind}

theorem node?_rewritten_self (h : w.tree.node? place = some (.file content kind)) :
    (w.rewritten place content' kind).tree.node? place = some (.file content' kind) := by
  apply Tree.node?_replace_self
  rintro rfl
  simp [Tree.node?] at h

theorem node?_rewritten_of_ne (h : l ≠ place) :
    (w.rewritten place content kind).tree.node? l = w.tree.node? l :=
  Tree.node?_replace_of_ne h _ _

namespace Resembles

section
variable (h : w.Resembles w')
include h

theorem isFile_eq (path : Path) : w.isFile path = w'.isFile path := by
  rw [isFile, isFile, h.shape.outline.isFile_eq, h.directory]

theorem require_eq (path : Path) : w.require path = w'.require path := by
  rw [require, require, h.isFile_eq]

theorem locate_eq (path : Path) : w.locate path = w'.locate path := by
  rw [locate, locate, h.shape.outline.locate_eq, h.directory]

theorem readBytes_eq (hsame : w.tree.SameAt w'.tree w.directory path) :
    w.readBytes path = w'.readBytes path := by
  rw [readBytes, readBytes, h.shape.readBytes_eq hsame, h.directory]

theorem readText_eq (hsame : w.tree.SameAt w'.tree w.directory path) :
    w.readText path = w'.readText path := by
  rw [readText, readText, Tree.readText, Tree.readText, h.shape.readBytes_eq hsame, h.directory]

/-- The configuration lies at the same place. -/
theorem settings_locate_eq (testCase : Path) :
    Settings.locate w testCase = Settings.locate w' testCase :=
  congrArg (fun isFile => (Settings.candidates testCase).find? isFile) (funext h.isFile_eq)

theorem settings_load_eq (hsame : w.tree.SameAt w'.tree w.directory path) :
    Settings.load w path = Settings.load w' path := by
  rw [Settings.load, Settings.load, h.readText_eq hsame]

theorem loadFor_eq
    (hsame : ∀ path, Settings.locate w testCase = some path →
      w.tree.SameAt w'.tree w.directory path) :
    Settings.loadFor w testCase = Settings.loadFor w' testCase := by
  rw [Settings.loadFor, Settings.loadFor, ← h.settings_locate_eq]
  cases hlocate : Settings.locate w testCase with
  | none => rfl
  | some path =>
    dsimp only
    rw [h.settings_load_eq (hsame path hlocate)]

theorem effective_eq (hsame : ∀ path, Settings.locate w testCase = some path →
    w.tree.SameAt w'.tree w.directory path) (o : Overrides) :
    w.effective testCase o = w'.effective testCase o := by
  rw [effective, effective, h.loadFor_eq hsame, h.environ]

theorem testCase_load_eq (hsame : w.tree.SameAt w'.tree w.directory path) :
    TestCase.load w path = TestCase.load w' path := by
  rw [TestCase.load, TestCase.load, h.require_eq, h.readText_eq hsame]

theorem order_eq (hsame : ∀ path, stdin = some path → w.tree.SameAt w'.tree w.directory path) :
    w.order exe testCase stdin o = w'.order exe testCase stdin o := by
  have habsolute : w.absolute exe = w'.absolute exe := by rw [absolute, absolute, h.directory]
  have hinput : Execution.input w stdin = Execution.input w' stdin := by
    cases stdin with
    | none => rfl
    | some path => exact h.readBytes_eq (hsame path rfl)
  rw [order, order, habsolute, h.locate_eq, hinput, h.environ]

theorem execute_eq (hinput : ∀ path, stdin = some path → w.tree.SameAt w'.tree w.directory path)
    (hreads : ∀ program order, w.order exe testCase stdin o = .ok (program, order) →
      ∀ place, Launch.Reads w.programs w.tree order program place →
        w.tree.node? place = w'.tree.node? place) :
    w.execute exe testCase stdin o = w'.execute exe testCase stdin o := by
  have hstdin : stdin.forM w.require = stdin.forM w'.require := by
    rw [funext h.require_eq]
  rw [execute, execute]
  refine Execution.proceed_congr ?_ fun _ _ => rfl
  rw [launch, launch]
  -- The stages up to the order agree one by one, and so the same program is started.
  apply bind_congr (h.require_eq testCase)
  intro _ _
  apply bind_congr hstdin
  intro _ _
  apply bind_congr (h.order_eq hinput)
  intro launched horder
  obtain ⟨program, order⟩ := launched
  dsimp only
  rw [Launch.run_congr h.shape (hreads program order horder), h.programs]

theorem verdict_eq {arguments : List Text} {i : Invocation}
    (hread : CommandLine.read arguments = .run i)
    (hlooks : ∀ place, w.LooksInto (.report arguments) place →
      w.tree.node? place = w'.tree.node? place)
    (hreads : ∀ place, w.Reads (.report arguments) place →
      w.tree.node? place = w'.tree.node? place) :
    w.verdict i = w'.verdict i := by
  have hload : TestCase.load w i.testCase = TestCase.load w' i.testCase :=
    h.testCase_load_eq fun place hplace => hlooks place ⟨i, hread, .inr (.inl hplace)⟩
  have heffective : w.effective i.testCase i.overrides = w'.effective i.testCase i.overrides :=
    h.effective_eq (fun path hpath place hplace =>
      hlooks place ⟨i, hread, .inl ⟨path, hpath, hplace⟩⟩) _
  rw [verdict, verdict, ← Invocation.overrides.eq_1]
  apply Execution.proceed_congr hload
  intro case hcase
  -- The run is on the path of the test case that was read, which is the one that was asked for.
  obtain ⟨-, -, -, -, -, -, -, rfl⟩ := TestCase.load_eq_ok_iff.mp hcase
  apply Execution.proceed_congr heffective
  intro settings hsettings
  rw [h.execute_eq]
  · intro path hpath place hplace
    exact hlooks place ⟨i, hread, .inr (.inr ⟨path, hpath, hplace⟩)⟩
  · intro program order horder place hplace
    exact hreads place ⟨order, program, ⟨i, settings, hread, hsettings, horder⟩, hplace⟩

/-- The answer to a query is told by the files into which is looked for it, by the runner or by the
executable. -/
theorem answer_eq (q : Query)
    (hlooks : ∀ place, w.LooksInto q place → w.tree.node? place = w'.tree.node? place)
    (hreads : ∀ place, w.Reads q place → w.tree.node? place = w'.tree.node? place) :
    w.answer q = w'.answer q := by
  cases q with
  | settings path => rw [answer, answer, h.settings_load_eq hlooks]
  | applied testCase o =>
    have hfile (path : Path) (hpath : Settings.locate w testCase = some path) :
        w.tree.SameAt w'.tree w.directory path :=
      fun place hplace => hlooks place ⟨path, hpath, hplace⟩
    rw [answer, answer, h.settings_locate_eq, h.loadFor_eq hfile, h.effective_eq hfile]
  | testCase path => rw [answer, answer, h.testCase_load_eq hlooks]
  | outcome exe testCase stdin o =>
    rw [answer, answer, h.execute_eq]
    · intro path hpath place hplace
      exact hlooks place (.inr ⟨path, hpath, hplace⟩)
    · intro program order horder place hplace
      exact hreads place ⟨order, program, horder, hplace⟩
  | report arguments =>
    rw [answer, answer, report, report]
    cases hread : CommandLine.read arguments with
    | run i =>
      dsimp only
      rw [h.verdict_eq hread hlooks hreads]
    | _ => rfl

end

/-- Writing a file anew changes nothing but what it holds. -/
theorem rewritten {place : Location} {content content' : Bytes} {kind : FileKind}
    (hfile : w.tree.node? place = some (.file content kind)) :
    w.Resembles (w.rewritten place content' kind) where
  directory := rfl
  environ := rfl
  programs := rfl
  shape l := by
    by_cases hl : l = place
    · rw [hl, hfile, node?_rewritten_self hfile]
      rfl
    · rw [node?_rewritten_of_ne hl]

end Resembles

/-- What is found as the configuration is not the second of two neighbours of which the first has a
name that goes before. -/
theorem not_configuredAt_of_holdsFile {place : Location} {bytes : Bytes}
    (hcwd : w.tree.IsDirectory w.directory) (hcase : w.HasFile testCase place bytes)
    (hyaml : w.tree.HoldsFile place.dropLast "checkrun.yaml".toList) :
    ¬ w.ConfiguredAt testCase (place.beside "checkrun.toml".toList) := by
  intro h
  obtain ⟨path, hlocate, hleads⟩ := h
  obtain ⟨hplace, kind, hnode⟩ := hcase
  have hfile : w.tree.node? place ≠ some .directory := by simp [hnode]
  obtain ⟨dir, name, rfl, hdir, hdirectory⟩ := Tree.locate_directory hcwd hplace hfile
  rw [List.dropLast_concat] at hyaml
  rw [LeadsTo, Location.beside, List.dropLast_concat] at hleads
  -- The configuration has one of the names in that directory, and so it has the second.
  obtain ⟨file, hmem, rfl, content, hfound, -⟩ :=
    Settings.exists_of_locate hdirectory hdir.node? hlocate
  obtain ⟨-, hname⟩ := List.append_inj' (Except.ok.inj (hleads.symm.trans hfound)) rfl
  obtain rfl := List.cons.inj hname |>.1
  have hsecond := List.find?_some hlocate
  obtain ⟨hreach, -⟩ := (Settings.isFile_join_iff hdirectory hdir.node? hmem).mp hsecond
  have hfirst :=
    (Settings.isFile_join_iff hdirectory hdir.node? List.mem_cons_self).mpr ⟨hreach, hyaml⟩
  rw [Settings.locate, Settings.candidates, Settings.fileNames, List.map_cons,
    List.find?_cons_of_pos hfirst] at hlocate
  have hjoin := Option.some.inj hlocate
  simp [Path.join, Path.directory_ne_nil] at hjoin

/-- What the executable reads when it acts by a script is nothing. -/
theorem not_reads_of_isScripted {q : Query} (h : w.IsScripted q) : ¬ w.Reads q place := by
  rintro ⟨order, program, hstarts, hkind, -⟩
  obtain ⟨script, hscript⟩ := h order program hstarts
  cases hscript.symm.trans hkind

/-- **Bystanders are not looked at.** Two worlds with the same directories and files, which the
system treats in the same way when it is told to run them, give the same answer to a query, be it a
refusal or not, if the files into which is looked for it hold the same in both. These are the test
case, the file for the input, the configuration that is found, and the files that the executable
reads when it is run, by itself or through what interprets it. If the executable acts by a script,
only the first three count. In particular, beside a file of the first name for a configuration one of
the second name may hold anything, however wrong the first one is, if it is not handed to the run and
the executable does not read it. -/
theorem answer_unmoved_by_bystanders (w : World) :
    (∀ w', w.Resembles w' → ∀ q,
      (∀ place, w.LooksInto q place ∨ w.Reads q place → w.tree.node? place = w'.tree.node? place) →
        w.answer q = w'.answer q) ∧
    (∀ w', w.Resembles w' → ∀ q, w.IsScripted q →
      (∀ place, w.LooksInto q place → w.tree.node? place = w'.tree.node? place) →
        w.answer q = w'.answer q) ∧
    ∀ testCase place bytes content content' kind, w.tree.IsDirectory w.directory →
      w.HasFile testCase place bytes →
      w.tree.HoldsFile place.dropLast "checkrun.yaml".toList →
      w.tree.node? (place.beside "checkrun.toml".toList) = some (.file content kind) →
      let w' := w.rewritten (place.beside "checkrun.toml".toList) content' kind
      (∀ o, w.answer (.applied testCase o) = w'.answer (.applied testCase o)) ∧
      ∀ arguments i, CommandLine.read arguments = .run i → i.testCase = testCase →
        ¬ w.HandsOver testCase i.stdin (place.beside "checkrun.toml".toList) →
        ¬ w.Reads (.report arguments) (place.beside "checkrun.toml".toList) →
        w.answer (.report arguments) = w'.answer (.report arguments) := by
  refine ⟨fun w' h q hsame => ?_, fun w' h q hscripted hsame => ?_, ?_⟩
  · exact h.answer_eq q (fun place hplace => hsame place (.inl hplace))
      fun place hplace => hsame place (.inr hplace)
  · exact h.answer_eq q hsame fun place hplace => absurd hplace (not_reads_of_isScripted hscripted)
  intro testCase place bytes content content' kind hcwd hcase hyaml htoml w'
  have hresembles : w.Resembles w' := .rewritten htoml
  have hunconfigured := not_configuredAt_of_holdsFile hcwd hcase hyaml
  -- Only what is written anew could be told apart, and no path that is followed leads there.
  have hother (looked : Location → Prop) (h : ¬ looked (place.beside "checkrun.toml".toList)) :
      ∀ l, looked l → w.tree.node? l = w'.tree.node? l := by
    intro l hl
    refine (node?_rewritten_of_ne ?_).symm
    rintro rfl
    exact h hl
  constructor
  · intro o
    have hreads : ¬ w.Reads (.applied testCase o) (place.beside "checkrun.toml".toList) :=
      fun ⟨_, _, hstarts, _⟩ => hstarts
    exact hresembles.answer_eq _ (hother _ hunconfigured) (hother _ hreads)
  · intro arguments i hread hi hhanded hreads
    apply hresembles.answer_eq _ (hother _ _) (hother _ hreads)
    rintro ⟨i', hread', hlooks⟩
    obtain rfl := CommandLine.Request.run.inj (hread.symm.trans hread')
    rw [hi] at hlooks
    exact hlooks.elim hunconfigured hhanded

/-- What a shell makes of a file in which there is one `echo` of plain words. -/
def echoed (script : Bytes) : Trace :=
  match after? (Utf8.encode "echo ".toList) script with
  | some words => ⟨[(.out, words)], some (.exited 0), fun _ => false⟩
  | none => ⟨[], some (.exited 127), fun _ => false⟩

/-- The programs of a system with that shell, to which the first line of an executable hands a
file. -/
def handing : Programs := fun _ program =>
  .read program fun
    | .error cause => .ends (.error cause)
    | .ok content =>
      match after? "#!/bin/sh ".toList (Utf8.decodeLossy content) with
      | none => .ends (.error .execFormat)
      | some line =>
        .read (line.takeWhile (· ≠ '\n')) fun
          | .error _ => .ends (.ok ⟨[], some (.exited 2), fun _ => false⟩)
          | .ok script => .ends (.ok (echoed script))

/-- What is read to run an executable there: itself, and what its first line hands to the shell. -/
theorem reads_handing_iff {t : Tree} {directory : Location} {program : Path} {line : Text}
    (order : Launch.Order) (hread : t.readBytes directory program = .ok content)
    (hline : after? "#!/bin/sh ".toList (Utf8.decodeLossy content) = some line) :
    (handing order program).Reads t directory place ↔
      t.locate directory program = .ok place ∨
        t.locate directory (line.takeWhile (· ≠ '\n')) = .ok place := by
  rw [handing, Behaviour.Reads, hread]
  simp only [hline, Behaviour.Reads]
  cases t.readBytes directory (line.takeWhile (· ≠ '\n')) <;> simp [Behaviour.Reads]

/-- A directory with a test case `c` and a tool `t`, whose first line hands a file to the shell, and
with a configuration of the first name. A script `s` and what has the second name for a
configuration say what the test case wants to see. -/
def relaying (handed yaml : String) : World where
  tree := ⟨[([['c']], .file (Utf8.encode "# CHECK: hi\n".toList) .plain),
    (["checkrun.yaml".toList], .file (Utf8.encode yaml.toList) .plain),
    (["checkrun.toml".toList], .file (Utf8.encode "echo hi\n".toList) .plain),
    ([['s']], .file (Utf8.encode "echo hi\n".toList) .plain),
    ([['t']], .file (Utf8.encode ("#!/bin/sh ".toList ++ handed.toList ++ ['\n'])) .executable)]⟩
  directory := []
  environ := []
  programs := handing

theorem hasFile_relaying (handed yaml : String) :
    (relaying handed yaml).HasFile ['c'] [['c']] (Utf8.encode "# CHECK: hi\n".toList) :=
  ⟨rfl, .plain, rfl⟩

theorem read_relaying : CommandLine.read ["./t".toList, ['c']] =
    .run ⟨"./t".toList, ['c'], none, none, false, false⟩ := by
  decide

theorem not_reads_relaying (yaml : String) :
    ¬ (relaying "s" yaml).Reads (.report ["./t".toList, ['c']]) ["checkrun.toml".toList] := by
  rintro ⟨order, program, ⟨i, settings, hread, -, horder⟩, -, hreads⟩
  obtain rfl := CommandLine.Request.run.inj (read_relaying.symm.trans hread)
  have hprogram : Path.absolute (Location.path []) "./t".toList = some "/t".toList := by decide
  obtain ⟨hnamed, input, -, hstarted⟩ := (order_eq_ok_iff (hasFile_relaying "s" yaml)).mp horder
  obtain rfl := Option.some.inj (hprogram.symm.trans hnamed)
  have hdirectory : order.directory = [] := by
    rw [hstarted]
    rfl
  rw [hdirectory] at hreads
  have hfile : (relaying "s" yaml).tree.readBytes [] "/t".toList =
      .ok (Utf8.encode "#!/bin/sh s\n".toList) := rfl
  have hline : after? "#!/bin/sh ".toList (Utf8.decodeLossy (Utf8.encode "#!/bin/sh s\n".toList)) =
      some ['s', '\n'] := by decide +kernel
  obtain h | h := (reads_handing_iff order hfile hline).mp hreads
  · exact absurd (Except.ok.inj h) (by decide)
  · exact absurd (Except.ok.inj h) (by decide)

/-- Whatever the file of the second name holds, a configuration of the first name that is none is
what is wrong, and with one that says nothing the tool passes. -/
theorem answer_unmoved_by_bystanders_misconfigured :
    (relaying "s" "timeout: [\n").tree.IsDirectory [] ∧
      (relaying "s" "timeout: [\n").HasFile ['c'] [['c']] (Utf8.encode "# CHECK: hi\n".toList) ∧
      (relaying "s" "timeout: [\n").tree.HoldsFile [] "checkrun.yaml".toList ∧
      (relaying "s" "timeout: [\n").tree.node? ["checkrun.toml".toList] =
        some (.file (Utf8.encode "echo hi\n".toList) .plain) ∧
      CommandLine.read ["./t".toList, ['c']] =
        .run ⟨"./t".toList, ['c'], none, none, false, false⟩ ∧
      ¬ (relaying "s" "timeout: [\n").HandsOver ['c'] none ["checkrun.toml".toList] ∧
      ¬ (relaying "s" "timeout: [\n").Reads (.report ["./t".toList, ['c']])
        ["checkrun.toml".toList] ∧
      ((relaying "s" "timeout: [\n").rewritten ["checkrun.toml".toList] [0xff] .plain).report
        ["./t".toList, ['c']] = some (.fault (.config "./checkrun.yaml".toList .malformed)) ∧
      ((relaying "s" "").rewritten ["checkrun.toml".toList] [0xff] .plain).report
        ["./t".toList, ['c']] = some (.verdict .pass) := by
  have hcwd (yaml : String) : (relaying "s" yaml).tree.IsDirectory (relaying "s" yaml).directory :=
    Tree.isDirectory_nil _
  have hyaml (yaml : String) : (relaying "s" yaml).tree.HoldsFile [] "checkrun.yaml".toList :=
    ⟨_, .plain, rfl⟩
  have htoml (yaml : String) : (relaying "s" yaml).tree.node? ["checkrun.toml".toList] =
      some (.file (Utf8.encode "echo hi\n".toList) .plain) := rfl
  have hhanded (yaml : String) :
      ¬ (relaying "s" yaml).HandsOver ['c'] none ["checkrun.toml".toList] := by
    rintro (h | ⟨path, hpath, -⟩)
    · have hplace : [['c']] = ["checkrun.toml".toList] := Except.ok.inj h
      exact absurd hplace (by decide)
    · cases hpath
  have hsame (yaml : String) : (relaying "s" yaml).report ["./t".toList, ['c']] =
      ((relaying "s" yaml).rewritten ["checkrun.toml".toList] [0xff] .plain).report
        ["./t".toList, ['c']] := by
    obtain ⟨-, -, hbeside⟩ := answer_unmoved_by_bystanders (relaying "s" yaml)
    obtain ⟨-, hreport⟩ :=
      hbeside ['c'] [['c']] _ _ [0xff] .plain (hcwd yaml) (hasFile_relaying "s" yaml) (hyaml yaml)
        (htoml yaml)
    exact Answer.report.inj (hreport _ _ read_relaying rfl (hhanded yaml) (not_reads_relaying yaml))
  refine ⟨hcwd _, hasFile_relaying _ _, hyaml _, htoml _, read_relaying, hhanded _,
    not_reads_relaying _, ?_, ?_⟩
  · rw [← hsame]
    decide +kernel
  · rw [← hsame]
    decide +kernel

/-- What the handed file holds is seen in the answer, though it is not the test case, nor the file
for the input, nor the executable, nor the configuration that is found. -/
theorem report_moved_by_handed_file :
    ¬ ∀ (w w' : World) (arguments : List Text) (i : Invocation),
      w.tree.IsDirectory w.directory → w.Resembles w' → CommandLine.read arguments = .run i →
      (∀ place, w.LooksInto (.report arguments) place ∨ w.LeadsTo i.executable place →
        w.tree.node? place = w'.tree.node? place) →
      w.report arguments = w'.report arguments := by
  intro h
  have hpass : (relaying "checkrun.toml" "").report ["./t".toList, ['c']] =
      some (.verdict .pass) := by decide +kernel
  have hfail : ((relaying "checkrun.toml" "").rewritten ["checkrun.toml".toList]
      (Utf8.encode "echo ho\n".toList) .plain).report ["./t".toList, ['c']] ≠
        some (.verdict .pass) := by decide +kernel
  have hlocate : Settings.locate (relaying "checkrun.toml" "") ['c'] =
      some "./checkrun.yaml".toList := by decide +kernel
  refine hfail ((h (relaying "checkrun.toml" "") _ _ _ (Tree.isDirectory_nil _) (.rewritten rfl)
    read_relaying ?_).symm.trans hpass)
  intro place hplace
  refine (node?_rewritten_of_ne ?_).symm
  rintro rfl
  -- None of the files that the claim names is the one that was written anew.
  obtain ⟨i, hread', hlooks⟩ | h := hplace
  · obtain rfl := CommandLine.Request.run.inj (read_relaying.symm.trans hread')
    obtain ⟨path, hpath, h⟩ | h | ⟨path, hpath, -⟩ := hlooks
    · obtain rfl := Option.some.inj (hlocate.symm.trans hpath)
      exact absurd (Except.ok.inj h) (by decide)
    · exact absurd (Except.ok.inj h) (by decide)
    · cases hpath
  · exact absurd (Except.ok.inj h) (by decide)

end World

end Golden
