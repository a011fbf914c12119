import Golden.Proofs.PassingRun
import Golden.Proofs.Provenance
import Golden.Proofs.Resolution
import Golden.Proofs.Walk
import Mathlib.Data.List.Find

/-!
# Refusals

Everything that a command line reads is looked at before the subject is started: the test case has
to be a file, its content has to be text, its exit lines have to be well formed, the configuration
beside it has to be one and its variables have to resolve, and the file for the input has to be
there. These are stages in an order, and the first that refuses the command line speaks for it.
Whether a stage refuses depends on the files that are read and on the environment alone, and so
nothing about the executable can be seen in the answer: not what it would do, nor whether it is
there at all.

## Main definitions

* `InputStage` — the stages
* `World.Holds` — a path names a regular file with some content
* `World.Refuses` — what a stage refuses a test case and its input for
* `World.Admits`, `World.Speaks` — no stage refuses; the first that does has this to say
* `World.SameFiles`, `World.SameInputs` — two worlds hold the same for everything that is read
* `Tree.SameContents` — two trees of the same files, whatever these do when they are run

## Main results

* `TestCase.load_eq_error_of_speaks`, `World.effective_eq_error_of_speaks`,
  `World.execute_eq_error_of_speaks` — the stages that each step of a command line goes through
* `World.sameFiles_of_sameContents` — what a file does when it is run is not read
* `World.first_refusal_speaks` — the first refusal is the answer, for every executable
-/

namespace Golden

open Stage

/-- What is looked at before a subject is started. -/
inductive InputStage where
  /-- The test case is a regular file. -/
  | testCase
  /-- It reads as text. -/
  | text
  /-- Its exit lines are well formed. -/
  | directives
  /-- The configuration file that applies to it reads as text and is a configuration. -/
  | settings
  /-- The variables of the configuration resolve. -/
  | expansion
  /-- The file for the input, if one is given, is a regular file. -/
  | input

/-- The stages of a command line, in order. -/
def InputStage.ofCommandLine : List InputStage :=
  [testCase, text, directives, settings, expansion, input]

/-- The stages of a run alone, in order. -/
def InputStage.ofRun : List InputStage :=
  [testCase, input]

/-- The paths at which a stage looks for files. -/
def InputStage.reads (testCase : Path) (stdin : Option Path) : InputStage → List Path
  | .testCase | .text | .directives => [testCase]
  | .settings | .expansion => Settings.candidates testCase
  | .input => stdin.toList

variable {w w' : World} {testCase path : Path} {stdin : Option Path} {fault : Fault} {bytes : Bytes}
  {stage : InputStage} {stages more : List InputStage}

namespace World

/-- A path names a regular file with some content. -/
def Holds (w : World) (path : Path) (bytes : Bytes) : Prop :=
  ∃ place, w.HasFile path place bytes

/-- A stage refuses a test case and a file for the input, with a fault. Each stage is looked at by
itself; where it has nothing to look at, it does not refuse. -/
inductive Refuses (w : World) (testCase : Path) (stdin : Option Path) : InputStage → Fault → Prop
  | testCase (hfile : ∀ bytes, ¬ w.Holds testCase bytes) :
      Refuses w testCase stdin .testCase (.inputNotFound testCase)
  | text {bytes : Bytes} (hfile : w.Holds testCase bytes) (htext : Utf8.decode? bytes = none) :
      Refuses w testCase stdin .text (.io ("failed to read ".toList ++ testCase) .notText)
  | directives {bytes : Bytes} {content : Text} {m : Malformed} (hfile : w.Holds testCase bytes)
      (htext : Utf8.decode? bytes = some content) (hparse : Directive.parse content = .error m) :
      Refuses w testCase stdin .directives (.malformedDirective m.line m.payload)
  | settingsText {path : Path} {bytes : Bytes} (hlocate : Settings.locate w testCase = some path)
      (hfile : w.Holds path bytes) (htext : Utf8.decode? bytes = none) :
      Refuses w testCase stdin .settings (.io ("failed to read ".toList ++ path) .notText)
  | settings {path : Path} {bytes : Bytes} {content : Text} {problem : Problem}
      (hlocate : Settings.locate w testCase = some path) (hfile : w.Holds path bytes)
      (htext : Utf8.decode? bytes = some content)
      (hcontent : Settings.ofContent (Path.extension path) content = .error problem) :
      Refuses w testCase stdin .settings (.config path problem)
  | expansion {path : Path} {bytes : Bytes} {content : Text} {settings : Settings}
      {problem : Problem} (hlocate : Settings.locate w testCase = some path)
      (hfile : w.Holds path bytes) (htext : Utf8.decode? bytes = some content)
      (hcontent : Settings.ofContent (Path.extension path) content = .ok settings)
      (hexpand : Settings.expandAll w.environ settings.env = .error problem) :
      Refuses w testCase stdin .expansion (.config path problem)
  | input {path : Path} (hstdin : stdin = some path) (hfile : ∀ bytes, ¬ w.Holds path bytes) :
      Refuses w testCase stdin .input (.inputNotFound path)

/-- No stage refuses. -/
def Admits (w : World) (testCase : Path) (stdin : Option Path) (stages : List InputStage) : Prop :=
  ∀ stage ∈ stages, ∀ fault, ¬ w.Refuses testCase stdin stage fault

/-- Some stage refuses with a fault, and no stage before it refuses. -/
def Speaks (w : World) (testCase : Path) (stdin : Option Path) (stages : List InputStage)
    (fault : Fault) : Prop :=
  ∃ before stage after, stages = before ++ stage :: after ∧ w.Admits testCase stdin before ∧
    w.Refuses testCase stdin stage fault

theorem not_speaks_nil : ¬ w.Speaks testCase stdin [] fault := by
  intro h
  obtain ⟨before, stage, after, hsplit, -⟩ := h
  simp at hsplit

theorem admits_cons_iff :
    w.Admits testCase stdin (stage :: stages) ↔
      (∀ fault, ¬ w.Refuses testCase stdin stage fault) ∧ w.Admits testCase stdin stages :=
  List.forall_mem_cons

/-- The first stage speaks, or else it does not refuse and the others speak. -/
theorem speaks_cons_iff :
    w.Speaks testCase stdin (stage :: stages) fault ↔
      w.Refuses testCase stdin stage fault ∨
        (∀ fault, ¬ w.Refuses testCase stdin stage fault) ∧
          w.Speaks testCase stdin stages fault := by
  constructor
  · intro h
    obtain ⟨before, first, after, hsplit, hbefore, hrefuses⟩ := h
    cases before with
    | nil =>
      obtain ⟨rfl, -⟩ := List.cons.inj hsplit
      exact .inl hrefuses
    | cons s before =>
      obtain ⟨rfl, hrest⟩ := List.cons.inj hsplit
      obtain ⟨hadmits, hbehind⟩ := admits_cons_iff.mp hbefore
      exact .inr ⟨hadmits, before, first, after, hrest, hbehind, hrefuses⟩
  · intro h
    obtain hrefuses | ⟨hadmits, before, first, after, hsplit, hbefore, hrefuses⟩ := h
    · exact ⟨[], stage, stages, rfl, by simp [Admits], hrefuses⟩
    · exact ⟨stage :: before, first, after, by rw [hsplit, List.cons_append],
        admits_cons_iff.mpr ⟨hadmits, hbefore⟩, hrefuses⟩

/-- Stages behind others speak only if none of these refuses. -/
theorem speaks_append_iff :
    w.Speaks testCase stdin (stages ++ more) fault ↔
      w.Speaks testCase stdin stages fault ∨
        w.Admits testCase stdin stages ∧ w.Speaks testCase stdin more fault := by
  induction stages with
  | nil => simp [not_speaks_nil, Admits]
  | cons stage stages ih =>
    rw [List.cons_append, speaks_cons_iff, speaks_cons_iff, admits_cons_iff, ih]
    tauto

/-- Either no stage refuses, or the first that does speaks. -/
theorem admits_or_exists_speaks (w : World) (testCase : Path) (stdin : Option Path)
    (stages : List InputStage) :
    w.Admits testCase stdin stages ∨ ∃ fault, w.Speaks testCase stdin stages fault := by
  induction stages with
  | nil => exact .inl (by simp [Admits])
  | cons stage stages ih =>
    simp only [admits_cons_iff, speaks_cons_iff]
    by_cases hrefuses : ∃ fault, w.Refuses testCase stdin stage fault
    · obtain ⟨fault, hfault⟩ := hrefuses
      exact .inr ⟨fault, .inl hfault⟩
    · have hnot := not_exists.mp hrefuses
      obtain hrest | ⟨fault, hspeaks⟩ := ih
      · exact .inl ⟨hnot, hrest⟩
      · exact .inr ⟨fault, .inr ⟨hnot, hspeaks⟩⟩

/-! ### Files -/

theorem require_of_holds (h : w.Holds path bytes) : w.require path = .ok () := by
  obtain ⟨place, hfile⟩ := h
  exact require_eq_ok_iff.mpr ⟨place, bytes, hfile⟩

theorem require_of_not_holds (h : ∀ bytes, ¬ w.Holds path bytes) :
    w.require path = .error (.inputNotFound path) := by
  have hfile : ¬ w.isFile path = true := by
    intro hfile
    obtain ⟨place, bytes, hhas⟩ := isFile_iff.mp hfile
    exact h bytes ⟨place, hhas⟩
  rw [require, if_neg hfile]

theorem readText_of_holds {content : Text} (h : w.Holds path bytes)
    (htext : Utf8.decode? bytes = some content) : w.readText path = .ok content := by
  obtain ⟨place, hfile⟩ := h
  exact readText_eq_ok_iff.mpr ⟨place, bytes, hfile, htext⟩

/-- A file that holds no text cannot be read as one. -/
theorem readText_of_not_text (h : w.Holds path bytes) (htext : Utf8.decode? bytes = none) :
    w.readText path = .error (.io ("failed to read ".toList ++ path) .notText) := by
  have hbytes : w.tree.readBytes w.directory path = .ok bytes :=
    mapError_eq_ok_iff.mp (readBytes_eq_ok_iff.mpr h)
  have hread : w.tree.readText w.directory path = .error .notText := by
    rw [Tree.readText, hbytes, bind_eq_error_iff]
    exact .inr ⟨bytes, rfl, by rw [htext]⟩
  rw [readText, hread]
  rfl

theorem holds_of_isFile (h : w.isFile path = true) : ∃ bytes, w.Holds path bytes := by
  obtain ⟨place, bytes, hfile⟩ := isFile_iff.mp h
  exact ⟨bytes, place, hfile⟩

theorem holds_of_locate (h : Settings.locate w testCase = some path) :
    ∃ bytes, w.Holds path bytes :=
  holds_of_isFile (List.find?_some h)

/-- A stage that looks for a file does not refuse if there is one. -/
theorem holds_of_not_refuses
    (h : ∀ fault, ¬ w.Refuses testCase stdin .testCase fault) :
    ∃ bytes, w.Holds testCase bytes := by
  by_contra hnone
  exact h _ (.testCase (not_exists.mp hnone))

end World

/-! ### The steps of a command line -/

namespace TestCase

/-- Reading a test case goes through three stages. -/
theorem load_eq_error_of_speaks
    (h : w.Speaks testCase stdin [.testCase, .text, .directives] fault) :
    load w testCase = .error fault := by
  simp only [World.speaks_cons_iff, World.not_speaks_nil, and_false, or_false] at h
  obtain hmissing | ⟨-, htext | ⟨-, hdirectives⟩⟩ := h
  · cases hmissing with
    | testCase hfile =>
      rw [load, World.require_of_not_holds hfile]
      rfl
  · cases htext with
    | text hfile htext =>
      rw [load, World.require_of_holds hfile, World.readText_of_not_text hfile htext]
      rfl
  · cases hdirectives with
    | directives hfile htext hparse =>
      obtain ⟨place, hhas⟩ := hfile
      rw [load_of_hasFile hhas htext, hparse]

theorem exists_load_of_admits
    (h : w.Admits testCase stdin [.testCase, .text, .directives]) :
    ∃ case, load w testCase = .ok case ∧ case.path = testCase := by
  simp only [World.admits_cons_iff] at h
  obtain ⟨hmissing, htext, hdirectives, -⟩ := h
  obtain ⟨bytes, hfile⟩ := World.holds_of_not_refuses hmissing
  cases hcontent : Utf8.decode? bytes with
  | none => exact absurd (.text hfile hcontent) (htext _)
  | some content =>
    cases hparse : Directive.parse content with
    | error m => exact absurd (.directives hfile hcontent hparse) (hdirectives _)
    | ok directives =>
      obtain ⟨place, hhas⟩ := hfile
      refine ⟨⟨testCase, content.lines, directives⟩, ?_, rfl⟩
      rw [load_of_hasFile hhas hcontent, hparse]

end TestCase

namespace Settings

/-- A configuration file is what its content means. -/
theorem load_of_holds {content : Text} (h : w.Holds path bytes)
    (htext : Utf8.decode? bytes = some content) :
    load w path = (ofContent (Path.extension path) content).mapError (.config path) := by
  rw [load, World.readText_of_holds h htext]
  rfl

theorem load_of_not_text (h : w.Holds path bytes) (htext : Utf8.decode? bytes = none) :
    load w path = .error (.io ("failed to read ".toList ++ path) .notText) := by
  rw [load, World.readText_of_not_text h htext]
  rfl

end Settings

namespace World

/-- What the configuration that applies to a test case makes of the defaults, if it can be loaded.
-/
theorem effective_of_locate (hlocate : Settings.locate w testCase = some path) (o : Overrides) :
    w.effective testCase o = (Settings.load w path >>= fun settings =>
      Effective.resolve w.environ (some (path, settings)) o) := by
  rw [effective, Settings.loadFor, hlocate]
  dsimp only
  cases Settings.load w path <;> rfl

/-- A configuration that is there and has a meaning is put below the command line. -/
theorem effective_of_settings {content : Text} {settings : Settings}
    (hlocate : Settings.locate w testCase = some path) (hfile : w.Holds path bytes)
    (htext : Utf8.decode? bytes = some content)
    (hcontent : Settings.ofContent (Path.extension path) content = .ok settings) (o : Overrides) :
    w.effective testCase o =
      ((Settings.expandAll w.environ settings.env).mapError (Fault.config path)).map fun env =>
        settings.effective env o := by
  rw [effective_of_locate hlocate, Settings.load_of_holds hfile htext, hcontent,
    ← Settings.resolve_eq_expandAll]
  rfl

/-- Making settings for a test case goes through two stages. -/
theorem effective_eq_error_of_speaks (h : w.Speaks testCase stdin [.settings, .expansion] fault)
    (o : Overrides) : w.effective testCase o = .error fault := by
  simp only [speaks_cons_iff, not_speaks_nil, and_false, or_false] at h
  obtain hsettings | ⟨-, hexpansion⟩ := h
  · cases hsettings with
    | settingsText hlocate hfile htext =>
      rw [effective_of_locate hlocate, Settings.load_of_not_text hfile htext]
      rfl
    | settings hlocate hfile htext hcontent =>
      rw [effective_of_locate hlocate, Settings.load_of_holds hfile htext, hcontent]
      rfl
  · cases hexpansion with
    | expansion hlocate hfile htext hcontent hexpand =>
      rw [effective_of_settings hlocate hfile htext hcontent, hexpand]
      rfl

theorem exists_effective_of_admits (h : w.Admits testCase stdin [.settings, .expansion])
    (o : Overrides) : ∃ settings, w.effective testCase o = .ok settings := by
  simp only [admits_cons_iff] at h
  obtain ⟨hsettings, hexpansion, -⟩ := h
  cases hlocate : Settings.locate w testCase with
  | none =>
    refine ⟨Settings.empty.effective .empty o, ?_⟩
    rw [effective, Settings.loadFor, hlocate]
    exact Effective.resolve_none w.environ o
  | some path =>
    obtain ⟨bytes, hfile⟩ := holds_of_locate hlocate
    cases htext : Utf8.decode? bytes with
    | none => exact absurd (.settingsText hlocate hfile htext) (hsettings _)
    | some content =>
      cases hcontent : Settings.ofContent (Path.extension path) content with
      | error problem => exact absurd (.settings hlocate hfile htext hcontent) (hsettings _)
      | ok settings =>
        cases hexpand : Settings.expandAll w.environ settings.env with
        | error problem =>
          exact absurd (.expansion hlocate hfile htext hcontent hexpand) (hexpansion _)
        | ok env =>
          refine ⟨settings.effective env o, ?_⟩
          rw [effective_of_settings hlocate hfile htext hcontent, hexpand]
          rfl

/-- A run alone goes through two stages before anything is started. -/
theorem launch_eq_error_of_speaks (h : w.Speaks testCase stdin InputStage.ofRun fault) (exe : Path)
    (o : RunOptions) : w.launch exe testCase stdin o = .error fault := by
  simp only [InputStage.ofRun, speaks_cons_iff, not_speaks_nil, and_false, or_false] at h
  obtain hmissing | ⟨hfound, hinput⟩ := h
  · cases hmissing with
    | testCase hfile =>
      rw [launch, require_of_not_holds hfile]
      rfl
  · obtain ⟨bytes, hfile⟩ := holds_of_not_refuses hfound
    cases hinput with
    | input hstdin hnone =>
      rw [launch, require_of_holds hfile, hstdin, Option.forM, require_of_not_holds hnone]
      rfl

theorem execute_eq_error_of_speaks (h : w.Speaks testCase stdin InputStage.ofRun fault) (exe : Path)
    (o : RunOptions) : w.execute exe testCase stdin o = some (.error fault) := by
  rw [execute, launch_eq_error_of_speaks h exe o]
  rfl

/-- A command line goes through all the stages: those of reading the test case, then those of making
settings for it, and then those of the run. -/
theorem verdict_eq_error_of_speaks {i : Invocation}
    (h : w.Speaks i.testCase i.stdin InputStage.ofCommandLine fault) :
    w.verdict i = some (.error fault) := by
  have hsplit : InputStage.ofCommandLine =
      [.testCase, .text, .directives] ++ ([.settings, .expansion] ++ [.input]) := rfl
  rw [hsplit, speaks_append_iff, speaks_append_iff] at h
  rw [verdict]
  obtain hread | ⟨hread, hbehind⟩ := h
  · rw [TestCase.load_eq_error_of_speaks hread, Execution.proceed_error]
  obtain ⟨case, hcase, hpath⟩ := TestCase.exists_load_of_admits hread
  rw [hcase, Execution.proceed_ok]
  obtain hmake | ⟨hmake, hrun⟩ := hbehind
  · rw [effective_eq_error_of_speaks hmake, Execution.proceed_error]
  obtain ⟨settings, hsettings⟩ := exists_effective_of_admits hmake ⟨i.timeout, i.separateStderr⟩
  -- That the test case is a file is asked for again by the run.
  have hrefused : w.Speaks case.path i.stdin InputStage.ofRun fault := by
    rw [hpath, InputStage.ofRun, speaks_cons_iff]
    exact .inr ⟨(admits_cons_iff.mp hread).1, hrun⟩
  rw [hsettings, Execution.proceed_ok, execute_eq_error_of_speaks hrefused]
  rfl

/-! ### Worlds that hold the same -/

/-- Two worlds hold the same for everything that some stages look at. -/
structure SameInputs (stages : List InputStage) (testCase : Path) (stdin : Option Path)
    (w w' : World) : Prop where
  files : ∀ stage ∈ stages, ∀ path ∈ stage.reads testCase stdin, ∀ bytes,
    w.Holds path bytes ↔ w'.Holds path bytes
  environ : .expansion ∈ stages → w.environ = w'.environ

theorem SameInputs.symm (h : SameInputs stages testCase stdin w w') :
    SameInputs stages testCase stdin w' w where
  files stage hstage path hpath bytes := (h.files stage hstage path hpath bytes).symm
  environ hstage := (h.environ hstage).symm

/-- Worlds of which the same can be read at every path hold the same. -/
theorem SameInputs.of_readBytes (henviron : w.environ = w'.environ)
    (hread : ∀ stage ∈ stages, ∀ path ∈ stage.reads testCase stdin,
      w.readBytes path = w'.readBytes path) :
    SameInputs stages testCase stdin w w' where
  files stage hstage path hpath bytes := by
    rw [Holds, Holds, ← readBytes_eq_ok_iff, ← readBytes_eq_ok_iff, hread stage hstage path hpath]
  environ _ := henviron

/-- The configuration lies at the same place if the same files are beside the test case. -/
theorem locate_congr (h : ∀ path ∈ Settings.candidates testCase, ∀ bytes,
    w.Holds path bytes ↔ w'.Holds path bytes) :
    Settings.locate w testCase = Settings.locate w' testCase := by
  apply List.find?_congr
  intro path hpath
  rw [Bool.eq_iff_iff, isFile_iff, isFile_iff, exists_comm, exists_comm (α := Location)]
  exact exists_congr fun bytes => h path hpath bytes

theorem mem_candidates_of_locate (h : Settings.locate w testCase = some path) :
    path ∈ Settings.candidates testCase :=
  List.mem_of_find?_eq_some h

/-- A stage refuses the same in worlds that hold the same for it. -/
theorem SameInputs.refuses (hsame : SameInputs stages testCase stdin w w') (hstage : stage ∈ stages)
    (h : w.Refuses testCase stdin stage fault) : w'.Refuses testCase stdin stage fault := by
  have hfiles := hsame.files stage hstage
  cases h with
  | testCase hfile =>
    have hmem : testCase ∈ InputStage.testCase.reads testCase stdin := List.mem_singleton.mpr rfl
    exact .testCase fun bytes => (hfiles testCase hmem bytes).not.mp (hfile bytes)
  | text hfile htext =>
    have hmem : testCase ∈ InputStage.text.reads testCase stdin := List.mem_singleton.mpr rfl
    exact .text ((hfiles testCase hmem _).mp hfile) htext
  | directives hfile htext hparse =>
    have hmem : testCase ∈ InputStage.directives.reads testCase stdin := List.mem_singleton.mpr rfl
    exact .directives ((hfiles testCase hmem _).mp hfile) htext hparse
  | settingsText hlocate hfile htext =>
    have hmem := mem_candidates_of_locate hlocate
    exact .settingsText (locate_congr hfiles ▸ hlocate) ((hfiles _ hmem _).mp hfile) htext
  | settings hlocate hfile htext hcontent =>
    have hmem := mem_candidates_of_locate hlocate
    exact .settings (locate_congr hfiles ▸ hlocate) ((hfiles _ hmem _).mp hfile) htext hcontent
  | expansion hlocate hfile htext hcontent hexpand =>
    have hmem := mem_candidates_of_locate hlocate
    rw [hsame.environ hstage] at hexpand
    exact .expansion (locate_congr hfiles ▸ hlocate) ((hfiles _ hmem _).mp hfile) htext hcontent
      hexpand
  | input hstdin hfile =>
    have hmem := Option.mem_toList.mpr hstdin
    exact .input hstdin fun bytes => (hfiles _ hmem bytes).not.mp (hfile bytes)

/-- The same stage speaks, and says the same. -/
theorem SameInputs.speaks (hsame : SameInputs stages testCase stdin w w')
    (h : w.Speaks testCase stdin stages fault) : w'.Speaks testCase stdin stages fault := by
  obtain ⟨before, stage, after, hsplit, hbefore, hrefuses⟩ := h
  have hstage : stage ∈ stages := by simp [hsplit]
  refine ⟨before, stage, after, hsplit, fun first hfirst other hother => ?_,
    hsame.refuses hstage hrefuses⟩
  have hmem : first ∈ stages := by simp [hsplit, hfirst]
  exact hbefore first hfirst other (hsame.symm.refuses hmem hother)

end World

/-- The content of a node; a directory has none. -/
def Node.content? : Node → Option Bytes
  | directory => none
  | file content _ => some content

/-- Two trees have the same directories, and the same files with the same contents. What a file does
when it is run may differ. -/
def Tree.SameContents (t t' : Tree) : Prop :=
  ∀ l, (t.node? l).map Node.content? = (t'.node? l).map Node.content?

namespace Tree.SameContents

variable {t t' : Tree} {l : Location}

theorem symm (h : t.SameContents t') : t'.SameContents t :=
  fun l => (h l).symm

/-- The same stands at a location in both trees. -/
theorem cases (h : t.SameContents t') (l : Location) :
    (t.node? l = none ∧ t'.node? l = none) ∨
    (t.node? l = some .directory ∧ t'.node? l = some .directory) ∨
    ∃ content kind kind', t.node? l = some (.file content kind) ∧
      t'.node? l = some (.file content kind') := by
  have hl := h l
  cases hnode : t.node? l with
  | none =>
    rw [hnode, Option.map_none, eq_comm, Option.map_eq_none_iff] at hl
    exact .inl ⟨rfl, hl⟩
  | some node =>
    rw [hnode, Option.map_some, eq_comm, Option.map_eq_some_iff] at hl
    obtain ⟨node', hnode', hcontent⟩ := hl
    cases node <;> cases node' <;> simp_all [Node.content?]

theorem outline (h : t.SameContents t') : t.SameOutline t' := by
  intro l
  obtain ⟨hnone, hnone'⟩ | ⟨hdir, hdir'⟩ | ⟨_, _, _, hfile, hfile'⟩ := h.cases l
  · rw [hnone, hnone']
  · rw [hdir, hdir']
  · rw [hfile, hfile']
    rfl

theorem exists_file (h : t.SameContents t') {content : Bytes}
    (hfile : ∃ kind, t.node? l = some (.file content kind)) :
    ∃ kind, t'.node? l = some (.file content kind) := by
  obtain ⟨kind, hnode⟩ := hfile
  obtain ⟨hnone, -⟩ | ⟨hdir, -⟩ | ⟨other, _, kind', hfile, hfile'⟩ := h.cases l
  · simp [hnone] at hnode
  · simp [hdir] at hnode
  · obtain ⟨rfl, -⟩ := Node.file.inj (Option.some.inj (hfile.symm.trans hnode))
    exact ⟨kind', hfile'⟩

end Tree.SameContents

namespace World

/-- What files do when they are run is not looked at. -/
theorem sameInputs_of_sameContents (htree : w.tree.SameContents w'.tree)
    (hdirectory : w.directory = w'.directory) (henviron : w.environ = w'.environ) :
    SameInputs stages testCase stdin w w' where
  files stage _ path _ bytes := by
    refine exists_congr fun place => and_congr ?_ ⟨htree.exists_file, htree.symm.exists_file⟩
    rw [htree.outline.locate_eq, hdirectory]
  environ _ := henviron

/-! ### The answer -/

/-- **The first refusal is the answer.** If any stage refuses, there is a first one that does, and
it speaks. A command line that is refused is answered with exit code one and the message of that
first refusal, whatever the later stages would say. The answer is the same in every world that holds
the same files for the stages, for every executable, there or not, for everything that it would do,
and for all options of the command line. A run alone is refused in the same way by its own two
stages, before anything is launched. In particular, worlds hold the same for the stages if they
differ only in what their files and programs do when they are run. -/
theorem first_refusal_speaks (w : World) :
    (∀ testCase stdin stages,
      w.Admits testCase stdin stages ∨ ∃ fault, w.Speaks testCase stdin stages fault) ∧
    (∀ arguments i fault, CommandLine.read arguments = .run i →
      w.Speaks i.testCase i.stdin InputStage.ofCommandLine fault →
        w.report arguments = some (.fault fault) ∧
        (w.report arguments).map Report.exitCode = some 1 ∧
        (w.report arguments).map Report.output = some (fault.message ++ ['\n']) ∧
        ∀ w' arguments' i', SameInputs InputStage.ofCommandLine i.testCase i.stdin w w' →
          CommandLine.read arguments' = .run i' → i'.testCase = i.testCase → i'.stdin = i.stdin →
          w'.report arguments' = w.report arguments) ∧
    (∀ testCase stdin fault, w.Speaks testCase stdin InputStage.ofRun fault →
      ∀ w', SameInputs InputStage.ofRun testCase stdin w w' → ∀ exe o,
        w'.launch exe testCase stdin o = .error fault ∧
          w'.execute exe testCase stdin o = some (.error fault)) ∧
    ∀ w', w.tree.SameContents w'.tree → w.directory = w'.directory → w.environ = w'.environ →
      ∀ stages testCase stdin, SameInputs stages testCase stdin w w' := by
  have hreport {w' : World} {arguments : List Text} {i : Invocation} {fault : Fault}
      (hread : CommandLine.read arguments = .run i)
      (h : w'.Speaks i.testCase i.stdin InputStage.ofCommandLine fault) :
      w'.report arguments = some (.fault fault) := by
    rw [report, hread]
    dsimp only
    rw [verdict_eq_error_of_speaks h]
    rfl
  refine ⟨w.admits_or_exists_speaks, ?_, ?_, ?_⟩
  · intro arguments i fault hread hspeaks
    have hanswer := hreport hread hspeaks
    refine ⟨hanswer, by rw [hanswer]; rfl, by rw [hanswer]; rfl, ?_⟩
    intro w' arguments' i' hsame hread' hcase hstdin
    rw [hanswer]
    apply hreport hread'
    rw [hcase, hstdin]
    exact hsame.speaks hspeaks
  · intro testCase stdin fault hspeaks w' hsame exe o
    have hspeaks' := hsame.speaks hspeaks
    exact ⟨launch_eq_error_of_speaks hspeaks' exe o, execute_eq_error_of_speaks hspeaks' exe o⟩
  · intro w' htree hdirectory henviron stages testCase stdin
    exact sameInputs_of_sameContents htree hdirectory henviron

/-- A directory in which everything is wrong: the exit line of the test case `c` is malformed, the
configuration is no text, there is no file for the input, and the tool `t` hangs. -/
def wrong : World where
  tree := ⟨[([['c']], .file (Utf8.encode "# EXIT x\n".toList) .plain),
    (["checkrun.yaml".toList], .file [0xff] .plain), ([['t']], .file [] (.scripted [.hang]))]⟩
  directory := []
  environ := []
  programs := .unknown

/-- The same directory without the tool. -/
def toolless : World where
  tree := wrong.tree.remove [['t']]
  directory := []
  environ := []
  programs := .unknown

/-- The malformed line speaks in both, whatever tool is named and whether a limit is set. A run
alone does not look at that line, and misses the file for the input. -/
theorem first_refusal_speaks_wrong :
    wrong.report [['t'], ['c'], ['i']] = some (.fault (.malformedDirective 1 ['x'])) ∧
      toolless.report ["--timeout=0".toList, ['o'], ['c'], ['i']] =
        wrong.report [['t'], ['c'], ['i']] ∧
      ∀ exe o, toolless.execute exe ['c'] (some ['i']) o =
        some (.error (.inputNotFound ['i'])) := by
  have hread : CommandLine.read [['t'], ['c'], ['i']] =
      .run ⟨['t'], ['c'], some ['i'], none, false, false⟩ := by decide
  have hread' : CommandLine.read ["--timeout=0".toList, ['o'], ['c'], ['i']] =
      .run ⟨['o'], ['c'], some ['i'], some 0, false, false⟩ := by decide
  have henviron : wrong.environ = toolless.environ := rfl
  have hsame (stages : List InputStage) : SameInputs stages ['c'] (some ['i']) wrong toolless := by
    apply SameInputs.of_readBytes henviron
    intro stage _
    cases stage <;> decide +kernel
  have hcase : wrong.Holds ['c'] (Utf8.encode "# EXIT x\n".toList) :=
    readBytes_eq_ok_iff.mp (by decide +kernel)
  have hnone : ∀ bytes, ¬ wrong.Holds ['i'] bytes := by
    intro bytes hholds
    have hmissing : wrong.readBytes ['i'] = .error (.unreadable ['i'] .noSuchFile) := by
      decide +kernel
    simp [readBytes_eq_ok_iff.mpr hholds] at hmissing
  have hfound : ∀ fault, ¬ wrong.Refuses ['c'] (some ['i']) .testCase fault := by
    intro fault hrefuses
    cases hrefuses with
    | testCase hfile => exact hfile _ hcase
  have htext : Utf8.decode? (Utf8.encode "# EXIT x\n".toList) = some "# EXIT x\n".toList := by
    decide +kernel
  have hlegible : ∀ fault, ¬ wrong.Refuses ['c'] (some ['i']) .text fault := by
    intro fault hrefuses
    cases hrefuses with
    | text hfile hdecode =>
      obtain ⟨place, hhas⟩ := hcase
      obtain ⟨place', hhas'⟩ := hfile
      rw [← (hhas.unique hhas').2, htext] at hdecode
      simp at hdecode
  have hspeaks : wrong.Speaks ['c'] (some ['i']) InputStage.ofCommandLine
      (.malformedDirective 1 ['x']) := by
    rw [InputStage.ofCommandLine, speaks_cons_iff, speaks_cons_iff, speaks_cons_iff]
    have hparse : Directive.parse "# EXIT x\n".toList = .error ⟨1, ['x']⟩ := by decide
    exact .inr ⟨hfound, .inr ⟨hlegible, .inl (.directives hcase htext hparse)⟩⟩
  have hspeaks' : wrong.Speaks ['c'] (some ['i']) InputStage.ofRun (.inputNotFound ['i']) := by
    rw [InputStage.ofRun, speaks_cons_iff, speaks_cons_iff]
    exact .inr ⟨hfound, .inl (.input rfl hnone)⟩
  obtain ⟨-, hline, hrun, -⟩ := first_refusal_speaks wrong
  obtain ⟨hanswer, -, -, hother⟩ := hline _ _ _ hread hspeaks
  refine ⟨hanswer, hother toolless _ _ (hsame _) hread' rfl rfl, fun exe o => ?_⟩
  exact (hrun _ _ _ hspeaks' toolless (hsame _) exe o).2

end World

end Golden
