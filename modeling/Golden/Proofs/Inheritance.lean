import Golden.Proofs.LineByLine
import Golden.Proofs.Naming
import Golden.Proofs.PassingRun
import Golden.Proofs.Resolution
import Golden.Proofs.Walk

/-!
# What a subject sees of the environment

The environment of a subject is a list of entries, in front those that are configured and behind
them those of the runner if they are inherited. A variable has the value of the first entry that
begins with its name and an equals sign. As no character of more bytes has that of an equals sign
among them, and no name holds one, that is the entry of its name and no other: a configured value is
seen as it is, and hides what the runner has under the same name. This is so for a subject that acts
by a script and for any other executable, which gets the same environment.

## Main definitions

* `Execution.seen` — what a subject is to see under a name
* `Execution.SceneFor` — the scene that a subject is to be in
* `Variables.IsPlain`, `Variables.HoldsNul` — what can be handed to a program, and what cannot

## Main results

* `Utf8.mem_encode_iff` — a byte that is a character stands for that character alone
* `Environment.after?_entry_eq_some_iff` — an entry has the value of its name alone
* `Execution.bytes?_environment` — what the environment of a subject has under a name
* `World.subject_sees_settings` — what a subject sees in a run, and when there is none
-/

namespace Golden

open Stage

variable {text name key : Text} {b : UInt8} {c : Char} {v : Variables} {environ : Environment}

namespace Utf8

/-- The bytes of a character that has more than one are above those that are characters by
themselves. -/
theorem le_toNat_of_mem_utf8EncodeChar (hc : 0x80 ≤ c.toNat) (h : b ∈ String.utf8EncodeChar c) :
    0x80 ≤ b.toNat := by
  have hhigh (n : Nat) (hlow : 0x80 ≤ n) (hn : n < 256) (hb : b = UInt8.ofNat n) :
      0x80 ≤ b.toNat := by
    rw [hb, UInt8.toNat_ofNat_of_lt' hn]
    exact hlow
  have hvalue : c.val.toNat = c.toNat := rfl
  rw [String.utf8EncodeChar, if_neg (by omega)] at h
  split_ifs at h <;> simp only [List.mem_cons, List.not_mem_nil, or_false] at h
  · rcases h with h | h <;> exact hhigh _ (by omega) (by omega) h
  · rcases h with h | h | h <;> exact hhigh _ (by omega) (by omega) h
  · rcases h with h | h | h | h <;> exact hhigh _ (by omega) (by omega) h

/-- A byte that is a character by itself stands for that character alone. -/
theorem mem_utf8EncodeChar_iff (h : IsAscii b) : b ∈ String.utf8EncodeChar c ↔ c = ascii b := by
  constructor
  · intro hmem
    by_cases hone : c.val.toNat ≤ 0x7f
    · rw [String.utf8EncodeChar, if_pos hone, List.mem_singleton] at hmem
      have hvalue : c.val.toNat = c.toNat := rfl
      rw [hmem, ascii, UInt8.toNat_ofNat_of_lt' (Nat.lt_of_le_of_lt hone (by decide)), hvalue,
        Char.ofNat_toNat]
    · have hlow : b.toNat < 0x80 := h
      have hhigh := le_toNat_of_mem_utf8EncodeChar (Nat.lt_of_not_le hone) hmem
      omega
  · intro heq
    have hvalue : c.val.toNat = b.toNat := by
      rw [← toNat_ascii h, ← heq]
      rfl
    have hone : b.toNat ≤ 0x7f := Nat.le_of_lt_succ h
    rw [String.utf8EncodeChar, hvalue, if_pos hone, UInt8.ofNat_toNat]
    exact List.mem_singleton_self b

/-- Such a byte is among those of a text exactly if its character is in the text. -/
theorem mem_encode_iff (h : IsAscii b) : b ∈ encode text ↔ ascii b ∈ text := by
  simp only [encode, List.mem_flatMap, mem_utf8EncodeChar_iff h, exists_eq_right]

theorem encode_append (text more : Text) : encode (text ++ more) = encode text ++ encode more :=
  List.flatMap_append

end Utf8

namespace Environment

/-- The byte that ends the name in an entry. -/
def equals : UInt8 := 0x3d

theorem entry_eq (name : Text) (value : Bytes) :
    entry name value = Utf8.encode name ++ equals :: value := by
  rw [entry, Utf8.encode_append, List.append_assoc]
  rfl

theorem equals_not_mem_encode (h : '=' ∉ name) : equals ∉ Utf8.encode name := by
  rwa [Utf8.mem_encode_iff (by decide)]

/-- An entry of a name has the value of that name alone, for the first equals sign ends the name. -/
theorem after?_entry_eq_some_iff {value x : Bytes} (hname : '=' ∉ name) (hkey : '=' ∉ key) :
    after? (entry name []) (entry key value) = some x ↔ key = name ∧ value = x := by
  rw [after?_eq_some_iff, entry_eq, entry_eq, List.append_assoc]
  constructor
  · intro h
    obtain ⟨hsame, hvalue⟩ := Lines.append_cons_inj (equals_not_mem_encode hkey)
      (equals_not_mem_encode hname) h
    exact ⟨Utf8.encode_injective hsame, hvalue⟩
  · intro h
    obtain ⟨rfl, rfl⟩ := h
    rfl

/-- What is configured goes before what is inherited. -/
theorem bytes?_append (e e' : Environment) (name : Text) :
    (e ++ e').bytes? name = (e.bytes? name).or (e'.bytes? name) := by
  simp only [bytes?, List.findSome?_append]
  split <;> rfl

theorem bytes?_nil_name (e : Environment) : e.bytes? [] = none :=
  if_pos rfl

theorem bytes?_cons {value : Bytes} (hname : '=' ∉ name) (hne : name ≠ []) (hkey : '=' ∉ key)
    (e : Environment) :
    bytes? ((key, value) :: e) name = if name = key then some value else e.bytes? name := by
  rw [bytes?, bytes?, if_neg hne, if_neg hne, List.findSome?_cons]
  by_cases hsame : name = key
  · rw [if_pos hsame, (after?_entry_eq_some_iff hname hkey).mpr ⟨hsame.symm, rfl⟩]
  · have hnone : after? (entry name []) (entry key value) = none := by
      rw [Option.eq_none_iff_forall_ne_some]
      intro x hx
      exact hsame ((after?_entry_eq_some_iff hname hkey).mp hx).1.symm
    rw [if_neg hsame, hnone]

/-- Texts under names are found in an environment that they make as they were stored. -/
theorem bytes?_map_encode {entries : List (Text × Text)} (hname : '=' ∉ name) (hne : name ≠ [])
    (h : ∀ e ∈ entries, '=' ∉ e.1) :
    bytes? (entries.map fun e => (e.1, Utf8.encode e.2)) name =
      (entries.lookup name).map Utf8.encode := by
  induction entries with
  | nil => exact if_neg hne
  | cons e rest ih =>
    obtain ⟨hkey, hrest⟩ := List.forall_mem_cons.mp h
    rw [List.map_cons, bytes?_cons hname hne hkey, ih hrest, List.lookup_cons]
    by_cases hsame : name = e.1
    · rw [if_pos hsame, beq_iff_eq.mpr hsame, Option.map_some]
    · rw [if_neg hsame, beq_eq_false_iff_ne.mpr hsame]

/-- What can be in the environment of a process: the byte that ends an entry is in none. -/
def IsPlain (e : Environment) : Prop :=
  ∀ v ∈ e, '\x00' ∉ v.1 ∧ 0 ∉ v.2

end Environment

namespace Variables

/-- The names and values can be handed to a program as they are. -/
def IsPlain (v : Variables) : Prop :=
  ∀ e ∈ v.entries, '=' ∉ e.1 ∧ '\x00' ∉ e.1 ∧ '\x00' ∉ e.2

/-- A name or a value cannot be handed to a program at all. -/
def HoldsNul (v : Variables) : Prop :=
  ∃ e ∈ v.entries, '\x00' ∈ e.1 ∨ '\x00' ∈ e.2

end Variables

namespace Execution

/-- What a subject is to see under a name: the configured value, or else what the runner has there
if that is inherited. There is nothing to see without a name. -/
def seen (environ : Environment) (inherits : Bool) (env : Variables) (name : Text) : Option Bytes :=
  if name = [] then none
  else ((env.value? name).map Utf8.encode).or (if inherits then environ.bytes? name else none)

/-- The environment of the subject has the value that is to be seen under every name. -/
theorem bytes?_environment {o : RunOptions} (h : ∀ e ∈ o.env.entries, '=' ∉ e.1)
    (hname : '=' ∉ name) :
    (environment environ o).bytes? name = seen environ o.inheritEnv o.env name := by
  rw [seen]
  by_cases hne : name = []
  · rw [if_pos hne, hne, Environment.bytes?_nil_name]
  · rw [if_neg hne, environment, Environment.bytes?_append,
      Environment.bytes?_map_encode hname hne h, Variables.value?]
    cases o.inheritEnv with
    | false => exact congrArg _ (if_neg hne)
    | true => rfl

/-- A scene is the one that the subject is to be in: it gets the name of the test case's file, is in
the directory of that file, reads the input, and sees the environment that holds for it. -/
structure SceneFor (environ : Environment) (o : RunOptions) (place : Location) (input : Bytes)
    (scene : Scene) : Prop where
  arguments : scene.arguments = place.getLast?.toList
  directory : scene.directory = Location.path place.dropLast
  input : scene.input = input
  value? : ∀ name, '=' ∉ name → scene.value? name = seen environ o.inheritEnv o.env name

theorem sceneFor_orderAt {o : RunOptions} {place : Location} {input : Bytes}
    (h : ∀ e ∈ o.env.entries, '=' ∉ e.1) :
    SceneFor environ o place input (orderAt place input (environment environ o)).scene where
  arguments := rfl
  directory := rfl
  input := rfl
  value? _ hname := bytes?_environment h hname

theorem isPlain_environment {o : RunOptions} (henv : o.env.IsPlain) (henviron : environ.IsPlain) :
    (environment environ o).IsPlain := by
  intro v hv
  obtain hconfigured | hinherited := List.mem_append.mp hv
  · obtain ⟨e, he, rfl⟩ := List.mem_map.mp hconfigured
    obtain ⟨-, hkey, hvalue⟩ := henv e he
    exact ⟨hkey, (Utf8.mem_encode_iff (by decide)).not.mpr hvalue⟩
  · cases hinherits : o.inheritEnv with
    | false => simp [hinherits] at hinherited
    | true => exact henviron v (by simpa [hinherits] using hinherited)

/-- The environment of the subject holds what cannot be handed to it if a variable does. -/
theorem not_isPlain_environment {o : RunOptions} (h : o.env.HoldsNul) (environ : Environment) :
    ¬ (environment environ o).IsPlain := by
  obtain ⟨e, he, hnul⟩ := h
  intro hplain
  have hmem : (e.1, Utf8.encode e.2) ∈ environment environ o :=
    List.mem_append_left _ (List.mem_map.mpr ⟨e, he, rfl⟩)
  obtain ⟨hkey, hvalue⟩ := hplain _ hmem
  obtain hnul | hnul := hnul
  · exact hkey hnul
  · exact hvalue ((Utf8.mem_encode_iff (by decide)).mpr hnul)

end Execution

namespace Launch.Order

/-- An order can be handed over if nothing in it holds what ends a text for the system. -/
theorem isSound_iff {o : Order} :
    o.isSound = true ↔ (∀ a ∈ o.arguments, '\x00' ∉ a) ∧ o.environ.IsPlain := by
  rw [isSound, Bool.and_eq_true, List.all_eq_true, List.all_eq_true]
  apply and_congr
  · simp only [isPlain, decide_eq_true_eq]
  · simp only [isPlain, Bool.and_eq_true, decide_eq_true_eq, List.all_eq_true, ne_eq,
      List.forall_mem_ne', Environment.IsPlain]

end Launch.Order

namespace Tree

/-- A path does not lead to names that hold what ends a text for the system, unless it is followed
from among such names. -/
theorem nul_not_mem_of_locate {t : Tree} {cwd place : Location} {path : Path}
    (h : t.locate cwd path = .ok place) (hcwd : ∀ name ∈ cwd, '\x00' ∉ name) :
    ∀ name ∈ place, '\x00' ∉ name := by
  obtain ⟨hnul, -, -, hwalk⟩ := locate_eq_ok_iff.mp h
  intro name hname hmem
  obtain hstart | hpiece := mem_of_walk hwalk hname
  · rw [start] at hstart
    split_ifs at hstart
    · exact List.not_mem_nil hstart
    · exact hcwd name hstart hmem
  · exact hnul (Path.subset_of_mem_pieces hpiece hmem)

end Tree

deriving instance DecidableEq for Settings

namespace World

open Execution

variable {w : World} {exe testCase : Path} {stdin : Option Path} {place : Location}
  {content input : Bytes} {program : Path} {o : RunOptions}

/-- The subject is started with what is to be, if everything can be handed to it. -/
theorem exists_sceneFor (hdirectory : ∀ name ∈ w.directory, '\x00' ∉ name)
    (henviron : w.environ.IsPlain) (hcase : w.HasFile testCase place content)
    (hinput : w.HasInput stdin input)
    (hprogram : Path.absolute w.directory.path exe = some program) (henv : o.env.IsPlain) :
    ∃ order : Launch.Order, SceneFor w.environ o place input order.scene ∧
      order.directory = place.dropLast ∧
      w.launch exe testCase stdin o =
        (Launch.start w.programs w.tree order program).mapError (Fault.launch program) := by
  have hsound : (orderAt place input (environment w.environ o)).isSound = true := by
    rw [Launch.Order.isSound_iff]
    refine ⟨fun name hname => ?_, isPlain_environment henv henviron⟩
    have hlast : name ∈ place := List.mem_of_getLast? (Option.mem_toList.mp hname)
    exact Tree.nul_not_mem_of_locate hcase.1 hdirectory name hlast
  refine ⟨_, sceneFor_orderAt fun e he => (henv e he).1, rfl, ?_⟩
  rw [launch_eq_run hcase hinput hprogram, Launch.run_of_isSound hsound]

/-- Nothing is started where something cannot be handed over. -/
theorem launch_of_holdsNul (hcase : w.HasFile testCase place content)
    (hinput : w.HasInput stdin input)
    (hprogram : Path.absolute w.directory.path exe = some program) (henv : o.env.HoldsNul) :
    w.launch exe testCase stdin o = .error (.launch program .nulInData) := by
  have hsound : (orderAt place input (environment w.environ o)).isSound = false := by
    rw [← Bool.not_eq_true, Launch.Order.isSound_iff]
    intro h
    exact not_isPlain_environment henv w.environ h.2
  rw [launch_eq_run hcase hinput hprogram, Launch.run_of_not_isSound hsound]
  rfl

/-- Behind the test case and its settings, the verdict is about the outcome of the run. -/
theorem verdict_eq_map_execute {i : Invocation} {case : TestCase} {settings : Settings}
    {env : Variables} (hload : TestCase.load w i.testCase = .ok case)
    (hsettings : w.Configured i.testCase settings)
    (henv : Settings.expandAll w.environ settings.env = .ok env) :
    w.verdict i = (w.execute i.executable i.testCase i.stdin
      (settings.effective env i.overrides).runOptions).map
        (·.map (Verdict.judge case.directives)) := by
  have heffective : w.effective i.testCase i.overrides = .ok (settings.effective env i.overrides) :=
    effective_eq_ok_iff.mpr ⟨settings, env, hsettings, henv, rfl⟩
  have hpath : case.path = i.testCase := by
    obtain ⟨-, -, -, -, -, -, -, rfl⟩ := TestCase.load_eq_ok_iff.mp hload
    rfl
  rw [verdict, ← Invocation.overrides.eq_1, hload, Execution.proceed_ok, heffective,
    Execution.proceed_ok, hpath]

/-- **A subject sees its settings, and nothing else of the environment.** Once the test case and the
input are known to be regular files, the subject is started with an environment in which every name
that an entry can have stands for the configured value, or else for what the runner has there if
that is inherited, or else for nothing; a subject that acts by a script plays it in that scene. If a
configured name or value holds what ends a text for the system, then there is no run, and the fault
says so. A command line runs the subject like that with the variables of the configuration after
they are resolved in the environment of the runner, which is inherited unless the configuration says
otherwise; whether it is has no say in what they resolve to. -/
theorem subject_sees_settings (w : World) (i : Invocation)
    (hdirectory : ∀ name ∈ w.directory, '\x00' ∉ name) (henviron : w.environ.IsPlain)
    (hcase : w.HasFile i.testCase place content) (hinput : w.HasInput i.stdin input)
    (hprogram : Path.absolute w.directory.path i.executable = some program) :
    (∀ o : RunOptions, o.env.IsPlain → ∃ order : Launch.Order,
      SceneFor w.environ o place input order.scene ∧ order.directory = place.dropLast ∧
      w.execute i.executable i.testCase i.stdin o =
        proceed ((Launch.start w.programs w.tree order program).mapError (Fault.launch program))
          (outcome o) ∧
      ∀ script, w.tree.kind place.dropLast program = .ok (some (.scripted script)) →
        w.execute i.executable i.testCase i.stdin o =
          outcome o (Script.run order.scene script)) ∧
    (∀ o : RunOptions, o.env.HoldsNul →
      (∀ run, w.launch i.executable i.testCase i.stdin o ≠ .ok run) ∧
      w.execute i.executable i.testCase i.stdin o =
        some (.error (.launch program .nulInData))) ∧
    (Fault.launch program .nulInData).message =
      "failed to launch ".toList ++ program ++ ": nul byte found in provided data".toList ∧
    ∀ arguments case settings env, CommandLine.read arguments = .run i →
      TestCase.load w i.testCase = .ok case → w.Configured i.testCase settings →
      Settings.expandAll w.environ settings.env = .ok env →
        (∀ name, (env.value? name).isSome ↔ (settings.env.value? name).isSome) ∧
        ∃ o : RunOptions, o.env = env ∧ o.inheritEnv = settings.inheritEnv.getD true ∧
          w.verdict i = (w.execute i.executable i.testCase i.stdin o).map
            (·.map (Verdict.judge case.directives)) ∧
          (env.HoldsNul → w.report arguments = some (.fault (.launch program .nulInData))) := by
  have hnul (o : RunOptions) (henv : o.env.HoldsNul) :
      w.execute i.executable i.testCase i.stdin o =
        some (.error (.launch program .nulInData)) := by
    rw [execute, launch_of_holdsNul hcase hinput hprogram henv, proceed_error]
  refine ⟨fun o henv => ?_, fun o henv => ⟨fun run => ?_, hnul o henv⟩, ?_, ?_⟩
  · obtain ⟨order, hscene, hwhere, hlaunch⟩ :=
      exists_sceneFor hdirectory henviron hcase hinput hprogram henv
    have hexecute : w.execute i.executable i.testCase i.stdin o =
        proceed ((Launch.start w.programs w.tree order program).mapError (Fault.launch program))
          (outcome o) := by
      rw [execute, hlaunch]
    refine ⟨order, hscene, hwhere, hexecute, fun script hscript => ?_⟩
    rw [← hwhere] at hscript
    rw [hexecute, Launch.start_of_scripted hscript]
    rfl
  · rw [launch_of_holdsNul hcase hinput hprogram henv]
    intro hrun
    cases hrun
  · have hwording : ": nul byte found in provided data".toList =
        ": ".toList ++ Cause.nulInData.message := rfl
    rw [hwording, ← List.append_assoc]
    rfl
  · intro arguments case settings env hread hload hsettings henv
    have hverdict := verdict_eq_map_execute hload hsettings henv
    refine ⟨(Settings.expandAll_eq_ok_iff.mp henv).names,
      (settings.effective env i.overrides).runOptions, rfl, rfl, hverdict, fun hholds => ?_⟩
    rw [hnul _ hholds] at hverdict
    rw [report, hread]
    dsimp only
    rw [hverdict]
    rfl

/-- A tool that shows two variables. -/
def showing : Script := [.showVariable ['A'], .showVariable ['H']]

/-- What the test case of the tool wants to see. -/
def shown : Text := "# CHECK: A=h\n# CHECK: H=<unset>\n".toList

/-- What the configuration says: a variable is taken from the environment, the rest of it hidden. -/
def sheltering : Settings :=
  ⟨none, none, some false, .ofList [(['A'], "$\x7bH\x7d".toList)]⟩

/-- A directory with that tool `t`, its test case `c` and the configuration. -/
def sheltered : World where
  tree := ⟨[([['c']], .file (Utf8.encode shown) .plain),
    (["checkrun.yaml".toList],
      .file (Utf8.encode "inherit_env: false\nenv: \x7bA: \"$\x7bH\x7d\"\x7d\n".toList) .plain),
    ([['t']], .file [] (.scripted showing))]⟩
  directory := []
  environ := [(['H'], [0x68]), (['A'], [0x78])]
  programs := .unknown

/-- The tool sees the resolved variable, and not the one from which it was made; if a value cannot be
handed to it, it does not run. -/
theorem subject_sees_settings_sheltered :
    sheltered.environ.IsPlain ∧ sheltered.HasFile ['c'] [['c']] (Utf8.encode shown) ∧
      sheltered.HasInput none [] ∧
      Path.absolute (Location.path sheltered.directory) ['t'] = some "/t".toList ∧
      CommandLine.read [['t'], ['c']] = .run ⟨['t'], ['c'], none, none, false, false⟩ ∧
      sheltered.Configured ['c'] sheltering ∧
      Settings.expandAll sheltered.environ sheltering.env = .ok (.ofList [(['A'], ['h'])]) ∧
      (∃ o scene, scene.arguments = [['c']] ∧ scene.value? ['A'] = some [0x68] ∧
        scene.value? ['H'] = none ∧
        sheltered.verdict ⟨['t'], ['c'], none, none, false, false⟩ =
          (outcome o (Script.run scene showing)).map
            (·.map (Verdict.judge [.check "A=h".toList 1, .check "H=<unset>".toList 2]))) ∧
      sheltered.execute ['t'] ['c'] none ⟨none, .merged, true, .ofList [(['N'], ['\x00'])]⟩ =
        some (.error (.launch "/t".toList .nulInData)) := by
  have hplain : sheltered.environ.IsPlain := by
    rw [Environment.IsPlain]
    decide
  have hcase : sheltered.HasFile ['c'] [['c']] (Utf8.encode shown) := ⟨rfl, .plain, rfl⟩
  have hinput : sheltered.HasInput none [] := rfl
  have hprogram : Path.absolute (Location.path sheltered.directory) ['t'] = some "/t".toList := by
    decide
  have hread : CommandLine.read [['t'], ['c']] = .run ⟨['t'], ['c'], none, none, false, false⟩ := by
    decide
  have hload : TestCase.load sheltered ['c'] = .ok ⟨['c'], shown.lines,
      [.check "A=h".toList 1, .check "H=<unset>".toList 2]⟩ := by decide +kernel
  have hsettings : sheltered.Configured ['c'] sheltering := by
    have hlocate : Settings.locate sheltered ['c'] = some "./checkrun.yaml".toList := by
      decide +kernel
    have hfile : Settings.load sheltered "./checkrun.yaml".toList = .ok sheltering := by
      decide +kernel
    rw [Configured, hlocate]
    exact hfile
  have hexpand : Settings.expandAll sheltered.environ sheltering.env =
      .ok (.ofList [(['A'], ['h'])]) := by decide +kernel
  obtain ⟨hsees, hrefuses, -, hreport⟩ := subject_sees_settings sheltered
    ⟨['t'], ['c'], none, none, false, false⟩ (by decide) hplain hcase hinput hprogram
  refine ⟨hplain, hcase, hinput, hprogram, hread, hsettings, hexpand, ?_, ?_⟩
  · obtain ⟨-, o, henv, hinherits, hverdict, -⟩ := hreport _ _ _ _ hread hload hsettings hexpand
    have henvplain : o.env.IsPlain := by
      rw [henv, Variables.IsPlain]
      decide +kernel
    obtain ⟨order, hscene, -, -, hexecute⟩ := hsees o henvplain
    refine ⟨o, order.scene, hscene.arguments, ?_, ?_, ?_⟩
    · rw [hscene.value? ['A'] (by decide), henv, hinherits]
      decide +kernel
    · rw [hscene.value? ['H'] (by decide), henv, hinherits]
      decide +kernel
    · rw [hverdict, hexecute showing rfl]
  · have hholds : (Variables.ofList [(['N'], ['\x00'])]).HoldsNul := by
      rw [Variables.HoldsNul]
      decide +kernel
    exact (hrefuses ⟨none, .merged, true, _⟩ hholds).2

end World

end Golden
