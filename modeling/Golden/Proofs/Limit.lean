import Golden.Proofs.Pipeline

/-!
# Runs under a limit

A limit changes one thing: it stops a subject that hangs, or that leaves something behind with a
grip on its output. Which subjects these are can be read off their scripts, for a subject takes its
steps one after the other until one of them is the last. A run that the limit stops has no outcome,
whatever was written before; every other run has the outcome that it has without a limit, and
nothing that was written before the end is missing in it.

## Main definitions

* `Action.isLast`, `Action.ending?` — steps behind which nothing is done, and how they end a subject
* `Script.Reaches` — a subject comes to a step
* `Script.Lingers` — a subject hangs, or leaves something behind that holds output open
* `Script.EndsAfter` — the steps that a subject takes before it ends, and how it ends

## Main results

* `Script.step_cases` — everything that one step does to a run
* `Script.ending_eq_none_iff`, `Script.held_iff` — when a run never ends, and when its output is
  held
* `Script.exists_endsAfter` — what a run that ends has written
* `World.execute_expires_iff_lingers` — when a limit expires, and what it changes otherwise
-/

namespace Golden

/-! ### Steps -/

namespace Action

/-- Whether nothing is done behind a step. -/
def isLast : Action → Bool
  | exit _ | signal _ | hang => true
  | _ => false

/-- How a last step ends a subject, if it does. -/
def ending? : Action → Option Termination
  | exit code => some (.exited (code % 256))
  | signal number => some (.signaled number)
  | _ => none

theorem ending?_eq_none_iff {a : Action} (h : a.isLast = true) : a.ending? = none ↔ a = .hang := by
  cases a <;> simp_all [isLast, ending?]

end Action

namespace Script

variable {scene : Scene} {input : Bytes} {script rest before : Script} {a b : Action}
  {ending : Termination} {grip : Grip}

/-- A subject comes to a step: no step before it is a last one. -/
def Reaches (script : Script) (a : Action) : Prop :=
  ∃ before rest, script = before ++ a :: rest ∧ ∀ b ∈ before, b.isLast = false

/-- A subject comes to a step at which it hangs, or to one at which it starts something that holds
output open. -/
def Lingers (script : Script) : Prop :=
  script.Reaches .hang ∨ ∃ grip, script.Reaches (.background grip)

/-- The steps that a subject takes before it ends, and how it ends then: with nothing left to do, or
by a last step. -/
inductive EndsAfter : Script → Script → Termination → Prop
  | finish {before : Script} (h : ∀ b ∈ before, b.isLast = false) :
      EndsAfter before before (.exited 0)
  | last {before rest : Script} {a : Action} {ending : Termination}
      (h : ∀ b ∈ before, b.isLast = false) (hending : a.ending? = some ending) :
      EndsAfter (before ++ a :: rest) before ending

theorem not_reaches_nil (a : Action) : ¬ Reaches [] a := by
  intro h
  obtain ⟨before, rest, hsplit, -⟩ := h
  simp at hsplit

/-- The first step is reached, and behind it what the others reach, unless it is a last one. -/
theorem reaches_cons_iff :
    Reaches (b :: rest) a ↔ a = b ∨ b.isLast = false ∧ Reaches rest a := by
  constructor
  · intro h
    obtain ⟨before, after, hsplit, hbefore⟩ := h
    cases before with
    | nil => exact .inl (List.cons.inj hsplit).1.symm
    | cons first before =>
      obtain ⟨rfl, hrest⟩ := List.cons.inj hsplit
      obtain ⟨hfirst, hbehind⟩ := List.forall_mem_cons.mp hbefore
      exact .inr ⟨hfirst, before, after, hrest, hbehind⟩
  · intro h
    obtain rfl | ⟨hb, before, after, hsplit, hbefore⟩ := h
    · exact ⟨[], rest, rfl, by simp⟩
    · exact ⟨b :: before, after, by rw [hsplit, List.cons_append],
        List.forall_mem_cons.mpr ⟨hb, hbefore⟩⟩

theorem EndsAfter.cons (hb : b.isLast = false) (h : EndsAfter script before ending) :
    EndsAfter (b :: script) (b :: before) ending := by
  cases h with
  | finish h => exact .finish (List.forall_mem_cons.mpr ⟨hb, h⟩)
  | last h hending => exact .last (List.forall_mem_cons.mpr ⟨hb, h⟩) hending

/-- Everything that one step does to a run: it is the last one and ends the run or lets it hang, or
it starts something and the run goes on, or it writes a piece and the run goes on with what is left
of the input. -/
theorem step_cases (scene : Scene) (input : Bytes) (a : Action) :
    (a.isLast = true ∧ ∀ rest, runFrom scene input (a :: rest) = ⟨[], a.ending?, fun _ => false⟩) ∨
    (∃ grip, a = .background grip ∧
      ∀ rest, runFrom scene input (a :: rest) = (runFrom scene input rest).hold grip) ∨
    (a.isLast = false ∧ (∀ grip, a ≠ .background grip) ∧ ∃ stream bytes left,
      ∀ rest, runFrom scene input (a :: rest) = (runFrom scene left rest).after stream bytes) := by
  cases a with
  | exit code => exact .inl ⟨rfl, fun _ => rfl⟩
  | signal number => exact .inl ⟨rfl, fun _ => rfl⟩
  | hang => exact .inl ⟨rfl, fun _ => rfl⟩
  | background grip => exact .inr (.inl ⟨grip, rfl, fun _ => rfl⟩)
  | write stream bytes =>
    exact .inr (.inr ⟨rfl, fun _ => Action.noConfusion, stream, bytes, input, fun _ => rfl⟩)
  | copyInput => exact .inr (.inr ⟨rfl, fun _ => Action.noConfusion, .out, input, [], fun _ => rfl⟩)
  | showArguments =>
    exact .inr (.inr ⟨rfl, fun _ => Action.noConfusion, .out, _, input, fun _ => rfl⟩)
  | showDirectory =>
    exact .inr (.inr ⟨rfl, fun _ => Action.noConfusion, .out, _, input, fun _ => rfl⟩)
  | showVariable name =>
    exact .inr (.inr ⟨rfl, fun _ => Action.noConfusion, .out, _, input, fun _ => rfl⟩)

/-! ### Runs -/

/-- A run never ends exactly if the subject comes to hang. -/
theorem ending_eq_none_iff : (runFrom scene input script).ending = none ↔ script.Reaches .hang := by
  induction script generalizing input with
  | nil => simp [runFrom, not_reaches_nil]
  | cons a rest ih =>
    rw [reaches_cons_iff]
    obtain ⟨hlast, hrun⟩ | ⟨grip, rfl, hrun⟩ | ⟨hlast, -, stream, bytes, left, hrun⟩ :=
      step_cases scene input a
    · rw [hrun, Action.ending?_eq_none_iff hlast]
      simp [hlast, eq_comm]
    · have hgoes : ((runFrom scene input rest).hold grip).ending =
          (runFrom scene input rest).ending := rfl
      rw [hrun, hgoes, ih]
      simp [Action.isLast]
    · have hgoes : ((runFrom scene left rest).after stream bytes).ending =
          (runFrom scene left rest).ending := rfl
      have hnot : Action.hang ≠ a := by
        rintro rfl
        exact Bool.noConfusion hlast
      rw [hrun, hgoes, ih]
      simp [hlast, hnot]

/-- Output is held open exactly if the subject comes to start something that does so. -/
theorem held_iff :
    (runFrom scene input script).held = true ↔ ∃ grip, script.Reaches (.background grip) := by
  induction script generalizing input with
  | nil => simp [runFrom, Trace.held, not_reaches_nil]
  | cons a rest ih =>
    simp only [reaches_cons_iff]
    obtain ⟨hlast, hrun⟩ | ⟨grip, rfl, hrun⟩ | ⟨hlast, hother, stream, bytes, left, hrun⟩ :=
      step_cases scene input a
    · -- Nothing is started at a last step or behind it.
      have hnot (grip : Grip) : Action.background grip ≠ a := by
        rintro rfl
        exact Bool.noConfusion hlast
      simp [hrun, Trace.held, hlast, hnot]
    · have hheld : ((runFrom scene input rest).hold grip).held = true := by
        cases grip with
        | both => rfl
        | only stream => cases stream <;> simp [Trace.held, Grip.holds]
      rw [hrun, hheld]
      simp
    · have hgoes : ((runFrom scene left rest).after stream bytes).held =
          (runFrom scene left rest).held := rfl
      rw [hrun, hgoes, ih]
      simp [hlast, fun grip => (hother grip).symm]

/-- A run that ends has written what its subject writes before it ends. -/
theorem exists_endsAfter (h : (runFrom scene input script).ending = some ending) :
    ∃ before, script.EndsAfter before ending ∧
      (runFrom scene input script).writes = (runFrom scene input before).writes := by
  induction script generalizing input with
  | nil =>
    obtain rfl : Termination.exited 0 = ending := Option.some.inj h
    exact ⟨[], .finish (by simp), rfl⟩
  | cons a rest ih =>
    obtain ⟨hlast, hrun⟩ | ⟨grip, rfl, hrun⟩ | ⟨hlast, -, stream, bytes, left, hrun⟩ :=
      step_cases scene input a
    · rw [hrun] at h ⊢
      have hends : EndsAfter ([] ++ a :: rest) [] ending := .last (by simp) h
      exact ⟨[], hends, rfl⟩
    · rw [hrun] at h
      obtain ⟨before, hends, hwrites⟩ := ih h
      refine ⟨.background grip :: before, hends.cons rfl, ?_⟩
      exact hwrites
    · rw [hrun] at h
      obtain ⟨before, hends, hwrites⟩ := ih h
      refine ⟨a :: before, hends.cons hlast, ?_⟩
      rw [hrun, hrun, Trace.after, Trace.after, hwrites]

theorem ending_eq_none_or_held_iff (scene : Scene) (script : Script) :
    ((run scene script).ending = none ∨ (run scene script).held = true) ↔ script.Lingers := by
  rw [run, ending_eq_none_iff, held_iff, Lingers]

end Script

/-! ### Limits -/

namespace Execution

/-- What is captured of a run depends on what was written, and on nothing else in it. -/
theorem captured_congr {t t' : Trace} (h : t.writes = t'.writes) (capture : Capture)
    (ending : Termination) : captured capture t ending = captured capture t' ending := by
  have hmerged : t.merged = t'.merged := by rw [Trace.merged, Trace.merged, h]
  have honly (s : Stream) : t.only s = t'.only s := by rw [Trace.only, Trace.only, h]
  cases capture with
  | merged => rw [captured, captured, hmerged]
  | separate => rw [captured, captured, honly, honly]

variable {o : RunOptions} {t : Trace} {scene : Scene} {script : Script}

/-- A limit expires exactly if the run never ends or its output is held open. -/
theorem outcome_eq_timeout_iff (o : RunOptions) (t : Trace) (limit : Duration) :
    outcome { o with limit := some limit } t = some (.error (.timeout limit)) ↔
      t.ending = none ∨ t.held = true := by
  constructor
  · intro h
    obtain ⟨hnone, -, -⟩ | ⟨_, -, hheld, -⟩ | ⟨ending, -, -, hleft⟩ :=
      outcome_cases { o with limit := some limit } t
    · simp at hnone
    · exact hheld
    · rw [hleft] at h
      simp at h
  · intro h
    exact outcome_of_held rfl h

/-- A run that nothing keeps from its end has its outcome under every limit and under none, and all
that was written before the end is in it. -/
theorem outcome_of_not_lingers (hfree : ¬ script.Lingers) (o : RunOptions) :
    ∃ before ending, script.EndsAfter before ending ∧
      ∀ limit?, outcome { o with limit := limit? } (Script.run scene script) =
        some (.ok (captured o.capture (Script.run scene before) ending)) := by
  rw [← Script.ending_eq_none_or_held_iff scene] at hfree
  obtain ⟨hended, hclosed⟩ := not_or.mp hfree
  obtain ⟨ending, hending⟩ := Option.ne_none_iff_exists'.mp hended
  obtain ⟨before, hends, hwrites⟩ := Script.exists_endsAfter hending
  refine ⟨before, ending, hends, fun limit? => ?_⟩
  have hleft := outcome_of_closed (o := { o with limit := limit? }) hending
    (.inr (Bool.eq_false_iff.mpr hclosed))
  rw [hleft]
  exact congrArg (fun left => some (Except.ok left)) (captured_congr hwrites o.capture ending)

end Execution

namespace World

variable {w : World} {exe testCase : Path} {stdin : Option Path} {o : RunOptions} {scene : Scene}
  {script : Script}

/-- **A limit stops what lingers, and changes nothing else.** For a subject that is launched, a
limit expires exactly if the subject comes to hang, or to start something that holds output open
before it ends. Then there is no outcome but that fault, whatever was written and however the subject
itself ended. Every other subject ends by itself, and has the same outcome with the limit and without
any: the way in which it ended, and the lines of everything that it wrote before. -/
theorem execute_expires_iff_lingers (limit : Duration)
    (hrun : w.launch exe testCase stdin o = .ok (Script.run scene script)) :
    (w.execute exe testCase stdin { o with limit := some limit } =
        some (.error (.timeout limit)) ↔ script.Lingers) ∧
      (script.Lingers → ∀ outcome,
        w.execute exe testCase stdin { o with limit := some limit } ≠ some (.ok outcome)) ∧
      (¬ script.Lingers → ∃ before ending, script.EndsAfter before ending ∧
        w.execute exe testCase stdin { o with limit := some limit } =
          some (.ok (Execution.captured o.capture (Script.run scene before) ending)) ∧
        w.execute exe testCase stdin { o with limit := none } =
          some (.ok (Execution.captured o.capture (Script.run scene before) ending))) := by
  -- The subject is launched in the same way under every limit.
  have hexecute (limit? : Option Duration) :
      w.execute exe testCase stdin { o with limit := limit? } =
        Execution.outcome { o with limit := limit? } (Script.run scene script) :=
    execute_of_launch hrun
  have hexpires : w.execute exe testCase stdin { o with limit := some limit } =
      some (.error (.timeout limit)) ↔ script.Lingers := by
    rw [hexecute, Execution.outcome_eq_timeout_iff, Script.ending_eq_none_or_held_iff]
  refine ⟨hexpires, fun hlingers outcome => ?_, fun hfree => ?_⟩
  · rw [hexpires.mpr hlingers]
    simp
  · obtain ⟨before, ending, hends, houtcome⟩ := Execution.outcome_of_not_lingers hfree o
    refine ⟨before, ending, hends, ?_, ?_⟩
    · rw [hexecute, houtcome]
    · rw [hexecute, houtcome]

/-- A tool that is killed, and leaves something behind that holds its error stream open. -/
def departed : Script := [.write .out [0x61], .background (.only .err), .signal 9]

/-- A tool that exits before it would hang. -/
def hasty : Script := [.write .err [0xff], .exit 259, .background, .hang]

/-- A directory with a test case `c` and the two tools. -/
def departing : World where
  tree := ⟨[([['c']], .file [] .plain), ([['d']], .file [] (.scripted departed)),
    ([['h']], .file [] (.scripted hasty))]⟩
  directory := []
  environ := []
  programs := .unknown

/-- The tools are run with their streams captured apart. -/
def departingOptions : RunOptions := ⟨none, .separate, true, .empty⟩

/-- What they are started with. -/
def departingScene : Scene := ⟨[['c']], ['/'], [], fun _ => none⟩

/-- The limit expires for the first tool, although its output stream is closed, and changes nothing
for the second. -/
theorem execute_expires_iff_lingers_departing :
    departing.launch ['d'] ['c'] none departingOptions = .ok (Script.run departingScene departed) ∧
      departing.launch ['h'] ['c'] none departingOptions = .ok (Script.run departingScene hasty) ∧
      departing.execute ['d'] ['c'] none { departingOptions with limit := some (.ofSecs 1) } =
        some (.error (.timeout (.ofSecs 1))) ∧
      ∃ before ending, hasty.EndsAfter before ending ∧
        departing.execute ['h'] ['c'] none { departingOptions with limit := some (.ofSecs 1) } =
          some (.ok (Execution.captured .separate (Script.run departingScene before) ending)) := by
  have hdeparted : departing.launch ['d'] ['c'] none departingOptions =
      .ok (Script.run departingScene departed) := rfl
  have hhasty : departing.launch ['h'] ['c'] none departingOptions =
      .ok (Script.run departingScene hasty) := rfl
  have hlingers : departed.Lingers :=
    .inr ⟨.only .err, [.write .out [0x61]], [.signal 9], rfl, by decide⟩
  have hfree : ¬ hasty.Lingers := by
    rw [← Script.ending_eq_none_or_held_iff departingScene]
    decide
  obtain ⟨before, ending, hends, houtcome, -⟩ :=
    (execute_expires_iff_lingers (.ofSecs 1) hhasty).2.2 hfree
  exact ⟨hdeparted, hhasty, (execute_expires_iff_lingers (.ofSecs 1) hdeparted).1.mpr hlingers,
    before, ending, hends, houtcome⟩

end World

end Golden
