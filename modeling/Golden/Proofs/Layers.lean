import Golden.Proofs.Grammar
import Golden.Proofs.Inheritance

/-!
# Layers of settings

What holds for a run lies in three layers: the command line above the file, and the file above what
is built in. The command line is put on top of settings that are there already, so that it can
neither make them fail nor mend them. For the limit the upper layer counts if it says anything,
where zero is something that is said; the streams are separated by either layer and merged again by
none; and the variables come from the file alone.

What holds for a run can be written as a configuration file again. If no value in it opens a
reference, nothing is left to be expanded, and so the file means the same in every environment, and
once more under the command line from which it came.

## Main definitions

* `Effective.spelledOut` — the configuration that says everything that holds for a run

## Main results

* `Settings.expandAll_of_isPlain` — variables that open no reference are what they are
* `Effective.resolve_eq_map_resolve` — the command line is put on top of what holds without it
* `Effective.resolve_lies_in_layers` — what each layer has to say, and what is left of it when it is
  written down
-/

namespace Golden

open Template

variable {environ environ' : Environment} {env done : Variables} {stored : List (Text × Text)}
  {o : Overrides} {e : Effective} {file : Option (Path × Settings)} {fault : Fault}

/-! ### Variables without references -/

/-- A value that opens no reference says what it says. -/
theorem Template.expand_of_isPlain {value : Text} (h : IsPlain value)
    (value? : Text → Option Text) : expand value? value = .ok value := by
  let p : Phrase := ⟨[], value, h⟩
  have hnames : ∀ s ∈ p.segments, value? s.name = some (id s.name) := by simp [p]
  have hwritten : expand value? p.written = .ok (p.filled id) := expand_written hnames
  exact hwritten

namespace Settings

theorem expandFrom_of_isPlain (h : ∀ x ∈ stored, IsPlain x.2) (environ : Environment)
    (done : Variables) :
    expandFrom environ done stored = .ok (stored.foldl (fun v x => v.put x.1 x.2) done) := by
  induction stored generalizing done with
  | nil => rfl
  | cons x rest ih =>
    obtain ⟨hx, hrest⟩ := List.forall_mem_cons.mp h
    rw [expandFrom_cons_of_ok (expand_of_isPlain hx _), ih hrest]
    rfl

/-- Variables that open no reference are what they are, in every environment. -/
theorem expandAll_of_isPlain (h : ∀ x ∈ env.entries, IsPlain x.2) (environ : Environment) :
    expandAll environ env = .ok env := by
  rw [expandAll, expandFrom_of_isPlain h]
  exact congrArg Except.ok (Variables.ofList_eq_of_perm (.refl env.entries))

end Settings

namespace Effective

/-- The configuration that says everything that holds for a run. -/
def spelledOut (e : Effective) : Settings where
  timeout := some e.timeoutSecs
  mergeStderr := some (e.capture = .merged)
  inheritEnv := some e.inheritEnv
  env := e.env

/-! ### Layers -/

/-- To put a command line on top of itself changes nothing more. -/
theorem override_override (e : Effective) (o : Overrides) :
    (e.override o).override o = e.override o := by
  obtain ⟨timeout, separate⟩ := o
  cases timeout <;> cases separate <;> rfl

/-- The command line is put on top of what holds without it. -/
theorem resolve_eq_map_resolve (environ : Environment) (file : Option (Path × Settings))
    (o : Overrides) :
    resolve environ file o = (resolve environ file .none).map (override · o) := by
  cases file with
  | none => rfl
  | some f =>
    rw [resolve, resolve]
    cases ofSettings environ f.1 f.2 <;> rfl

theorem resolve_eq_ok_iff : resolve environ file o = .ok e ↔
    ∃ base, resolve environ file .none = .ok base ∧ base.override o = e := by
  rw [resolve_eq_map_resolve, Stage.map_eq_ok_iff]

/-- The command line makes nothing fail and mends nothing. -/
theorem resolve_eq_error_iff :
    resolve environ file o = .error fault ↔ resolve environ file .none = .error fault := by
  rw [resolve_eq_map_resolve]
  cases resolve environ file .none with
  | error fault' => rfl
  | ok base =>
    constructor
    · intro h
      cases h
    · intro h
      cases h

/-- The limit and the streams that a file asks for, if there is one. -/
theorem timeoutSecs_of_resolve (h : resolve environ file .none = .ok e) :
    e.timeoutSecs = (file.bind fun f => f.2.timeout).getD defaultTimeoutSecs ∧
      (e.capture = .separate ↔ ∃ f, file = some f ∧ f.2.mergeStderr = some false) := by
  cases file with
  | none =>
    obtain rfl := Except.ok.inj h
    exact ⟨rfl, by simp [default, override, Overrides.none]⟩
  | some f =>
    obtain ⟨env, -, rfl⟩ := resolve_some_eq_ok_iff.mp h
    exact ⟨rfl, by simp [Settings.effective, Overrides.none]⟩

/-- Written down, what holds for a run means the same in every environment, unless a value opens a
reference. -/
theorem resolve_spelledOut (h : ∀ x ∈ e.env.entries, IsPlain x.2) (environ : Environment)
    (path : Path) : resolve environ (some (path, e.spelledOut)) .none = .ok e := by
  rw [resolve_some_eq_ok_iff]
  refine ⟨e.env, Settings.expandAll_of_isPlain h environ, ?_⟩
  obtain ⟨timeoutSecs, capture, inheritEnv, env⟩ := e
  cases capture <;> rfl

/-- **Settings lie in layers, and what holds can be written down.** With a command line the settings
fail exactly where they fail without it, and with the same fault. Otherwise the limit is the one of
the command line, be it zero, or else of the file, or else the one that is built in; the streams are
separated exactly if the file or the command line asks for it; and all that is left is what it is
without the command line. If no value among the variables opens a reference, the configuration that
spells all of this out means the same again, with the command line and without it, wherever it lies
and in every environment. -/
theorem resolve_lies_in_layers (environ : Environment) (file : Option (Path × Settings))
    (o : Overrides) :
    (∀ fault, resolve environ file o = .error fault ↔
      resolve environ file .none = .error fault) ∧
    ∀ e, resolve environ file o = .ok e →
      e.timeoutSecs =
        o.timeout.getD ((file.bind fun f => f.2.timeout).getD defaultTimeoutSecs) ∧
      (e.capture = .separate ↔
        (∃ f, file = some f ∧ f.2.mergeStderr = some false) ∨ o.separateStderr = true) ∧
      (∃ base, resolve environ file .none = .ok base ∧
        e.inheritEnv = base.inheritEnv ∧ e.env = base.env) ∧
      ((∀ x ∈ e.env.entries, IsPlain x.2) → ∀ environ' path,
        resolve environ' (some (path, e.spelledOut)) .none = .ok e ∧
        resolve environ' (some (path, e.spelledOut)) o = .ok e) := by
  refine ⟨fun fault => resolve_eq_error_iff, fun e he => ?_⟩
  obtain ⟨base, hbase, rfl⟩ := resolve_eq_ok_iff.mp he
  obtain ⟨htimeout, hcapture⟩ := timeoutSecs_of_resolve hbase
  refine ⟨?_, ?_, ⟨base, hbase, rfl, rfl⟩, fun hplain environ' path => ?_⟩
  · rw [override, htimeout]
  · rw [← hcapture, override]
    cases o.separateStderr <;> simp
  · have hspelled := resolve_spelledOut hplain environ' path
    refine ⟨hspelled, ?_⟩
    -- The command line is on top already, and stays there.
    rw [resolve_eq_map_resolve, hspelled, Except.map, override_override]

/-- A file with a limit of its own that merges the streams, and a variable whose value is the one of
a reference, with a dollar sign and a brace that open none. -/
def lower : Settings :=
  ⟨some 5, some true, some false, .ofList [(['A'], "$\x7bB\x7d$".toList), (['C'], "\x7b".toList)]⟩

/-- The same with the value put in, under a command line that lifts the limit and separates the
streams. -/
def upper : Effective :=
  ⟨0, .separate, false, .ofList [(['A'], "b$".toList), (['C'], "\x7b".toList)]⟩

/-- What holds is spelled out and means the same without the variable from which it came. Where that
variable is not set, the command line does not help. -/
theorem resolve_lies_in_layers_lifted :
    let file := some ("d".toList, lower)
    let o : Overrides := ⟨some 0, true⟩
    resolve [(['B'], [98])] file o = .ok upper ∧ upper.timeoutSecs = 0 ∧
      upper.capture = .separate ∧ (∀ x ∈ upper.env.entries, IsPlain x.2) ∧
      resolve [] (some ("e".toList, upper.spelledOut)) .none = .ok upper ∧
      resolve [] (some ("e".toList, upper.spelledOut)) o = .ok upper ∧
      resolve [] file .none = .error (.config "d".toList (.unset ['B'])) ∧
      resolve [] file o = .error (.config "d".toList (.unset ['B'])) := by
  intro file o
  have hexpand : Settings.expandAll [(['B'], [98])] lower.env = .ok upper.env := by
    decide +kernel
  have hresolve : resolve [(['B'], [98])] file o = .ok upper :=
    resolve_some_eq_ok_iff.mpr ⟨upper.env, hexpand, rfl⟩
  have hfails : resolve [] file .none = .error (.config "d".toList (.unset ['B'])) := by
    have hunset : Settings.expandAll [] lower.env = .error (.unset ['B']) := by decide +kernel
    rw [Settings.resolve_eq_expandAll, hunset]
    rfl
  have hplain : ∀ x ∈ upper.env.entries, IsPlain x.2 := by decide +kernel
  obtain ⟨-, hlayers⟩ := resolve_lies_in_layers [(['B'], [98])] file o
  obtain ⟨hfails', -⟩ := resolve_lies_in_layers [] file o
  obtain ⟨htimeout, hcapture, -, hspelled⟩ := hlayers upper hresolve
  obtain ⟨hwithout, hwith⟩ := hspelled hplain [] "e".toList
  exact ⟨hresolve, htimeout, hcapture.mpr (.inr rfl), hplain, hwithout, hwith, hfails,
    (hfails' _).mpr hfails⟩

end Effective

end Golden
