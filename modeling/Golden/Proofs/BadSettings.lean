import Golden.Proofs.Character
import Golden.Proofs.Inheritance
import Golden.Proofs.Refusal

/-!
# Settings that cannot be used

A configuration file goes through three steps: its bytes are read as text, the text is read in the
format that the name of the file tells, and its variables are expanded. What goes wrong in the
second or the third step is a problem of the configuration, and the fault names the file. The first
step is the same as for any other file, and so it has the same fault for bytes that are no text:
that of a file that cannot be read. So a bad configuration is blamed as one exactly if it is a text.

## Main definitions

* `World.AnswersOrBlames` — there are settings for a test case, or its configuration is blamed

## Main results

* `World.effective_of_text` — a configuration file that is a text
* `World.effective_of_not_text` — one that is none
* `World.settings_blamed_iff_text` — when a bad configuration is blamed as one
-/

namespace Golden

open Utf8

namespace World

variable {w : World} {testCase path : Path} {bytes : Bytes} {text : Text} {o : Overrides}

/-- There are settings for a test case, or else its configuration file is blamed for a problem. -/
def AnswersOrBlames (w : World) (testCase path : Path) (o : Overrides) : Prop :=
  (∃ settings, w.effective testCase o = .ok settings) ∨
    ∃ problem, w.effective testCase o = .error (.config path problem)

/-- A configuration file that is a text has a meaning, or it is blamed for having none; and the
variables in it expand, or it is blamed for the first that does not. -/
theorem effective_of_text (hlocate : Settings.locate w testCase = some path)
    (hholds : w.Holds path bytes) (htext : encode text = bytes) (o : Overrides) :
    w.effective testCase o =
      ((Settings.ofContent (Path.extension path) text >>= fun settings =>
        (Settings.expandAll w.environ settings.env).map fun env =>
          settings.effective env o).mapError (Fault.config path)) := by
  have hdecode : decode? bytes = some text := decode?_eq_some_iff.mpr htext
  cases hcontent : Settings.ofContent (Path.extension path) text with
  | error problem =>
    rw [effective_of_locate hlocate, Settings.load_of_holds hholds hdecode, hcontent]
    rfl
  | ok settings =>
    rw [effective_of_settings hlocate hholds hdecode hcontent, Stage.bind_ok]
    cases Settings.expandAll w.environ settings.env <;> rfl

/-- Bytes that are no text make a file that cannot be read. -/
theorem effective_of_not_text (hlocate : Settings.locate w testCase = some path)
    (hholds : w.Holds path bytes) (htext : ¬ ∃ text, encode text = bytes) (o : Overrides) :
    w.effective testCase o = .error (.io ("failed to read ".toList ++ path) .notText) := by
  have hdecode : decode? bytes = none := by
    rw [Option.eq_none_iff_forall_ne_some]
    exact fun text hsome => htext ⟨text, decode?_eq_some_iff.mp hsome⟩
  rw [effective_of_locate hlocate, Settings.load_of_not_text hholds hdecode]
  rfl

/-- **A bad configuration is blamed as one exactly if it is a text.** Whatever the configuration
file for a test case holds, whatever the environment is and whatever the command line says: if the
bytes of the file are a text, there are settings or the file is blamed, for its content or else for
the first variable that does not expand. If they are none, the fault is that of a file that cannot
be read, and not of a configuration. -/
theorem settings_blamed_iff_text (w : World) (testCase path : Path) (bytes : Bytes) (o : Overrides)
    (hlocate : Settings.locate w testCase = some path) (hholds : w.Holds path bytes) :
    (w.AnswersOrBlames testCase path o ↔ ∃ text, encode text = bytes) ∧
    ((¬ ∃ text, encode text = bytes) →
      w.effective testCase o = .error (.io ("failed to read ".toList ++ path) .notText)) ∧
    ∀ text, encode text = bytes →
      (∀ problem, Settings.ofContent (Path.extension path) text = .error problem →
        w.effective testCase o = .error (.config path problem)) ∧
      ∀ settings, Settings.ofContent (Path.extension path) text = .ok settings →
        (∀ problem, Settings.expandAll w.environ settings.env = .error problem →
          w.effective testCase o = .error (.config path problem)) ∧
        ∀ env, Settings.expandAll w.environ settings.env = .ok env →
          w.effective testCase o = .ok (settings.effective env o) := by
  refine ⟨⟨fun hanswer => ?_, fun htext => ?_⟩,
    fun htext => effective_of_not_text hlocate hholds htext o, fun text htext => ⟨?_, ?_⟩⟩
  · by_contra htext
    have hfault := effective_of_not_text hlocate hholds htext o
    obtain ⟨settings, hok⟩ | ⟨problem, herror⟩ := hanswer
    · cases hok.symm.trans hfault
    · cases herror.symm.trans hfault
  · obtain ⟨text, htext⟩ := htext
    rw [AnswersOrBlames, effective_of_text hlocate hholds htext o]
    cases Settings.ofContent (Path.extension path) text with
    | error problem => exact .inr ⟨problem, rfl⟩
    | ok settings =>
      rw [Stage.bind_ok]
      cases Settings.expandAll w.environ settings.env with
      | error problem => exact .inr ⟨problem, rfl⟩
      | ok env => exact .inl ⟨_, rfl⟩
  · intro problem hcontent
    rw [effective_of_text hlocate hholds htext o, hcontent]
    rfl
  · intro settings hcontent
    rw [effective_of_text hlocate hholds htext o, hcontent, Stage.bind_ok]
    constructor
    · intro problem hexpand
      rw [hexpand]
      rfl
    · intro env hexpand
      rw [hexpand]
      rfl

/-- A directory with a configuration file that holds the bytes. -/
def configuredBy (bytes : Bytes) : World where
  tree := ⟨[(["checkrun.yaml".toList], .file bytes .plain)]⟩
  directory := []
  environ := []
  programs := .unknown

/-- The configuration that applies there. -/
def besideCase : Path := "./checkrun.yaml".toList

/-- A configuration that refers to an unset variable is a text, and the file is blamed for it. -/
theorem settings_blamed_iff_text_unset :
    let text : Text := "env:\n  A: $\x7bB\x7d".toList
    let w := configuredBy (encode text)
    Settings.locate w ['c'] = some besideCase ∧ w.Holds besideCase (encode text) ∧
      w.AnswersOrBlames ['c'] besideCase .none ∧
      w.effective ['c'] .none = .error (.config besideCase (.unset ['B'])) := by
  intro text w
  have hlocate : Settings.locate w ['c'] = some besideCase := by decide +kernel
  have hholds : w.Holds besideCase (encode text) := ⟨["checkrun.yaml".toList], rfl, .plain, rfl⟩
  obtain ⟨hblamed, -, hreads⟩ :=
    settings_blamed_iff_text w ['c'] besideCase (encode text) .none hlocate hholds
  obtain ⟨-, hmeans⟩ := hreads text rfl
  have hcontent : Settings.ofContent (Path.extension besideCase) text =
      .ok { Settings.empty with env := .ofList [(['A'], "$\x7bB\x7d".toList)] } := by decide +kernel
  have hexpand : Settings.expandAll w.environ (.ofList [(['A'], "$\x7bB\x7d".toList)]) =
      .error (.unset ['B']) := by decide +kernel
  exact ⟨hlocate, hholds, hblamed.mpr ⟨text, rfl⟩, (hmeans _ hcontent).1 _ hexpand⟩

/-- A configuration that is a single stray byte is not blamed: the fault is that of a file that
cannot be read. -/
theorem settings_not_blamed_stray :
    let w := configuredBy [0xff]
    Settings.locate w ['c'] = some besideCase ∧ w.Holds besideCase [0xff] ∧
      w.effective ['c'] .none =
        .error (.io "failed to read ./checkrun.yaml".toList .notText) ∧
      ¬ w.AnswersOrBlames ['c'] besideCase .none := by
  intro w
  have hlocate : Settings.locate w ['c'] = some besideCase := by decide +kernel
  have hholds : w.Holds besideCase [0xff] := ⟨["checkrun.yaml".toList], rfl, .plain, rfl⟩
  have hdecode : decode? [0xff] = none := by decide +kernel
  have htext : ¬ ∃ text, encode text = [0xff] := by
    rintro ⟨text, htext⟩
    cases hdecode.symm.trans (decode?_eq_some_iff.mpr htext)
  have hfault := effective_of_not_text hlocate hholds htext .none
  refine ⟨hlocate, hholds, hfault, ?_⟩
  rintro (⟨settings, hok⟩ | ⟨problem, herror⟩)
  · cases hok.symm.trans hfault
  · cases herror.symm.trans hfault

end World

end Golden
