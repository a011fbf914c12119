import Golden.Proofs.Resolution
import Mathlib.Logic.Relation

/-!
# What a variable depends on

A reference that looks down means a variable, and every other one means the environment. So what a
variable resolves to is told by its own value, by those of the variables to which one comes from it
by looking down, and by what the environment says about the names at which looking down ends.
Nothing else has a say: neither the variables behind it, nor the rest of the environment, nor what
the configuration and the command line say about anything but variables.

Two configurations that agree on these sources need not agree on more. In particular a name at which
looking down ends must not be that of a variable that comes before the reference in the other
configuration, for such a variable would stand in front of the environment.

## Main definitions

* `Variables.references` — the names to which the value of a variable refers
* `Variables.LooksDown`, `Variables.LooksOut` — a reference means a variable, or the environment
* `Variables.DependsOn` — one comes from a variable to another by looking down
* `Settings.SameSources` — two configurations agree on all that a variable depends on

## Main results

* `Variables.DependsOn.le` — a variable depends on none that comes behind it
* `Settings.Resolves.of_sameSources` — it resolves to the same where its sources are the same
* `Settings.SameSources.of_closed` — any variables that are closed under looking down will do
* `Settings.variable_follows_sources` — the same for the settings of a run
-/

namespace Golden

variable {environ environ' : Environment} {env env' v : Variables} {key j name value x : Text}

namespace Variables

/-- The names to which the value of a variable refers; a name that is no variable refers to none. -/
def references (v : Variables) (key : Text) : List Text :=
  (v.value? key).elim [] Template.names

/-- A reference in the value of a variable means a variable that comes before it. -/
def LooksDown (v : Variables) (key name : Text) : Prop :=
  name ∈ v.references key ∧ v.HasBelow key name

/-- A reference in the value of a variable means what the environment says. -/
def LooksOut (v : Variables) (key name : Text) : Prop :=
  name ∈ v.references key ∧ ¬ v.HasBelow key name

/-- One comes from a variable to another by looking down any number of times. -/
def DependsOn (v : Variables) : Text → Text → Prop :=
  Relation.ReflTransGen v.LooksDown

theorem references_of_value? (h : v.value? key = some value) :
    v.references key = Template.names value := by
  rw [references, h, Option.elim_some]

/-- A variable depends on itself and on variables that come before it. -/
theorem DependsOn.le (h : v.DependsOn key j) : j = key ∨ nameBefore j key := by
  induction h with
  | refl => exact .inl rfl
  | tail _ hdown ih =>
    have hbefore := hdown.2.2
    rcases ih with rfl | ih
    · exact .inr hbefore
    · exact .inr (nameBefore_trans hbefore ih)

end Variables

namespace Settings

/-- Two configurations and two environments agree on all that a variable depends on: on the values
of the variables to which one comes by looking down, and on what the names at which looking down
ends mean. These are no variables before the reference in the other configuration either, and both
environments give them the same text. -/
structure SameSources (environ environ' : Environment) (env env' : Variables) (key : Text) :
    Prop where
  values : ∀ j, env.DependsOn key j → env.value? j = env'.value? j
  unshadowed : ∀ j name, env.DependsOn key j → env.LooksOut j name → ¬ env'.HasBelow j name
  environ : ∀ j name, env.DependsOn key j → env.LooksOut j name →
    environ.text? name = environ'.text? name

namespace SameSources

theorem references_eq (h : SameSources environ environ' env env' key) (hj : env.DependsOn key j) :
    env.references j = env'.references j := by
  rw [Variables.references, Variables.references, h.values j hj]

/-- What a variable depends on agrees on its own sources. -/
theorem of_looksDown (h : SameSources environ environ' env env' key)
    (hdown : env.LooksDown key j) : SameSources environ environ' env env' j where
  values i hi := h.values i (.head hdown hi)
  unshadowed i name hi := h.unshadowed i name (.head hdown hi)
  environ i name hi := h.environ i name (.head hdown hi)

/-- The same references look down. -/
theorem hasBelow_iff (h : SameSources environ environ' env env' key)
    (hj : env.DependsOn key j) (hname : name ∈ env.references j) :
    env.HasBelow j name ↔ env'.HasBelow j name := by
  constructor
  · intro hbelow
    have hvalue := h.values name (hj.tail ⟨hname, hbelow⟩)
    exact ⟨hvalue ▸ hbelow.1, hbelow.2⟩
  · intro hbelow
    by_contra hout
    exact h.unshadowed j name hj ⟨hname, hout⟩ hbelow

/-- One comes to the same variables in both configurations. -/
theorem dependsOn_of (h : SameSources environ environ' env env' key)
    (hj : env'.DependsOn key j) : env.DependsOn key j := by
  induction hj with
  | refl => exact .refl
  | tail _ hdown ih =>
    have hname := hdown.1
    rw [← h.references_eq ih] at hname
    exact ih.tail ⟨hname, (h.hasBelow_iff ih hname).mpr hdown.2⟩

/-- Agreement goes both ways. -/
theorem symm (h : SameSources environ environ' env env' key) :
    SameSources environ' environ env' env key := by
  have hout (i name : Text) (hi : env'.DependsOn key i) (hlook : env'.LooksOut i name) :
      env.DependsOn key i ∧ env.LooksOut i name := by
    have hi' := h.dependsOn_of hi
    have hname := hlook.1
    rw [← h.references_eq hi'] at hname
    exact ⟨hi', hname, (h.hasBelow_iff hi' hname).not.mpr hlook.2⟩
  refine ⟨fun i hi => (h.values i (h.dependsOn_of hi)).symm, fun i name hi hlook => ?_,
    fun i name hi hlook => ?_⟩
  · exact (hout i name hi hlook).2.2
  · obtain ⟨hi', hlook'⟩ := hout i name hi hlook
    exact (h.environ i name hi' hlook').symm

/-- Variables among which one stays by looking down are all that has to be looked at. -/
theorem of_closed {vs : List Text} (hkey : key ∈ vs)
    (hclosed : ∀ j ∈ vs, ∀ name ∈ env.references j, env.HasBelow j name → name ∈ vs)
    (hvalues : ∀ j ∈ vs, env.value? j = env'.value? j)
    (hout : ∀ j ∈ vs, ∀ name ∈ env.references j, ¬ env.HasBelow j name →
      ¬ env'.HasBelow j name ∧ environ.text? name = environ'.text? name) :
    SameSources environ environ' env env' key := by
  have hmem (j : Text) (hj : env.DependsOn key j) : j ∈ vs := by
    induction hj with
    | refl => exact hkey
    | tail _ hdown ih => exact hclosed _ ih _ hdown.1 hdown.2
  refine ⟨fun j hj => hvalues j (hmem j hj), fun j name hj hlook => ?_, fun j name hj hlook => ?_⟩
  · exact (hout j (hmem j hj) name hlook.1 hlook.2).1
  · exact (hout j (hmem j hj) name hlook.1 hlook.2).2

/-- Configurations that differ in nothing but variables behind a variable agree on its sources, if
the environments say the same about the names at which looking down ends. -/
theorem of_upTo (hupTo : ∀ name, ¬ nameBefore key name → env.value? name = env'.value? name)
    (henviron : ∀ j name, env.DependsOn key j → env.LooksOut j name →
      environ.text? name = environ'.text? name) :
    SameSources environ environ' env env' key := by
  have hvalue (name : Text) (hname : name = key ∨ nameBefore name key) :
      env.value? name = env'.value? name := by
    apply hupTo
    rcases hname with rfl | hname
    · exact nameBefore_irrefl name
    · exact nameBefore_asymm hname
  refine ⟨fun j hj => hvalue j hj.le, fun j name hj hlook hbelow => ?_, henviron⟩
  -- A variable before one that comes before the key comes before the key.
  have hname : nameBefore name key := by
    rcases hj.le with rfl | hbefore
    · exact hbelow.2
    · exact nameBefore_trans hbelow.2 hbefore
  exact hlook.2 ⟨hvalue name (.inr hname) ▸ hbelow.1, hbelow.2⟩

end SameSources

/-- A variable resolves to the same where its sources are the same, be it a text or a flaw. -/
theorem Resolves.of_sameSources {answer : Except Template.Flaw Text}
    (h : Resolves environ env key answer) (hsame : SameSources environ environ' env env' key) :
    Resolves environ' env' key answer := by
  -- Induction on the resolution: what it rests on has its sources among those of the variable.
  induction h with
  | @intro key value known hvalue hknown ih =>
    have hreferences := Variables.references_of_value? hvalue
    have hbelow (name : Text) (hname : name ∈ Template.names value) :
        env.HasBelow key name ↔ env'.HasBelow key name :=
      hsame.hasBelow_iff .refl (hreferences ▸ hname)
    have hexpand : Template.expand (downward environ env (fun n => some (known n)) key) value =
        Template.expand (downward environ' env' (fun n => some (known n)) key) value := by
      apply Template.expand_congr
      intro name hname
      by_cases hdown : env.HasBelow key name
      · rw [downward, if_pos hdown, downward, if_pos ((hbelow name hname).mp hdown)]
      · have hout : env.LooksOut key name := ⟨hreferences ▸ hname, hdown⟩
        rw [downward, if_neg hdown, downward, if_neg ((hbelow name hname).not.mp hdown),
          hsame.environ key name .refl hout]
    rw [hexpand]
    refine .intro known ((hsame.values key .refl).symm.trans hvalue) fun name hname hdown' => ?_
    have hdown := (hbelow name hname).mpr hdown'
    exact ih name hname hdown (hsame.of_looksDown ⟨hreferences ▸ hname, hdown⟩)

theorem resolves_congr {answer : Except Template.Flaw Text}
    (hsame : SameSources environ environ' env env' key) :
    Resolves environ env key answer ↔ Resolves environ' env' key answer :=
  ⟨fun h => h.of_sameSources hsame, fun h => h.of_sameSources hsame.symm⟩

/-- Collections that solve two configurations have the same value under a name with the same
sources. -/
theorem IsSolution.value?_congr {result result' : Variables} (h : IsSolution environ env result)
    (h' : IsSolution environ' env' result') (hsame : SameSources environ environ' env env' key) :
    result.value? key = result'.value? key := by
  have hvalue := hsame.values key .refl
  by_cases hkey : (env.value? key).isSome
  · obtain ⟨x, hx, hresolves⟩ := h.resolves hkey
    obtain ⟨y, hy, hresolves'⟩ := h'.resolves (hvalue ▸ hkey)
    obtain rfl := Except.ok.inj ((hresolves.of_sameSources hsame).unique hresolves')
    rw [hx, hy]
  · have hnone : result.value? key = none := by
      rw [← Option.not_isSome_iff_eq_none, h.names]
      exact hkey
    have hnone' : result'.value? key = none := by
      rw [← Option.not_isSome_iff_eq_none, h'.names, ← hvalue]
      exact hkey
    rw [hnone, hnone']

/-- **A variable follows its sources.** For every name, two configurations and two environments that
agree on its sources make it resolve to the same, be it a text or a flaw; and if both configurations
are resolved for a run, then the variable has the same value in both, or neither has it. The files,
what they say about anything but variables, and the command lines may be any. The sources of a
variable are no variables behind it: to agree on them it is enough to have the same variables up to
the name itself, and environments that say the same about the names at which looking down ends. -/
theorem variable_follows_sources (environ environ' : Environment) (s s' : Settings) (key : Text) :
    (SameSources environ environ' s.env s'.env key →
      (∀ answer, Resolves environ s.env key answer ↔ Resolves environ' s'.env key answer) ∧
      ∀ path path' o o' e e', Effective.resolve environ (some (path, s)) o = .ok e →
        Effective.resolve environ' (some (path', s')) o' = .ok e' →
        e.env.value? key = e'.env.value? key) ∧
    (∀ j, s.env.DependsOn key j → j = key ∨ nameBefore j key) ∧
    ((∀ name, ¬ nameBefore key name → s.env.value? name = s'.env.value? name) →
      (∀ j name, s.env.DependsOn key j → s.env.LooksOut j name →
        environ.text? name = environ'.text? name) →
      SameSources environ environ' s.env s'.env key) := by
  refine ⟨fun hsame => ⟨fun _ => resolves_congr hsame, ?_⟩, fun j hj => hj.le, .of_upTo⟩
  intro path path' o o' e e' he he'
  obtain ⟨result, hresult, rfl⟩ := Effective.resolve_some_eq_ok_iff.mp he
  obtain ⟨result', hresult', rfl⟩ := Effective.resolve_some_eq_ok_iff.mp he'
  exact (expandAll_eq_ok_iff.mp hresult).value?_congr (expandAll_eq_ok_iff.mp hresult') hsame

/-- Variables the second of which refers to the first, to itself and to one behind it. -/
def shadowing : Settings :=
  { Settings.empty with env := .ofList [("A".toList, "$\x7bH\x7d".toList),
      ("B".toList, "$\x7bA\x7d$\x7bB\x7d$\x7bC\x7d".toList), ("C".toList, "far".toList)] }

/-- The same first two, with another one behind them, and one in front to which nothing refers. -/
def overgrown : Settings :=
  { Settings.empty with
    inheritEnv := some false
    env := .ofList [("0".toList, "$\x7bP\x7d".toList), ("A".toList, "$\x7bH\x7d".toList),
      ("B".toList, "$\x7bA\x7d$\x7bB\x7d$\x7bC\x7d".toList), ("C".toList, "$\x7bB\x7d".toList)] }

/-- An environment with a value for every name to which they refer. -/
def reachable : Environment :=
  [("B".toList, [98]), ("C".toList, [99]), ("H".toList, [104]), ("P".toList, [112])]

/-- The second variable is the same whatever is behind it and whatever it does not refer to; the
third is not, for its value is another one. -/
theorem variable_follows_sources_shadowed :
    SameSources reachable (("P".toList, []) :: reachable) shadowing.env overgrown.env "B".toList ∧
      ∃ e e', Effective.resolve reachable (some ("checkrun.yaml".toList, shadowing)) .none = .ok e ∧
        Effective.resolve (("P".toList, []) :: reachable) (some ("checkrun.toml".toList, overgrown))
          ⟨some 3, true⟩ = .ok e' ∧
        e.env.value? "B".toList = some "hbc".toList ∧
        e.env.value? "B".toList = e'.env.value? "B".toList ∧
        e.env.value? "C".toList ≠ e'.env.value? "C".toList := by
  have hsame : SameSources reachable (("P".toList, []) :: reachable) shadowing.env overgrown.env
      "B".toList := by
    -- From `B` one comes to `A` and no further; `H`, `B` itself and `C` mean the environment.
    have hkey : "B".toList ∈ ["A".toList, "B".toList] := by decide
    apply SameSources.of_closed hkey <;> decide +kernel
  obtain ⟨v, hexpand, hB, hC⟩ : ∃ v, expandAll reachable shadowing.env = .ok v ∧
      v.value? "B".toList = some "hbc".toList ∧ v.value? "C".toList = some "far".toList :=
    ⟨.ofList [("A".toList, "h".toList), ("B".toList, "hbc".toList), ("C".toList, "far".toList)],
      by decide +kernel⟩
  obtain ⟨v', hexpand', hC'⟩ : ∃ v', expandAll (("P".toList, []) :: reachable) overgrown.env =
      .ok v' ∧ v'.value? "C".toList = some "hbc".toList :=
    ⟨.ofList [("0".toList, []), ("A".toList, "h".toList), ("B".toList, "hbc".toList),
      ("C".toList, "hbc".toList)], by decide +kernel⟩
  have he : Effective.resolve reachable (some ("checkrun.yaml".toList, shadowing)) .none =
      .ok (shadowing.effective v .none) := Effective.resolve_some_eq_ok_iff.mpr ⟨v, hexpand, rfl⟩
  have he' : Effective.resolve (("P".toList, []) :: reachable)
      (some ("checkrun.toml".toList, overgrown)) ⟨some 3, true⟩ =
        .ok (overgrown.effective v' ⟨some 3, true⟩) :=
    Effective.resolve_some_eq_ok_iff.mpr ⟨v', hexpand', rfl⟩
  obtain ⟨hfollows, -⟩ := variable_follows_sources _ _ shadowing overgrown "B".toList
  obtain ⟨-, hvalue⟩ := hfollows hsame
  have hne : v.value? "C".toList ≠ v'.value? "C".toList := by
    rw [hC, hC']
    decide
  exact ⟨hsame, _, _, he, he', hB, hvalue _ _ _ _ _ _ he he', hne⟩

end Settings

end Golden
