import Golden.Proofs.Naming
import Golden.Proofs.Pipeline
import Mathlib.Data.List.Induction

/-!
# Resolution of variables

The variables of a configuration are expanded from the first name to the last, so that a reference
can only look down: it means the variable of its name if that comes before the variable in which the
reference stands, and else what the runner's environment says. What a variable resolves to is said
here without an order of work, by a relation between the variables and their answers; a variable
that refers to itself, or two that refer to each other, are nothing special in it. Expansion finds
the only collection in which every variable is what its own value says, or the first variable of
which nothing can be made.

## Main definitions

* `Variables.HasBelow` — a name is that of a variable that comes before a key
* `Settings.downward` — what the references in the value of a key mean
* `Settings.Resolves` — a variable resolves to a text, or to a flaw
* `Settings.IsSolution` — every variable is the expansion of its value

## Main results

* `Resolves.unique` — a variable resolves to one answer
* `expandFrom_cases` — expansion resolves all variables, or ends at the first that has a flaw
* `expandAll_solves_downward` — what expansion answers, and when
-/

namespace Golden

variable {environ : Environment} {env v result done : Variables} {key name value x : Text}
  {before rest : List (Text × Text)}

namespace Template

/-- What is made of pieces depends on the values of the names in them alone. -/
theorem fill_congr {value? value?' : Text → Option Text} {ps : List Piece}
    (h : ∀ name ∈ ps.filterMap Piece.name?, value? name = value?' name) :
    fill value? ps = fill value?' ps := by
  induction ps with
  | nil => rfl
  | cons p rest ih =>
    have hrest : ∀ name ∈ rest.filterMap Piece.name?, value? name = value?' name := by
      intro name hname
      obtain ⟨q, hq, hnamed⟩ := List.mem_filterMap.mp hname
      exact h name (List.mem_filterMap.mpr ⟨q, List.mem_cons_of_mem p hq, hnamed⟩)
    cases p with
    | plain c => rw [fill, fill, ih hrest]
    | reference name =>
      have hname : value? name = value?' name := by
        apply h
        exact List.mem_filterMap.mpr ⟨.reference name, List.mem_cons_self, rfl⟩
      rw [fill, fill, hname, ih hrest]
    | unclosed text => rfl

/-- The expansion of a value depends on the values of the names that it refers to alone. -/
theorem expand_congr {value? value?' : Text → Option Text}
    (h : ∀ name ∈ names value, value? name = value?' name) :
    expand value? value = expand value?' value :=
  fill_congr h

end Template

namespace Variables

/-- Whether a name is that of a variable that comes before a key. -/
def HasBelow (v : Variables) (key name : Text) : Prop :=
  (v.value? name).isSome ∧ nameBefore name key

instance (v : Variables) (key name : Text) : Decidable (v.HasBelow key name) :=
  inferInstanceAs (Decidable (_ ∧ _))

theorem value?_of_entries (h : v.entries = before ++ (key, value) :: rest) :
    v.value? key = some value := by
  rw [value?_eq_some_iff, h]
  exact List.mem_append_right before List.mem_cons_self

/-- The variables before a key are the entries before it. -/
theorem hasBelow_iff_mem (h : v.entries = before ++ (key, value) :: rest) :
    v.HasBelow key name ↔ name ∈ before.map Prod.fst := by
  have hsorted := v.sorted
  rw [h] at hsorted
  obtain ⟨-, hlater, hearlier⟩ := List.pairwise_append.mp hsorted
  rw [HasBelow, isSome_value?_iff, h, List.map_append, List.mem_append, List.map_cons]
  constructor
  · rintro ⟨hmem | hmem, hbefore⟩
    · exact hmem
    · exfalso
      rcases List.mem_cons.mp hmem with rfl | hmem
      · exact nameBefore_irrefl _ hbefore
      · obtain ⟨e, he, rfl⟩ := List.mem_map.mp hmem
        exact nameBefore_asymm hbefore ((List.pairwise_cons.mp hlater).1 e he)
  · intro hmem
    obtain ⟨e, he, rfl⟩ := List.mem_map.mp hmem
    exact ⟨.inl hmem, hearlier e he (key, value) List.mem_cons_self⟩

/-- Induction over the variables in their order. -/
theorem induction_below (P : Text → Prop)
    (step : ∀ key value, v.value? key = some value → (∀ name, v.HasBelow key name → P name) → P key)
    (h : (v.value? key).isSome) : P key := by
  have hvisited : ∀ before rest, v.entries = before ++ rest →
      ∀ name ∈ before.map Prod.fst, P name := by
    -- Induction on the part that is visited, from its end: what is below its last entry is in it.
    intro before
    induction before using List.reverseRecOn with
    | nil => simp
    | append_singleton before e ih =>
      intro rest hsplit name hname
      have hsplit' : v.entries = before ++ (e.1, e.2) :: rest := by simpa using hsplit
      rw [List.map_append, List.mem_append] at hname
      rcases hname with hname | hname
      · exact ih _ hsplit' name hname
      · obtain rfl : name = e.1 := by simpa using hname
        apply step e.1 e.2 (value?_of_entries hsplit')
        intro other hbelow
        exact ih _ hsplit' other ((hasBelow_iff_mem hsplit').mp hbelow)
  exact hvisited v.entries [] (by simp) key (isSome_value?_iff.mp h)

end Variables

namespace Settings

/-! ### What a variable resolves to -/

/-- What the references in the value of a key mean: a variable before the key is looked up among
what is known, and every other name in the environment, be it the key itself or a variable behind
it. -/
def downward (environ : Environment) (env : Variables) (known : Text → Option Text)
    (key name : Text) : Option Text :=
  if env.HasBelow key name then known name else environ.text? name

/-- A variable resolves to the expansion of its value, in which the variables before it to which it
refers are what they resolve to themselves. It has no answer if one of these has a flaw. -/
inductive Resolves (environ : Environment) (env : Variables) :
    Text → Except Template.Flaw Text → Prop
  | intro {key value : Text} (known : Text → Text) (hvalue : env.value? key = some value)
      (hknown : ∀ name ∈ Template.names value, env.HasBelow key name →
        Resolves environ env name (.ok (known name))) :
      Resolves environ env key
        (Template.expand (downward environ env (fun name => some (known name)) key) value)

variable {answer answer' : Except Template.Flaw Text} {flaw : Template.Flaw}

theorem downward_congr {known known' : Text → Option Text} (key : Text)
    (h : ∀ name ∈ Template.names value, env.HasBelow key name → known name = known' name) :
    Template.expand (downward environ env known key) value =
      Template.expand (downward environ env known' key) value := by
  apply Template.expand_congr
  intro name hname
  by_cases hbelow : env.HasBelow key name
  · rw [downward, if_pos hbelow, downward, if_pos hbelow, h name hname hbelow]
  · rw [downward, if_neg hbelow, downward, if_neg hbelow]

theorem Resolves.isSome (h : Resolves environ env key answer) : (env.value? key).isSome := by
  cases h with
  | intro known hvalue hknown => rw [hvalue, Option.isSome_some]

/-- A variable resolves to one answer. -/
theorem Resolves.unique (h : Resolves environ env key answer)
    (h' : Resolves environ env key answer') : answer = answer' := by
  induction h generalizing answer' with
  | intro known hvalue hknown ih =>
    cases h' with
    | intro known' hvalue' hknown' =>
      obtain rfl := Option.some.inj (hvalue.symm.trans hvalue')
      -- Both are expansions of one value, by answers for the variables below it that are the same.
      apply downward_congr
      intro name hname hbelow
      have hsame := ih name hname hbelow (hknown' name hname hbelow)
      exact congrArg some (Except.ok.inj hsame)

/-- A variable resolves to what its value expands to by any answers for the variables before it that
these resolve to. -/
theorem resolves_expand {found : Text → Option Text} (hvalue : env.value? key = some value)
    (hfound : ∀ name, env.HasBelow key name →
      ∃ x, found name = some x ∧ Resolves environ env name (.ok x)) :
    Resolves environ env key (Template.expand (downward environ env found key) value) := by
  have hknown (name : Text) (hbelow : env.HasBelow key name) :
      found name = some ((found name).getD []) := by
    obtain ⟨x, hx, -⟩ := hfound name hbelow
    rw [hx, Option.getD_some]
  -- The answers are made total, for the names that are not below the key do not matter.
  rw [downward_congr key fun name _ => hknown name]
  apply Resolves.intro _ hvalue
  intro name _ hbelow
  obtain ⟨x, hx, hresolves⟩ := hfound name hbelow
  rwa [hx, Option.getD_some]

/-! ### The variables that are already expanded -/

/-- Variables that are expanded: they have the names of a part of the configuration, and are what
they resolve to. -/
structure Expanded (environ : Environment) (env : Variables) (part : List (Text × Text))
    (done : Variables) : Prop where
  names : ∀ name, (done.value? name).isSome ↔ name ∈ part.map Prod.fst
  values : ∀ name x, done.value? name = some x → Resolves environ env name (.ok x)

theorem Expanded.nil : Expanded environ env [] .empty where
  names name := by simp [Variables.value?, Variables.empty]
  values name x h := by simp [Variables.value?, Variables.empty] at h

/-- A variable of the part has a value, and it is the one to which it resolves. -/
theorem Expanded.exists_resolves (h : Expanded environ env before done)
    (hname : name ∈ before.map Prod.fst) :
    ∃ x, done.value? name = some x ∧ Resolves environ env name (.ok x) := by
  obtain ⟨x, hx⟩ := Option.isSome_iff_exists.mp ((h.names name).mpr hname)
  exact ⟨x, hx, h.values name x hx⟩

/-- To look among the expanded variables first and then in the environment is to look downward. -/
theorem Expanded.lookup_eq (h : Expanded environ env before done)
    (hsplit : env.entries = before ++ (key, value) :: rest) :
    (fun name => (done.value? name).or (environ.text? name)) =
      downward environ env done.value? key := by
  funext name
  by_cases hbelow : env.HasBelow key name
  · obtain ⟨x, hx, -⟩ := h.exists_resolves ((Variables.hasBelow_iff_mem hsplit).mp hbelow)
    rw [downward, if_pos hbelow, hx, Option.some_or]
  · have hnone : done.value? name = none := by
      rw [← Option.not_isSome_iff_eq_none, h.names, ← Variables.hasBelow_iff_mem hsplit]
      exact hbelow
    rw [downward, if_neg hbelow, hnone, Option.none_or]

/-- The next variable resolves to its expansion. -/
theorem Expanded.resolves_next (h : Expanded environ env before done)
    (hsplit : env.entries = before ++ (key, value) :: rest) :
    Resolves environ env key
      (Template.expand (fun name => (done.value? name).or (environ.text? name)) value) := by
  rw [h.lookup_eq hsplit]
  apply resolves_expand (Variables.value?_of_entries hsplit)
  intro name hbelow
  exact h.exists_resolves ((Variables.hasBelow_iff_mem hsplit).mp hbelow)

/-- With what it resolves to, the next variable is expanded too. -/
theorem Expanded.put (h : Expanded environ env before done)
    (hnext : Resolves environ env key (.ok x)) :
    Expanded environ env (before ++ [(key, value)]) (done.put key x) where
  names name := by
    rw [Variables.value?_put]
    by_cases hname : name = key
    · simp [hname]
    · simp [hname, h.names name]
  values name y hy := by
    rw [Variables.value?_put] at hy
    by_cases hname : name = key
    · rw [if_pos hname] at hy
      obtain rfl := Option.some.inj hy
      rwa [hname]
    · rw [if_neg hname] at hy
      exact h.values name y hy

/-- A variable is the first that has a flaw: all before it resolve to a text. -/
structure FailsFirst (environ : Environment) (env : Variables) (key : Text)
    (flaw : Template.Flaw) : Prop where
  fails : Resolves environ env key (.error flaw)
  below : ∀ name, env.HasBelow key name → ∃ x, Resolves environ env name (.ok x)

/-- Expansion resolves all variables, or it ends at the first that has a flaw. -/
theorem expandFrom_cases (h : Expanded environ env before done)
    (hsplit : env.entries = before ++ rest) :
    (∃ result, expandFrom environ done rest = .ok result ∧
      Expanded environ env env.entries result) ∨
    ∃ key value flaw, env.value? key = some value ∧ FailsFirst environ env key flaw ∧
      expandFrom environ done rest = .error (problemOf value flaw) := by
  -- Induction on what is left; of the part before it, being expanded is what every step keeps.
  induction rest generalizing before done with
  | nil =>
    rw [List.append_nil] at hsplit
    exact .inl ⟨done, rfl, hsplit ▸ h⟩
  | cons e rest ih =>
    obtain ⟨key, value⟩ := e
    have hnext := h.resolves_next hsplit
    cases hexpand : Template.expand (fun n => (done.value? n).or (environ.text? n)) value with
    | error flaw =>
      have hfirst : FailsFirst environ env key flaw := by
        refine ⟨hexpand ▸ hnext, fun name hbelow => ?_⟩
        obtain ⟨x, -, hx⟩ := h.exists_resolves ((Variables.hasBelow_iff_mem hsplit).mp hbelow)
        exact ⟨x, hx⟩
      have hvalue := Variables.value?_of_entries hsplit
      exact .inr ⟨key, value, flaw, hvalue, hfirst, by rw [expandFrom, hexpand]⟩
    | ok x =>
      rw [hexpand] at hnext
      have hstep : expandFrom environ done ((key, value) :: rest) =
          expandFrom environ (done.put key x) rest := by rw [expandFrom, hexpand]
      rw [hstep]
      have hdone : Expanded environ env (before ++ [(key, value)]) (done.put key x) := h.put hnext
      exact ih hdone (by simp [hsplit])

theorem expandAll_cases (environ : Environment) (env : Variables) :
    (∃ result, expandAll environ env = .ok result ∧ Expanded environ env env.entries result) ∨
    ∃ key value flaw, env.value? key = some value ∧ FailsFirst environ env key flaw ∧
      expandAll environ env = .error (problemOf value flaw) :=
  expandFrom_cases .nil rfl

/-! ### The solution -/

/-- A collection of the names of a configuration in which every variable is the expansion of its
value, where the references look down in the collection itself. -/
structure IsSolution (environ : Environment) (env result : Variables) : Prop where
  names : ∀ name, (result.value? name).isSome ↔ (env.value? name).isSome
  values : ∀ key value, env.value? key = some value → ∃ x, result.value? key = some x ∧
    Template.expand (downward environ env result.value? key) value = .ok x

/-- In a solution every variable is what it resolves to. -/
theorem IsSolution.resolves (h : IsSolution environ env result) (hkey : (env.value? key).isSome) :
    ∃ x, result.value? key = some x ∧ Resolves environ env key (.ok x) := by
  apply Variables.induction_below
    (fun key => ∃ x, result.value? key = some x ∧ Resolves environ env key (.ok x)) _ hkey
  intro key value hvalue hbelow
  obtain ⟨x, hx, hexpand⟩ := h.values key value hvalue
  exact ⟨x, hx, hexpand ▸ resolves_expand hvalue hbelow⟩

/-- There is one solution, in which the variables are what they resolve to. -/
theorem isSolution_iff_expanded :
    IsSolution environ env result ↔ Expanded environ env env.entries result := by
  constructor
  · intro h
    refine ⟨fun name => ?_, fun name x hx => ?_⟩
    · rw [h.names, Variables.isSome_value?_iff]
    · have hname : (env.value? name).isSome := (h.names name).mp (by simp [hx])
      obtain ⟨y, hy, hresolves⟩ := h.resolves hname
      obtain rfl := Option.some.inj (hx.symm.trans hy)
      exact hresolves
  · intro h
    refine ⟨fun name => ?_, fun key value hvalue => ?_⟩
    · rw [h.names, Variables.isSome_value?_iff]
    · have hkey : key ∈ env.entries.map Prod.fst := by
        rw [← Variables.isSome_value?_iff, hvalue, Option.isSome_some]
      obtain ⟨x, hx, hresolves⟩ := h.exists_resolves hkey
      refine ⟨x, hx, ?_⟩
      have hexpand : Resolves environ env key
          (Template.expand (downward environ env result.value? key) value) := by
        apply resolves_expand hvalue
        intro name hbelow
        exact h.exists_resolves (Variables.isSome_value?_iff.mp hbelow.1)
      exact hexpand.unique hresolves

/-- Where all variables are expanded, none has a flaw. -/
theorem Expanded.not_fails (h : Expanded environ env env.entries result) :
    ¬ Resolves environ env key (.error flaw) := by
  intro hfails
  obtain ⟨x, -, hx⟩ := h.exists_resolves (Variables.isSome_value?_iff.mp hfails.isSome)
  cases hfails.unique hx

theorem Expanded.unique (h : Expanded environ env before result)
    (h' : Expanded environ env before done) : result = done := by
  apply Variables.ext_of_value?
  intro name
  by_cases hname : name ∈ before.map Prod.fst
  · obtain ⟨x, hx, hresolves⟩ := h.exists_resolves hname
    obtain ⟨y, hy, hresolves'⟩ := h'.exists_resolves hname
    obtain rfl := Except.ok.inj (hresolves.unique hresolves')
    rw [hx, hy]
  · have hnone := (h.names name).not.mpr hname
    have hnone' := (h'.names name).not.mpr hname
    rw [Option.not_isSome_iff_eq_none] at hnone hnone'
    rw [hnone, hnone']

/-- No variable that has a flaw is before the first. -/
theorem FailsFirst.not_nameBefore {flaw' : Template.Flaw} (h : FailsFirst environ env key flaw)
    (hname : Resolves environ env name (.error flaw')) : ¬ nameBefore name key := by
  intro hlt
  obtain ⟨x, hx⟩ := h.below name ⟨hname.isSome, hlt⟩
  cases hname.unique hx

/-- Only one variable is the first that has a flaw, and it has only one. -/
theorem FailsFirst.unique {key' : Text} {flaw' : Template.Flaw}
    (h : FailsFirst environ env key flaw) (h' : FailsFirst environ env key' flaw') :
    key = key' ∧ flaw = flaw' := by
  obtain rfl := eq_of_not_nameBefore (h'.not_nameBefore h.fails) (h.not_nameBefore h'.fails)
  exact ⟨rfl, Except.error.inj (h.fails.unique h'.fails)⟩

theorem expandAll_eq_ok_iff :
    expandAll environ env = .ok result ↔ IsSolution environ env result := by
  rw [isSolution_iff_expanded]
  rcases expandAll_cases environ env with ⟨found, hfound, hexpanded⟩ |
    ⟨key, value, flaw, hvalue, hfirst, herror⟩
  · rw [hfound, Except.ok.injEq]
    constructor
    · rintro rfl
      exact hexpanded
    · exact hexpanded.unique
  · rw [herror]
    constructor
    · nofun
    · intro h
      exact absurd hfirst.fails h.not_fails

theorem expandAll_eq_error_iff {problem : Problem} :
    expandAll environ env = .error problem ↔ ∃ key value flaw, env.value? key = some value ∧
      FailsFirst environ env key flaw ∧ problem = problemOf value flaw := by
  rcases expandAll_cases environ env with ⟨found, hfound, hexpanded⟩ |
    ⟨key, value, flaw, hvalue, hfirst, herror⟩
  · rw [hfound]
    constructor
    · nofun
    · rintro ⟨key, value, flaw, -, hfirst, -⟩
      exact absurd hfirst.fails hexpanded.not_fails
  · rw [herror, Except.error.injEq]
    constructor
    · rintro rfl
      exact ⟨key, value, flaw, hvalue, hfirst, rfl⟩
    · rintro ⟨key', value', flaw', hvalue', hfirst', rfl⟩
      obtain ⟨rfl, rfl⟩ := hfirst.unique hfirst'
      rw [Option.some.inj (hvalue.symm.trans hvalue')]

/-- Expansion answers if every variable resolves to a text. -/
theorem exists_expandAll_eq_ok_iff : (∃ result, expandAll environ env = .ok result) ↔
    ∀ key, (env.value? key).isSome → ∃ x, Resolves environ env key (.ok x) := by
  constructor
  · rintro ⟨result, hresult⟩ key hkey
    obtain ⟨x, -, hx⟩ := (expandAll_eq_ok_iff.mp hresult).resolves hkey
    exact ⟨x, hx⟩
  · intro h
    rcases expandAll_cases environ env with ⟨result, hresult, -⟩ | ⟨key, -, flaw, -, hfirst, -⟩
    · exact ⟨result, hresult⟩
    · obtain ⟨x, hx⟩ := h key hfirst.fails.isSome
      cases hfirst.fails.unique hx

/-- The first variable that has a flaw is the least of those that have one. -/
theorem failsFirst_iff : FailsFirst environ env key flaw ↔
    Resolves environ env key (.error flaw) ∧
      ∀ name flaw', Resolves environ env name (.error flaw') → ¬ nameBefore name key := by
  constructor
  · intro h
    exact ⟨h.fails, fun name flaw' hname => h.not_nameBefore hname⟩
  · rintro ⟨hfails, hleast⟩
    rcases expandAll_cases environ env with ⟨_, -, hexpanded⟩ | ⟨first, -, flaw', -, hfirst, -⟩
    · exact absurd hfails hexpanded.not_fails
    · -- The variable at which expansion ends is not before the key, nor is the key before it.
      obtain rfl := eq_of_not_nameBefore (hfirst.not_nameBefore hfails)
        (hleast first flaw' hfirst.fails)
      exact ⟨hfails, hfirst.below⟩

/-! ### The settings of a run -/

/-- The settings of a configuration are there if its variables can be expanded, and the problem of a
variable is one of the file. -/
theorem resolve_eq_expandAll (environ : Environment) (path : Path) (s : Settings) (o : Overrides) :
    Effective.resolve environ (some (path, s)) o =
      ((expandAll environ s.env).mapError (Fault.config path)).map fun result =>
        s.effective result o := by
  cases hexpand : expandAll environ s.env with
  | error problem =>
    rw [Effective.resolve, Effective.ofSettings, hexpand]
    rfl
  | ok result => exact Effective.resolve_some_eq_ok_iff.mpr ⟨result, hexpand, rfl⟩

/-- **Variables resolve downward, to the only solution or to the least flaw.** Expansion answers
with the one collection of the same names in which every variable is the expansion of its value,
where a reference means a variable before it in that collection, or else what the environment says;
it answers if every variable resolves to a text. Otherwise it reports the first of the variables
that resolve to a flaw. It does not matter in which order the variables were stored: they are
visited by the bytes of their names. With a file the answer is that of the settings, and the problem
is one of that file. -/
theorem expandAll_solves_downward (environ : Environment) (env : Variables) :
    (∀ result, expandAll environ env = .ok result ↔ IsSolution environ env result) ∧
    ((∃ result, expandAll environ env = .ok result) ↔
      ∀ key, (env.value? key).isSome → ∃ x, Resolves environ env key (.ok x)) ∧
    (∀ problem, expandAll environ env = .error problem ↔
      ∃ key value flaw, env.value? key = some value ∧ Resolves environ env key (.error flaw) ∧
        (∀ name flaw', Resolves environ env name (.error flaw') → ¬ nameBefore name key) ∧
        problem = problemOf value flaw) ∧
    (∀ stored, stored.Perm env.entries → Variables.ofList stored = env ∧
      expandFrom environ .empty
        (stored.mergeSort fun a b => Utf8.encode a.1 ≤ Utf8.encode b.1) = expandAll environ env) ∧
    ∀ (path : Path) (s : Settings) (o : Overrides),
      Effective.resolve environ (some (path, { s with env := env })) o =
        ((expandAll environ env).mapError (Fault.config path)).map fun result =>
          s.effective result o := by
  refine ⟨fun result => expandAll_eq_ok_iff, exists_expandAll_eq_ok_iff, ?_, ?_, ?_⟩
  · intro problem
    simp only [expandAll_eq_error_iff, failsFirst_iff, and_assoc]
  · intro stored hstored
    rw [Variables.mergeSort_eq_entries hstored]
    exact ⟨Variables.ofList_eq_of_perm hstored, rfl⟩
  · intro path s o
    exact resolve_eq_expandAll environ path { s with env := env } o

/-- Variables two of which refer to themselves or to each other, and two whose names are in the
order of their bytes but not of their UTF-16 code units. -/
def entangled : Variables := .ofList
  [("A".toList, "$\x7bB\x7d-$\x7bA\x7d".toList), ("B".toList, "$\x7bA\x7d!".toList),
    ("ﬀ".toList, "$\x7b😀\x7d".toList), ("😀".toList, "$\x7bﬀ\x7d$\x7bB\x7d".toList)]

/-- An environment with a value for every reference in them that does not look down. -/
def surrounding : Environment := [("A".toList, [97]), ("B".toList, [98]), ("😀".toList, [99])]

/-- What the variables resolve to in that environment. -/
def disentangled : Variables := .ofList
  [("A".toList, "b-a".toList), ("B".toList, "b-a!".toList), ("ﬀ".toList, "c".toList),
    ("😀".toList, "cb-a!".toList)]

/-- Stored the other way round the variables resolve to the same, and in an environment that gives
none of the references a value the problem is that of the first variable, `A`. -/
theorem expandAll_solves_downward_entangled :
    entangled.entries.reverse.Perm entangled.entries ∧
      expandFrom surrounding .empty (entangled.entries.reverse.mergeSort
        fun a b => Utf8.encode a.1 ≤ Utf8.encode b.1) = .ok disentangled ∧
      IsSolution surrounding entangled disentangled ∧
      Effective.resolve [] (some ("d".toList, { Settings.empty with env := entangled })) .none =
        .error (.config "d".toList (.unset "B".toList)) := by
  have hperm : entangled.entries.reverse.Perm entangled.entries := entangled.entries.reverse_perm
  have hok : expandAll surrounding entangled = .ok disentangled := by decide +kernel
  have herror : expandAll [] entangled = .error (.unset "B".toList) := by decide +kernel
  obtain ⟨hsolves, -, -, hstored, -⟩ := expandAll_solves_downward surrounding entangled
  obtain ⟨-, -, -, -, hresolve⟩ := expandAll_solves_downward [] entangled
  refine ⟨hperm, (hstored _ hperm).2.trans hok, (hsolves disentangled).mp hok, ?_⟩
  rw [hresolve, herror]
  rfl

end Settings

end Golden
