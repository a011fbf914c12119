import Golden.Execution

/-!
# Stages that may fail

A run goes through stages, and the first that fails speaks. Here is how a chain of stages comes to
an answer: every stage of it answers, and the last answer is that of the chain. What stands behind
the stages may never answer, and then neither does the chain.
-/

namespace Golden.Stage

variable {ε ε' α β : Type} {x : Except ε α}

theorem bind_ok (a : α) (f : α → Except ε β) : ((Except.ok a : Except ε α) >>= f) = f a := rfl

theorem bind_error (e : ε) (f : α → Except ε β) :
    ((Except.error e : Except ε α) >>= f) = .error e := rfl

/-- Chains agree if their first stages do, and the stages behind what these answer. -/
theorem bind_congr {y : Except ε α} {f g : α → Except ε β} (hx : x = y)
    (hf : ∀ a, x = .ok a → f a = g a) : (x >>= f) = (y >>= g) := by
  subst hx
  cases x with
  | error e => rfl
  | ok a => exact hf a rfl

theorem bind_eq_ok_iff {f : α → Except ε β} {b : β} :
    (x >>= f) = .ok b ↔ ∃ a, x = .ok a ∧ f a = .ok b := by
  cases x <;> simp [bind, Except.bind]

/-- A chain fails where its first stage fails, or else where the stages behind it do. -/
theorem bind_eq_error_iff {f : α → Except ε β} {e : ε} :
    (x >>= f) = .error e ↔ x = .error e ∨ ∃ a, x = .ok a ∧ f a = .error e := by
  cases x <;> simp [bind, Except.bind]

/-- Working on the answer of a stage does not make it fail. -/
theorem map_eq_ok_iff {f : α → β} {b : β} : x.map f = .ok b ↔ ∃ a, x = .ok a ∧ f a = b := by
  cases x <;> simp [Except.map]

theorem mapError_eq_ok_iff {f : ε → ε'} {a : α} : x.mapError f = .ok a ↔ x = .ok a := by
  cases x with
  | error fault =>
    have hfault : (Except.error fault : Except ε α).mapError f = .error (f fault) := rfl
    simp [hfault]
  | ok answer =>
    have hanswer : (Except.ok answer : Except ε α).mapError f = .ok answer := rfl
    simp [hanswer]

theorem pure_eq_error_iff {a : α} {e : ε} : (pure a : Except ε α) = .error e ↔ False := by
  simp [pure, Except.pure]

theorem pure_eq_ok_iff {a b : α} : (pure a : Except ε α) = .ok b ↔ a = b := by
  simp [pure, Except.pure]

end Golden.Stage

namespace Golden.Execution

variable {α β : Type} {stage : Except Fault α} {next : α → Option (Except Fault β)}

theorem proceed_ok (answer : α) (next : α → Option (Except Fault β)) :
    proceed (.ok answer) next = next answer := rfl

theorem proceed_error (fault : Fault) (next : α → Option (Except Fault β)) :
    proceed (.error fault) next = some (.error fault) := rfl

/-- What comes of two chains is the same if their first stages agree, and what stands behind these
answers. -/
theorem proceed_congr {stage' : Except Fault α} {next' : α → Option (Except Fault β)}
    (hstage : stage = stage') (hnext : ∀ answer, stage = .ok answer → next answer = next' answer) :
    proceed stage next = proceed stage' next' := by
  subst hstage
  cases stage with
  | error fault => rfl
  | ok answer => exact hnext answer rfl

/-- Working on an answer that may not come does not make it come or fail. -/
theorem map_map_eq_some_ok_iff {x : Option (Except Fault α)} {f : α → β} {b : β} :
    x.map (·.map f) = some (.ok b) ↔ ∃ a, x = some (.ok a) ∧ f a = b := by
  cases x with
  | none => simp
  | some answer => simp [Stage.map_eq_ok_iff]

end Golden.Execution
