import Golden.Proofs.Bystanders

/-!
# The present of a directory

A session goes on over the files that its steps have left. Asking changes none of them, and what
stands at a location is told by what stood there first and by the deletions and writes since, one
location at a time. A tree keeps its nodes in a list that is in the order of its history, and no
answer sees that order. So nothing of the past reaches an answer but what it has left in the
directory: not what was asked, not in which environment, not by which subject, and not on which way
the files have come about.

## Main definitions

* `Tree.SameNodes` — two trees have the same node at every location
* `Change.nodeAfter`, `Session.nodeAfter` — what changes make of the node at a location

## Main results

* `Tree.node?_put`, `Change.node?_apply` — what stands at a location after a change
* `Session.answer_congr` — trees with the same nodes give the same answer
* `Session.run_congr`, `Session.run_replicate` — and so they do for a whole session
* `Session.answers_depend_on_present` — an answer depends on what the directory holds, and on
  nothing else that happened before
-/

namespace Golden

deriving instance DecidableEq for FileKind, Node

variable {t t' : Tree} {base : Location}

namespace Tree

/-- Two trees have the same node at every location. -/
def SameNodes (t t' : Tree) : Prop :=
  ∀ l, t.node? l = t'.node? l

theorem SameNodes.shape (h : t.SameNodes t') : t.SameShape t' := by
  intro l
  rw [h l]

/-- A tree has no node but the root at a location that is not among its entries. -/
theorem node?_of_forall_ne {l : Location} (hroot : l ≠ []) (hother : ∀ e ∈ t.entries, e.1 ≠ l) :
    t.node? l = none := by
  rw [node?, if_neg hroot, List.lookup_eq_none_iff]
  intro e he
  simpa using (hother e he).symm

/-- Only the locations of entries have to be compared. -/
theorem sameNodes_iff_forall_mem :
    t.SameNodes t' ↔ ∀ e ∈ t.entries ++ t'.entries, t.node? e.1 = t'.node? e.1 := by
  constructor
  · intro h e _
    exact h e.1
  · intro h l
    by_cases hroot : l = []
    · rw [hroot]
      rfl
    · by_cases hentry : ∃ e ∈ t.entries ++ t'.entries, e.1 = l
      · obtain ⟨e, he, rfl⟩ := hentry
        exact h e he
      · have hne (e : Location × Node) (he : e ∈ t.entries ++ t'.entries) : e.1 ≠ l :=
          fun heq => hentry ⟨e, he, heq⟩
        rw [node?_of_forall_ne hroot fun e he => hne e (List.mem_append_left _ he),
          node?_of_forall_ne hroot fun e he => hne e (List.mem_append_right _ he)]

instance (t t' : Tree) : Decidable (t.SameNodes t') :=
  decidable_of_iff _ sameNodes_iff_forall_mem.symm

theorem node?_ensure (t : Tree) (l k : Location) :
    (t.ensure l).node? k =
      if k = l then some ((t.node? k).getD .directory) else t.node? k := by
  rw [ensure]
  by_cases hk : k = l
  · subst hk
    rw [if_pos rfl]
    cases hnode : t.node? k with
    | some node => simp [hnode]
    | none =>
      have hroot : k ≠ [] := by
        rintro rfl
        simp [node?] at hnode
      simp [node?_replace_self hroot]
  · rw [if_neg hk]
    split
    · rfl
    · exact node?_replace_of_ne hk t _

theorem node?_foldl_ensure (places : List Location) (t : Tree) (k : Location) :
    (places.foldl ensure t).node? k =
      if k ∈ places then some ((t.node? k).getD .directory) else t.node? k := by
  induction places generalizing t with
  | nil => simp
  | cons l rest ih =>
    rw [List.foldl_cons, ih, node?_ensure]
    by_cases hk : k = l <;> simp [hk]

/-- After a node was put at a location, it stands there, directories stand on the way to it where
there was nothing, and all else is as before. The root stays a directory. -/
theorem node?_put (t : Tree) (l : Location) (node : Node) (k : Location) :
    (t.put l node).node? k =
      if k = l ∧ l ≠ [] then some node
      else if k ∈ Location.above l then some ((t.node? k).getD .directory)
      else t.node? k := by
  rw [put]
  by_cases hk : k = l
  · subst hk
    by_cases hroot : k = []
    · simp [hroot, node?]
    · rw [node?_replace_self hroot, if_pos ⟨rfl, hroot⟩]
  · have hleft : ¬ (k = l ∧ l ≠ []) := fun h => hk h.1
    rw [node?_replace_of_ne hk, node?_foldl_ensure, if_neg hleft]

end Tree

/-! ### What changes make of a node -/

namespace Change

/-- What a deletion at a place makes of the node at a location: a file there is gone. -/
def nodeAfterDelete (place l : Location) (node : Option Node) : Option Node :=
  if l = place && node.any Node.isFile then none else node

/-- What a write at a place makes of the node at a location. -/
def nodeAfterPut (place l : Location) (new : Node) (node : Option Node) : Option Node :=
  if l = place ∧ place ≠ [] then some new
  else if l ∈ Location.above place then some (node.getD .directory)
  else node

/-- What a change below a directory makes of the node at a location. -/
def nodeAfter (base l : Location) (c : Change) (node : Option Node) : Option Node :=
  let left := c.removed.foldl (fun node path => nodeAfterDelete (place base path) l node) node
  c.written.foldl (fun node w => nodeAfterPut (place base w.1) l w.2 node) left

theorem node?_delete (t : Tree) (place l : Location) :
    (delete t place).node? l = nodeAfterDelete place l (t.node? l) := by
  rw [delete, nodeAfterDelete]
  by_cases hl : l = place
  · subst hl
    cases hfile : (t.node? l).any Node.isFile with
    | false => simp
    | true =>
      have hroot : l ≠ [] := by
        rintro rfl
        simp [Tree.node?, Node.isFile] at hfile
      simp [Tree.node?_remove_self hroot]
  · simp only [hl, decide_false, Bool.false_and, Bool.false_eq_true, if_false]
    split
    · exact Tree.node?_remove_of_ne hl t
    · rfl

theorem node?_foldl_delete (base : Location) (removed : List Path) (t : Tree) (l : Location) :
    (removed.foldl (fun t path => delete t (place base path)) t).node? l =
      removed.foldl (fun node path => nodeAfterDelete (place base path) l node) (t.node? l) := by
  induction removed generalizing t with
  | nil => rfl
  | cons path rest ih => rw [List.foldl_cons, List.foldl_cons, ih, node?_delete]

theorem node?_foldl_put (base : Location) (written : List (Path × Node)) (t : Tree) (l : Location) :
    (written.foldl (fun t w => t.put (place base w.1) w.2) t).node? l =
      written.foldl (fun node w => nodeAfterPut (place base w.1) l w.2 node) (t.node? l) := by
  induction written generalizing t with
  | nil => rfl
  | cons w rest ih => rw [List.foldl_cons, List.foldl_cons, ih, Tree.node?_put, nodeAfterPut]

/-- What stands at a location after a change is told by what stood there. -/
theorem node?_apply (base : Location) (t : Tree) (c : Change) (l : Location) :
    (c.apply base t).node? l = c.nodeAfter base l (t.node? l) := by
  rw [apply, node?_foldl_put, node?_foldl_delete, nodeAfter]

end Change

namespace Tree.SameNodes

theorem apply (h : t.SameNodes t') (base : Location) (c : Change) :
    (c.apply base t).SameNodes (c.apply base t') := by
  intro l
  rw [Change.node?_apply, Change.node?_apply, h l]

theorem put (h : t.SameNodes t') (l : Location) (node : Node) :
    (t.put l node).SameNodes (t'.put l node) := by
  intro k
  rw [node?_put, node?_put, h k]

end Tree.SameNodes

/-! ### What a session sees -/

namespace Session

variable {s : Session}

/-- What the changes of a session make of the node at a location, one change after the other. -/
def nodeAfter (s : Session) (l : Location) (changes : List Change) (node : Option Node) :
    Option Node :=
  changes.foldl (fun node c => c.nodeAfter s.directory l node) node

/-- What stands at a location is told by what stood there first and by the changes since. -/
theorem node?_filesAfter (s : Session) (t : Tree) (steps : List Step) (l : Location) :
    (s.filesAfter t steps).node? l = s.nodeAfter l (steps.map Step.change) (t.node? l) := by
  induction steps generalizing t with
  | nil => rfl
  | cons step rest ih =>
    rw [filesAfter, List.foldl_cons, ← filesAfter, ih, Change.node?_apply]
    rfl

/-- Trees with the same nodes give the same answer, in the same environment and for the same
subject. -/
theorem answer_congr (h : t.SameNodes t') (step : Step) :
    (s.world t step).answer step.query = (s.world t' step).answer step.query := by
  have hnodes : (s.withSubject t step.subject).SameNodes (s.withSubject t' step.subject) := by
    cases step.subject with
    | none => exact h
    | some script => exact h.put _ _
  -- The worlds resemble each other, and the bytes of every file are the same in both.
  have hresembles : (s.world t step).Resembles (s.world t' step) := ⟨rfl, rfl, rfl, hnodes.shape⟩
  exact hresembles.answer_eq step.query (fun place _ => hnodes place) fun place _ => hnodes place

/-- Steps are answered alike over trees with the same nodes. -/
theorem run_congr (h : t.SameNodes t') (steps : List Step) : s.run t steps = s.run t' steps := by
  induction steps generalizing t t' with
  | nil => rfl
  | cons step rest ih =>
    have hchanged := h.apply s.directory step.change
    rw [run, run, answer_congr hchanged, ih hchanged]

theorem filesAfter_concat (s : Session) (t : Tree) (steps : List Step) (step : Step) :
    s.filesAfter t (steps ++ [step]) = step.change.apply s.directory (s.filesAfter t steps) :=
  List.foldl_concat _ _ _ _

/-- What steps are told after others is what they are told over the files that those have left. -/
theorem drop_run_append (s : Session) (t : Tree) (steps more : List Step) :
    (s.run t (steps ++ more)).drop steps.length = s.run (s.filesAfter t steps) more := by
  rw [run_append, ← s.length_run t steps, List.drop_left]

/-- A step that leaves every node in its place is told the same however often it is taken. -/
theorem run_replicate {step : Step} (h : (step.change.apply s.directory t).SameNodes t) (n : Nat) :
    s.run t (List.replicate n step) =
      List.replicate n ((s.world t step).answer step.query) := by
  induction n with
  | zero => rfl
  | succ n ih =>
    -- The step comes back to the nodes that it began with.
    rw [List.replicate_succ, List.replicate_succ, run, answer_congr h, run_congr h, ih]

/-- **Nothing but the present counts.** What a directory holds is told by what it held first and by
the deletions and writes since, location by location. An answer in a session is the answer to the
same question alone over any files that are brought, by any change, to have the same nodes; so two
sessions that have left the same nodes go on alike, and it does not matter what was asked before, in
which environment or by which subject. A step that leaves every node in its place is told the same
however often it is taken. -/
theorem answers_depend_on_present (s : Session) :
    (∀ t steps l, (s.filesAfter t steps).node? l =
      s.nodeAfter l (steps.map Step.change) (t.node? l)) ∧
    (∀ t before step after fresh change,
      (change.apply s.directory fresh).SameNodes (s.filesAfter t (before ++ [step])) →
      (s.run t (before ++ step :: after))[before.length]? =
        (s.run fresh [{ step with change := change }]).head?) ∧
    (∀ t t' steps steps' more, (s.filesAfter t steps).SameNodes (s.filesAfter t' steps') →
      (s.run t (steps ++ more)).drop steps.length =
        (s.run t' (steps' ++ more)).drop steps'.length) ∧
    (∀ t steps steps' more, steps.map Step.change = steps'.map Step.change →
      (s.run t (steps ++ more)).drop steps.length =
        (s.run t (steps' ++ more)).drop steps'.length) ∧
    ∀ t step n, (step.change.apply s.directory t).SameNodes t →
      s.run t (List.replicate n step) =
        List.replicate n ((s.world t step).answer step.query) := by
  have hgoes : ∀ t t' steps steps' more,
      (s.filesAfter t steps).SameNodes (s.filesAfter t' steps') →
      (s.run t (steps ++ more)).drop steps.length =
        (s.run t' (steps' ++ more)).drop steps'.length := by
    intro t t' steps steps' more h
    rw [drop_run_append, drop_run_append, run_congr h]
  refine ⟨s.node?_filesAfter, ?_, hgoes, ?_, fun _ _ n h => run_replicate h n⟩
  · intro t before step after fresh change h
    rw [filesAfter_concat] at h
    have hnext : (s.run t (before ++ step :: after))[before.length]? =
        (s.run (s.filesAfter t before) (step :: after)).head? := by
      rw [← drop_run_append, List.head?_drop]
    rw [hnext, run, run, List.head?_cons, List.head?_cons]
    exact congrArg some (answer_congr h step).symm
  · intro t steps steps' more h
    apply hgoes
    intro l
    rw [node?_filesAfter, node?_filesAfter, h]

/-- A directory with nothing in it, and a place for subjects outside of it. -/
def shared : Session := ⟨[['d']], [['s']], .unknown⟩

/-- The files before the first step. -/
def bare : Tree := ⟨[([['d']], .directory)]⟩

/-- A file with a text in it. -/
def textFile (text : String) : Node := .file (Utf8.encode text.toList) .plain

/-- A test case appears beside a configuration of the first name, which is none. -/
def appearing : Step where
  change := ⟨[],
    [(['c'], textFile "# CHECK: N=2\n"), ("checkrun.yaml".toList, textFile "env: [\n")]⟩
  environ := [(['N'], Utf8.encode ['1'])]
  subject := some []
  query := .applied ['c'] ⟨none, false⟩

/-- That configuration makes way for one of the second name. -/
def switching : Step where
  change := ⟨["checkrun.yaml".toList], [("checkrun.toml".toList, textFile "[env]\nN = \"2\"\n")]⟩
  environ := [(['N'], Utf8.encode ['3'])]
  subject := none
  query := .testCase ['c']

/-- Nothing is changed, and a subject shows a variable. -/
def showing : Step where
  change := ⟨[], []⟩
  environ := []
  subject := some [.showVariable ['N']]
  query := .report ["/s".toList, ['c']]

/-- What is left in the directory, the file that came last written first. -/
def leftOver : Change :=
  ⟨[],
    [("checkrun.toml".toList, textFile "[env]\nN = \"2\"\n"), (['c'], textFile "# CHECK: N=2\n")]⟩

/-- The run passes after those two steps as it passes alone over what they have left, whatever else
they did, and it goes on to pass. -/
theorem answers_depend_on_present_switching :
    (leftOver.apply shared.directory bare).SameNodes
      (shared.filesAfter bare ([appearing, switching] ++ [showing])) ∧
    (shared.run bare [appearing, switching, showing])[2]? =
      some (.report (some (.verdict .pass))) ∧
    (shared.filesAfter bare [appearing, switching]).SameNodes
      (shared.filesAfter bare [{ showing with change := leftOver }]) ∧
    (shared.run bare [appearing, switching, showing]).drop 2 =
      (shared.run bare [{ showing with change := leftOver }, showing]).drop 1 ∧
    (shared.run bare [appearing, switching, showing]).drop 2 =
      (shared.run bare [{ showing with change := appearing.change },
        { showing with change := switching.change }, showing]).drop 2 ∧
    shared.run (leftOver.apply shared.directory bare) (List.replicate 3 showing) =
      List.replicate 3 (.report (some (.verdict .pass))) := by
  obtain ⟨-, halone, hhistory, hasked, hrepeated⟩ := answers_depend_on_present shared
  have hleft : (leftOver.apply shared.directory bare).SameNodes
      (shared.filesAfter bare ([appearing, switching] ++ [showing])) := by decide +kernel
  have hsame : (shared.filesAfter bare [appearing, switching]).SameNodes
      (shared.filesAfter bare [{ showing with change := leftOver }]) := by decide +kernel
  have hpass : (shared.world (leftOver.apply shared.directory bare) showing).report
      ["/s".toList, ['c']] = some (.verdict .pass) := by decide +kernel
  have hanswer : (shared.world (leftOver.apply shared.directory bare) showing).answer
      showing.query = .report (some (.verdict .pass)) := congrArg Answer.report hpass
  refine ⟨hleft, ?_, hsame, hhistory _ _ _ _ [showing] hsame,
    hasked bare [appearing, switching] _ [showing] rfl, ?_⟩
  · rw [← hanswer]
    exact halone bare [appearing, switching] showing [] bare leftOver hleft
  · rw [← hanswer]
    exact hrepeated _ showing 3 fun _ => rfl

end Session

end Golden
