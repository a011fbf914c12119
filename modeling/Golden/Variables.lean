import Golden.Text.Utf8

/-!
# Variables

The variables of a configuration: texts under names, each name once, in the order of the bytes that
encode the names. The order is part of the type, so that two collections of the same variables are
equal however they came about.

## Main definitions

* `Variables` — names with values, in order
* `Variables.put` — the collection with a variable set
* `Variables.ofList` — the collection of a list, in which a later value replaces an earlier one
* `Variables.value?` — the value under a name
-/

namespace Golden

/-- Whether a name comes before another in the order of their bytes. -/
def nameBefore (a b : Text) : Prop :=
  Utf8.encode a < Utf8.encode b

instance (a b : Text) : Decidable (nameBefore a b) :=
  inferInstanceAs (Decidable (Utf8.encode a < Utf8.encode b))

/-- Whether the first of two variables has the earlier name. -/
def entryBefore (a b : Text × Text) : Prop :=
  nameBefore a.1 b.1

/-- Texts under names, each name once and in order. -/
structure Variables where
  entries : List (Text × Text)
  sorted : entries.Pairwise entryBefore

namespace Variables

/-- No variables. -/
def empty : Variables := ⟨[], .nil⟩

instance : Inhabited Variables := ⟨empty⟩

/-- The value under a name. -/
def value? (v : Variables) (name : Text) : Option Text :=
  v.entries.lookup name

/-- Entries with one more in its place, instead of any of the same name. -/
def insert (name value : Text) : List (Text × Text) → List (Text × Text)
  | [] => [(name, value)]
  | e :: rest =>
    if nameBefore e.1 name then e :: insert name value rest
    else if nameBefore name e.1 then (name, value) :: e :: rest
    else (name, value) :: rest

theorem mem_insert {name value : Text} {e : Text × Text} {entries : List (Text × Text)}
    (h : e ∈ insert name value entries) : e = (name, value) ∨ e ∈ entries := by
  induction entries with
  | nil => simpa [insert] using h
  | cons x rest ih =>
    simp only [insert] at h
    split at h
    · rcases List.mem_cons.1 h with rfl | h
      · simp
      · rcases ih h with rfl | h
        · simp
        · simp [h]
    · split at h
      · rcases List.mem_cons.1 h with rfl | h
        · simp
        · exact .inr h
      · rcases List.mem_cons.1 h with rfl | h
        · simp
        · exact .inr (List.mem_cons_of_mem _ h)

theorem sorted_insert (name value : Text) {entries : List (Text × Text)}
    (h : entries.Pairwise entryBefore) : (insert name value entries).Pairwise entryBefore := by
  induction entries with
  | nil => simp [insert]
  | cons x rest ih =>
    obtain ⟨hx, hrest⟩ := List.pairwise_cons.1 h
    simp only [insert]
    split
    next hlt =>
      refine List.pairwise_cons.2 ⟨fun e he => ?_, ih hrest⟩
      rcases mem_insert he with rfl | he
      · exact hlt
      · exact hx e he
    next hle =>
      split
      next hlt =>
        refine List.pairwise_cons.2 ⟨fun e he => ?_, h⟩
        rcases List.mem_cons.1 he with rfl | he
        · exact hlt
        · exact List.lt_trans hlt (hx e he)
      next hge =>
        have heq : Utf8.encode x.1 = Utf8.encode name := List.le_antisymm hge hle
        refine List.pairwise_cons.2 ⟨fun e he => ?_, hrest⟩
        have : nameBefore x.1 e.1 := hx e he
        simpa [entryBefore, nameBefore, heq] using this

/-- The collection with a variable set, in the place of one of the same name. -/
def put (v : Variables) (name value : Text) : Variables :=
  ⟨insert name value v.entries, sorted_insert name value v.sorted⟩

/-- The collection of a list of names with values; the last value of a name counts. -/
def ofList (entries : List (Text × Text)) : Variables :=
  entries.foldl (fun v e => v.put e.1 e.2) empty

end Variables

end Golden
