import Golden.Variables
import Mathlib.Data.List.Sort

/-!
# Names and variables

A list of values under keys is looked into by key, and where no key stands twice it does not matter
in which order the values stand. Different names have different bytes, so that of two names one
comes before the other unless they are the same. Since a collection of variables is in the order of
its names, it is told by the values under the names alone, and it does not matter in which order its
entries were stored.

## Main results

* `lookup_eq_of_perm` — the order of values under different keys does not matter
* `eq_of_not_nameBefore` — of two different names one comes before the other
* `Variables.value?_eq_some_iff` — a value under a name is an entry
* `Variables.ext_of_value?` — a collection is told by its values
* `Variables.value?_put` — the values after a variable is set
* `Variables.ofList_eq_of_perm` — any list of the entries makes the collection
* `Variables.mergeSort_eq_entries` — any list of the entries, when sorted, is the entries in order
-/

namespace Golden

variable {a b c name value key : Text} {e : Text × Text} {entries stored : List (Text × Text)}
  {v w : Variables}

/-! ### Looking up -/

section Lookup

variable {α β γ : Type} [BEq α] [LawfulBEq α] {keyed keyed' : List (α × β)} {k : α} {x : β}

/-- What stands under a key is the only value with that key. -/
theorem lookup_eq_some_iff_mem (h : (keyed.map Prod.fst).Nodup) :
    keyed.lookup k = some x ↔ (k, x) ∈ keyed := by
  rw [List.lookup_eq_some_iff]
  constructor
  · rintro ⟨before, after, rfl, -⟩
    exact List.mem_append_right before List.mem_cons_self
  · intro hmem
    obtain ⟨before, after, rfl⟩ := List.append_of_mem hmem
    refine ⟨before, after, rfl, fun e he => ?_⟩
    rw [List.map_append, List.map_cons] at h
    have hdisjoint := (List.nodup_append.mp h).2.2 e.1 (List.mem_map_of_mem he) k
      List.mem_cons_self
    exact bne_iff_ne.mpr hdisjoint.symm

/-- The order of values does not matter where each has a key of its own. -/
theorem lookup_eq_of_perm (hperm : keyed.Perm keyed') (h : (keyed'.map Prod.fst).Nodup) (k : α) :
    keyed.lookup k = keyed'.lookup k := by
  have h' : (keyed.map Prod.fst).Nodup := (hperm.map Prod.fst).nodup_iff.mpr h
  apply Option.ext
  intro x
  rw [lookup_eq_some_iff_mem h, lookup_eq_some_iff_mem h', hperm.mem_iff]

omit [LawfulBEq α] in
/-- What stands under a key, where each value is replaced by what `f` makes of it. -/
theorem lookup_map (f : β → γ) (keyed : List (α × β)) (k : α) :
    (keyed.map fun e => (e.1, f e.2)).lookup k = (keyed.lookup k).map f := by
  induction keyed with
  | nil => rfl
  | cons e rest ih =>
    rw [List.map_cons, List.lookup_cons, List.lookup_cons, ih]
    cases k == e.1 <;> rfl

end Lookup

/-! ### The order of names -/

/-- Texts with the same bytes are the same. -/
theorem Utf8.encode_injective (h : encode a = encode b) : a = b := by
  have hbytes (t : Text) : (String.ofList t).toByteArray = (encode t).toByteArray :=
    String.toByteArray_ofList
  apply String.ofList_injective
  rw [← String.toByteArray_inj, hbytes, hbytes, h]

theorem nameBefore_irrefl (a : Text) : ¬ nameBefore a a :=
  List.lt_irrefl _

theorem nameBefore_trans (h : nameBefore a b) (h' : nameBefore b c) : nameBefore a c :=
  List.lt_trans h h'

theorem nameBefore_asymm (h : nameBefore a b) : ¬ nameBefore b a :=
  fun h' => nameBefore_irrefl a (nameBefore_trans h h')

theorem ne_of_nameBefore (h : nameBefore a b) : a ≠ b := by
  rintro rfl
  exact nameBefore_irrefl a h

/-- Names neither of which comes before the other are the same. -/
theorem eq_of_not_nameBefore (h : ¬ nameBefore a b) (h' : ¬ nameBefore b a) : a = b :=
  Utf8.encode_injective (List.le_antisymm h' h)

instance : Std.Irrefl entryBefore := ⟨fun e => nameBefore_irrefl e.1⟩

instance : Std.Antisymm entryBefore := ⟨fun _ _ h h' => absurd h' (nameBefore_asymm h)⟩

namespace Variables

/-! ### Values under names -/

theorem nodup_names (v : Variables) : (v.entries.map Prod.fst).Nodup :=
  List.pairwise_map.mpr (v.sorted.imp fun hbefore => ne_of_nameBefore hbefore)

/-- A value under a name is an entry of the collection. -/
theorem value?_eq_some_iff : v.value? name = some value ↔ (name, value) ∈ v.entries :=
  lookup_eq_some_iff_mem v.nodup_names

theorem isSome_value?_iff : (v.value? name).isSome ↔ name ∈ v.entries.map Prod.fst := by
  rw [Option.isSome_iff_exists, List.mem_map]
  constructor
  · rintro ⟨value, hvalue⟩
    exact ⟨(name, value), value?_eq_some_iff.mp hvalue, rfl⟩
  · rintro ⟨⟨name', value⟩, hmem, rfl⟩
    exact ⟨value, value?_eq_some_iff.mpr hmem⟩

theorem eq_of_mem_iff (h : ∀ e, e ∈ v.entries ↔ e ∈ w.entries) : v = w := by
  have hentries : v.entries = w.entries := v.sorted.eq_of_mem_iff w.sorted h
  cases v
  cases w
  congr

instance : DecidableEq Variables := fun v w =>
  decidable_of_iff (v.entries = w.entries)
    ⟨fun h => eq_of_mem_iff fun e => by rw [h], fun h => by rw [h]⟩

/-- A collection is told by its values. -/
theorem ext_of_value? (h : ∀ name, v.value? name = w.value? name) : v = w := by
  apply eq_of_mem_iff
  rintro ⟨name, value⟩
  rw [← value?_eq_some_iff, ← value?_eq_some_iff, h]

/-! ### Setting variables -/

/-- Setting a variable leaves the entries of other names alone. -/
theorem mem_insert_iff (h : entries.Pairwise entryBefore) :
    e ∈ insert name value entries ↔ e = (name, value) ∨ e ∈ entries ∧ e.1 ≠ name := by
  induction entries with
  | nil => simp [insert]
  | cons x rest ih =>
    obtain ⟨hx, hrest⟩ := List.pairwise_cons.mp h
    rw [insert]
    split
    next hlt =>
      have hne : x.1 ≠ name := ne_of_nameBefore hlt
      rw [List.mem_cons, ih hrest, List.mem_cons]
      constructor
      · rintro (rfl | rfl | ⟨he, hname⟩)
        · exact .inr ⟨.inl rfl, hne⟩
        · exact .inl rfl
        · exact .inr ⟨.inr he, hname⟩
      · rintro (rfl | ⟨rfl | he, hname⟩)
        · exact .inr (.inl rfl)
        · exact .inl rfl
        · exact .inr (.inr ⟨he, hname⟩)
    next hle =>
      split
      next hlt =>
        -- The name comes before all of the entries, so that none of them has it.
        have hother : ∀ y ∈ x :: rest, y.1 ≠ name := by
          intro y hy
          rcases List.mem_cons.mp hy with rfl | hy
          · exact (ne_of_nameBefore hlt).symm
          · exact (ne_of_nameBefore (nameBefore_trans hlt (hx y hy))).symm
        rw [List.mem_cons]
        constructor
        · rintro (rfl | he)
          · exact .inl rfl
          · exact .inr ⟨he, hother e he⟩
        · rintro (rfl | ⟨he, -⟩)
          · exact .inl rfl
          · exact .inr he
      next hge =>
        -- The first entry has the name, and no other one has.
        have hsame : x.1 = name := eq_of_not_nameBefore hle hge
        have hother : ∀ y ∈ rest, y.1 ≠ name := by
          intro y hy
          have hlater : x.1 ≠ y.1 := ne_of_nameBefore (hx y hy)
          rw [hsame] at hlater
          exact hlater.symm
        rw [List.mem_cons, List.mem_cons]
        constructor
        · rintro (rfl | he)
          · exact .inl rfl
          · exact .inr ⟨.inr he, hother e he⟩
        · rintro (rfl | ⟨rfl | he, hname⟩)
          · exact .inl rfl
          · exact absurd hsame hname
          · exact .inr he

theorem mem_put_iff :
    e ∈ (v.put name value).entries ↔ e = (name, value) ∨ e ∈ v.entries ∧ e.1 ≠ name :=
  mem_insert_iff v.sorted

/-- A variable that is set has the new value, and every other one the value that it had. -/
theorem value?_put (v : Variables) (name value key : Text) :
    (v.put name value).value? key = if key = name then some value else v.value? key := by
  have hmem (x : Text) : (v.put name value).value? key = some x ↔
      (key = name ∧ x = value) ∨ v.value? key = some x ∧ key ≠ name := by
    rw [value?_eq_some_iff, mem_put_iff, value?_eq_some_iff, Prod.mk.injEq]
  apply Option.ext
  intro x
  rw [hmem]
  by_cases hkey : key = name
  · simp [hkey, eq_comm]
  · simp [hkey]

/-! ### The order of storage -/

/-- The entries of a list with different names are those of its collection. -/
theorem mem_ofList_iff (h : (stored.map Prod.fst).Nodup) :
    e ∈ (ofList stored).entries ↔ e ∈ stored := by
  -- The list is put on top of any collection, of which the other names are left.
  have hfold : ∀ v : Variables, e ∈ (stored.foldl (fun v e => v.put e.1 e.2) v).entries ↔
      e ∈ stored ∨ e ∈ v.entries ∧ e.1 ∉ stored.map Prod.fst := by
    induction stored with
    | nil => simp
    | cons x rest ih =>
      obtain ⟨hx, hrest⟩ := List.nodup_cons.mp h
      intro v
      rw [List.foldl_cons, ih hrest, mem_put_iff, List.mem_cons, List.map_cons, List.mem_cons,
        not_or]
      constructor
      · rintro (he | ⟨rfl | ⟨he, hne⟩, hnot⟩)
        · exact .inl (.inr he)
        · exact .inl (.inl rfl)
        · exact .inr ⟨he, hne, hnot⟩
      · rintro ((rfl | he) | ⟨he, hne, hnot⟩)
        · exact .inr ⟨.inl rfl, hx⟩
        · exact .inl he
        · exact .inr ⟨.inr ⟨he, hne⟩, hnot⟩
  rw [ofList, hfold empty]
  simp [empty]

/-- Any list of the entries of a collection makes the collection. -/
theorem ofList_eq_of_perm (h : stored.Perm v.entries) : ofList stored = v := by
  have hnodup : (stored.map Prod.fst).Nodup := (h.map Prod.fst).nodup_iff.mpr v.nodup_names
  apply eq_of_mem_iff
  intro e
  rw [mem_ofList_iff hnodup, h.mem_iff]

/-- Any list of the entries of a collection, when it is sorted by the bytes of the names, is the
entries in their order. -/
theorem mergeSort_eq_entries (h : stored.Perm v.entries) :
    stored.mergeSort (fun a b => Utf8.encode a.1 ≤ Utf8.encode b.1) = v.entries := by
  have hsorted : (stored.mergeSort (fun a b => Utf8.encode a.1 ≤ Utf8.encode b.1)).Pairwise
      fun a b => ¬ entryBefore b a := by
    refine (List.pairwise_mergeSort ?_ ?_ stored).imp ?_
    · intro a b c hab hbc
      simpa using List.le_trans (of_decide_eq_true hab) (of_decide_eq_true hbc)
    · intro a b
      simpa using List.le_total (Utf8.encode a.1) (Utf8.encode b.1)
    · intro a b hle
      have hnot : Utf8.encode a.1 ≤ Utf8.encode b.1 := of_decide_eq_true hle
      exact hnot
  have hentries : v.entries.Pairwise fun a b => ¬ entryBefore b a :=
    v.sorted.imp fun hbefore => nameBefore_asymm hbefore
  have hperm := (List.mergeSort_perm stored fun a b => Utf8.encode a.1 ≤ Utf8.encode b.1).trans h
  -- Lists in the same weak order may differ only in entries of one name, and there is one of each.
  apply hperm.eq_of_pairwise _ hsorted hentries
  intro a b ha hb hnot hnot'
  exact List.inj_on_of_nodup_map v.nodup_names (hperm.mem_iff.mp ha) hb
    (eq_of_not_nameBefore hnot' hnot)

end Variables

end Golden
