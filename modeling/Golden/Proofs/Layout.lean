import Golden.Proofs.Decimal
import Golden.Proofs.Naming
import Golden.Settings.Field
import Mathlib.Data.List.Nodup
import Mathlib.Data.List.Perm.Basic

/-!
# Configurations written down

A configuration can be written in either format, without anything that the other one lacks: a line
for each field that is there, in any order, with the name of the field and the word for its value,
and below them the variables, each name and each value in double quotes. In YAML the variables are
indented below a line of their own, and in TOML they are the table below a header. No quote needs an
escape, as the names and values hold neither quotes nor backslashes.

## Main definitions

* `Text.IsWord`, `Text.IsLegible` — what needs no quotes, and what needs no escapes between them
* `Text.IsTyped` — what such texts are written with
* `Settings.words` — the words for the values of the fields that are there
* `Settings.toYaml`, `Settings.toToml` — lines and variables in the two formats

## Main results

* `Settings.lookup_words` — the word for each field, in whatever order they stand
* `Settings.byName?_named` — words under the names of fields are words of the fields
* `Settings.byName?_eq_none` — and under any other name they are refused
-/

namespace Golden

variable {c d : Char} {text : Text} {n : Nat}

/-- Entries that are read back one by one are read back as a list. -/
theorem mapM_map_eq_some {α β : Type} {write : α → β} {read? : β → Option α}
    (h : ∀ x, read? (write x) = some x) (xs : List α) : (xs.map write).mapM read? = some xs := by
  have hpure : read? ∘ write = pure := funext h
  rw [List.mapM_map, hpure, List.mapM_pure, List.map_id']
  rfl

theorem after?_eq_none (h : text.head? ≠ some c) : after? [c] text = none := by
  rw [Option.eq_none_iff_forall_ne_some]
  intro rest hrest
  rw [after?_eq_some_iff.mp hrest] at h
  exact h rfl

namespace Text

/-- Whether a character is an ASCII letter or digit, or an underscore. -/
def isNameChar (c : Char) : Bool :=
  ('A' ≤ c && c ≤ 'Z') || ('a' ≤ c && c ≤ 'z') || ('0' ≤ c && c ≤ '9') || c == '_'

/-- A text of such characters, of which there is at least one. -/
def IsWord (text : Text) : Prop :=
  text ≠ [] ∧ ∀ c ∈ text, isNameChar c

instance (text : Text) : Decidable (IsWord text) :=
  decidable_of_iff (text ≠ [] ∧ text.all isNameChar) (and_congr_right fun _ => List.all_eq_true)

/-- Whether a character is shown in ASCII and means itself between double quotes. -/
def isLegible (c : Char) : Bool :=
  ' ' ≤ c && c ≤ '~' && c != '\x22' && c != '\\'

/-- A text of such characters. -/
def IsLegible (text : Text) : Prop :=
  ∀ c ∈ text, isLegible c

instance (text : Text) : Decidable (IsLegible text) :=
  decidable_of_iff (text.all isLegible) List.all_eq_true

/-- Whether a character is shown in ASCII or ends a line. -/
def isTyped (c : Char) : Bool :=
  c == '\n' || (' ' ≤ c && c ≤ '~')

/-- A text of such characters. -/
def IsTyped (text : Text) : Prop :=
  ∀ c ∈ text, isTyped c

instance (text : Text) : Decidable (IsTyped text) :=
  decidable_of_iff (text.all isTyped) List.all_eq_true

theorem ne_of_isNameChar (h : isNameChar c) (hd : isNameChar d = false) : c ≠ d := by
  rintro rfl
  simp [h] at hd

theorem ne_of_isLegible (h : isLegible c) (hd : isLegible d = false) : c ≠ d := by
  rintro rfl
  simp [h] at hd

/-- The characters of words mean themselves between quotes, too. -/
theorem isLegible_of_isNameChar (h : isNameChar c) : isLegible c := by
  have hquote : c ≠ '\x22' := ne_of_isNameChar h (by decide)
  have hslash : c ≠ '\\' := ne_of_isNameChar h (by decide)
  simp only [isNameChar, Bool.or_eq_true, Bool.and_eq_true, decide_eq_true_eq, beq_iff_eq] at h
  simp only [isLegible, Bool.and_eq_true, decide_eq_true_eq, bne_iff_ne, ne_eq]
  refine ⟨⟨⟨?_, ?_⟩, hquote⟩, hslash⟩
  · rcases h with ((h | h) | h) | rfl
    · exact Nat.le_trans (by decide) h.1
    · exact Nat.le_trans (by decide) h.1
    · exact Nat.le_trans (by decide) h.1
    · decide
  · rcases h with ((h | h) | h) | rfl
    · exact Nat.le_trans h.2 (by decide)
    · exact Nat.le_trans h.2 (by decide)
    · exact Nat.le_trans h.2 (by decide)
    · decide

theorem IsWord.isLegible (h : text.IsWord) : text.IsLegible :=
  fun c hc => isLegible_of_isNameChar (h.2 c hc)

theorem IsLegible.isTyped (h : text.IsLegible) : text.IsTyped := by
  intro c hc
  have hlegible := h c hc
  simp only [isLegible, Bool.and_eq_true] at hlegible
  simp only [Text.isTyped, Bool.or_eq_true, Bool.and_eq_true]
  exact .inr hlegible.1.1

theorem isTyped_append {text' : Text} : IsTyped (text ++ text') ↔ text.IsTyped ∧ text'.IsTyped :=
  List.forall_mem_append

theorem isTyped_flatMap {α : Type} {f : α → Text} {xs : List α} (h : ∀ x ∈ xs, IsTyped (f x)) :
    IsTyped (xs.flatMap f) := by
  intro c hc
  obtain ⟨x, hx, hc⟩ := List.mem_flatMap.mp hc
  exact h x hx c hc

theorem IsTyped.head?_ne (h : text.IsTyped) (hd : isTyped d = false) : text.head? ≠ some d := by
  intro heq
  have htyped := h d (List.mem_of_mem_head? heq)
  simp [hd] at htyped

theorem isNameChar_of_isDigit (h : c.isDigit) : isNameChar c := by
  simp only [Char.isDigit, Bool.and_eq_true, decide_eq_true_eq] at h
  simp only [isNameChar, Bool.or_eq_true, Bool.and_eq_true, decide_eq_true_eq]
  exact .inl (.inr h)

end Text

/-! ### Words for values -/

theorem Numeral.isWord_decimal (n : Nat) : (decimal n).IsWord :=
  ⟨decimal_ne_nil n, fun _ h => Text.isNameChar_of_isDigit (isDigit_of_mem_decimal h)⟩

/-- The word for a truth value. -/
def truthWord (b : Bool) : Text :=
  if b then "true".toList else "false".toList

theorem isWord_truthWord (b : Bool) : (truthWord b).IsWord := by
  cases b <;> decide

/-- A word for a value: a truth value, or a number that a signed word of sixty-four bits holds. -/
def IsValue (word : Text) : Prop :=
  (∃ b, word = truthWord b) ∨ ∃ n ≤ 9223372036854775807, word = Numeral.decimal n

theorem IsValue.isWord (h : IsValue text) : text.IsWord := by
  rcases h with ⟨b, rfl⟩ | ⟨n, -, rfl⟩
  · exact isWord_truthWord b
  · exact Numeral.isWord_decimal n

namespace Settings

variable {α β γ : Type} {s : Settings} {fields : List (Field × α)} {values : List (Text × α)}
  {name : Text} {field : Field}

/-- The words for the values of the fields that are there; the variables are no word. -/
def words (s : Settings) : List (Field × Text) :=
  (s.timeout.map fun n => (.timeout, Numeral.decimal n)).toList ++
    (s.mergeStderr.map fun b => (.mergeStderr, truthWord b)).toList ++
    (s.inheritEnv.map fun b => (.inheritEnv, truthWord b)).toList

/-- Values under the names of fields. -/
def named (fields : List (Field × α)) : List (Text × α) :=
  fields.map fun f => (f.1.name, f.2)

/-- A text between double quotes. -/
def enclosed (text : Text) : Text :=
  '\x22' :: text ++ ['\x22']

/-- A line of YAML, without its indentation. -/
def yamlLine (name value : Text) : Text :=
  name ++ ':' :: ' ' :: value ++ ['\n']

/-- Lines and variables in YAML, the variables indented below the lines. -/
def toYaml (indent : Nat) (lines vars : List (Text × Text)) : Text :=
  lines.flatMap (fun l => yamlLine l.1 l.2) ++
    if vars = [] then []
    else Field.env.name ++ ":\n".toList ++
      vars.flatMap fun v => List.replicate indent ' ' ++ yamlLine (enclosed v.1) (enclosed v.2)

/-- A line of TOML. -/
def tomlLine (name value : Text) : Text :=
  name ++ ' ' :: '=' :: ' ' :: value ++ ['\n']

/-- Lines and variables in TOML, the variables in a table below the lines. -/
def toToml (lines vars : List (Text × Text)) : Text :=
  lines.flatMap (fun l => tomlLine l.1 l.2) ++
    if vars = [] then []
    else '[' :: Field.env.name ++ "]\n".toList ++
      vars.flatMap fun v => tomlLine (enclosed v.1) (enclosed v.2)

/-! ### Lines with something behind them -/

theorem enclosed_append (text rest : Text) :
    enclosed text ++ rest = '\x22' :: (text ++ '\x22' :: rest) := by
  simp [enclosed]

theorem yamlLine_append (name value rest : Text) :
    yamlLine name value ++ rest = name ++ ':' :: ' ' :: (value ++ '\n' :: rest) := by
  simp [yamlLine]

theorem tomlLine_append (name value rest : Text) :
    tomlLine name value ++ rest = name ++ ' ' :: '=' :: ' ' :: (value ++ '\n' :: rest) := by
  simp [tomlLine]

theorem toYaml_cons (indent : Nat) (line : Text × Text) (lines vars : List (Text × Text)) :
    toYaml indent (line :: lines) vars =
      yamlLine line.1 line.2 ++ toYaml indent lines vars := by
  simp [toYaml]

/-! ### The characters of a text -/

section Typed

variable {lines vars : List (Text × Text)}

theorem isTyped_enclosed (h : text.IsLegible) : (enclosed text).IsTyped :=
  Text.isTyped_append.mpr ⟨List.forall_mem_cons.mpr ⟨rfl, h.isTyped⟩, by decide⟩

theorem isTyped_yamlLine {value : Text} (hname : name.IsTyped) (hvalue : value.IsTyped) :
    (yamlLine name value).IsTyped := by
  refine Text.isTyped_append.mpr ⟨Text.isTyped_append.mpr ⟨hname, ?_⟩, by decide⟩
  exact List.forall_mem_cons.mpr ⟨rfl, List.forall_mem_cons.mpr ⟨rfl, hvalue⟩⟩

theorem isTyped_tomlLine {value : Text} (hname : name.IsTyped) (hvalue : value.IsTyped) :
    (tomlLine name value).IsTyped := by
  refine Text.isTyped_append.mpr ⟨Text.isTyped_append.mpr ⟨hname, ?_⟩, by decide⟩
  exact List.forall_mem_cons.mpr
    ⟨rfl, List.forall_mem_cons.mpr ⟨rfl, List.forall_mem_cons.mpr ⟨rfl, hvalue⟩⟩⟩

theorem isTyped_toYaml (hlines : ∀ l ∈ lines, l.1.IsWord ∧ l.2.IsWord)
    (hvars : ∀ v ∈ vars, v.1.IsLegible ∧ v.2.IsLegible) (indent : Nat) :
    (toYaml indent lines vars).IsTyped := by
  refine Text.isTyped_append.mpr ⟨Text.isTyped_flatMap fun l hl => ?_, ?_⟩
  · exact isTyped_yamlLine (hlines l hl).1.isLegible.isTyped (hlines l hl).2.isLegible.isTyped
  · split
    · exact List.forall_mem_nil _
    · refine Text.isTyped_append.mpr ⟨by decide, Text.isTyped_flatMap fun v hv => ?_⟩
      refine Text.isTyped_append.mpr ⟨?_, isTyped_yamlLine (isTyped_enclosed (hvars v hv).1)
        (isTyped_enclosed (hvars v hv).2)⟩
      intro c hc
      obtain rfl := List.eq_of_mem_replicate hc
      rfl

theorem isTyped_toToml (hlines : ∀ l ∈ lines, l.1.IsWord ∧ l.2.IsWord)
    (hvars : ∀ v ∈ vars, v.1.IsLegible ∧ v.2.IsLegible) : (toToml lines vars).IsTyped := by
  refine Text.isTyped_append.mpr ⟨Text.isTyped_flatMap fun l hl => ?_, ?_⟩
  · exact isTyped_tomlLine (hlines l hl).1.isLegible.isTyped (hlines l hl).2.isLegible.isTyped
  · split
    · exact List.forall_mem_nil _
    · refine Text.isTyped_append.mpr ⟨by decide, Text.isTyped_flatMap fun v hv => ?_⟩
      exact isTyped_tomlLine (isTyped_enclosed (hvars v hv).1) (isTyped_enclosed (hvars v hv).2)

end Typed

/-! ### The words of the fields -/

theorem isValue_of_mem_words {f : Field × Text} (h : ∀ n ∈ s.timeout, n ≤ 9223372036854775807)
    (hf : f ∈ s.words) : IsValue f.2 := by
  simp only [words, List.mem_append, Option.mem_toList, Option.map_eq_some_iff] at hf
  rcases hf with (⟨n, hn, rfl⟩ | ⟨b, -, rfl⟩) | ⟨b, -, rfl⟩
  · exact .inr ⟨n, h n hn, rfl⟩
  · exact .inl ⟨b, rfl⟩
  · exact .inl ⟨b, rfl⟩

theorem isWord_name (field : Field) : field.name.IsWord := by
  cases field <;> decide

theorem nodup_words (s : Settings) : (s.words.map Prod.fst).Nodup := by
  obtain ⟨timeout, mergeStderr, inheritEnv, env⟩ := s
  cases timeout <;> cases mergeStderr <;> cases inheritEnv <;> simp [words]

/-- What stands under a field, among the words for them in any order. -/
theorem lookup_words {fields : List (Field × Text)} (h : fields.Perm s.words) :
    fields.lookup .timeout = s.timeout.map Numeral.decimal ∧
      fields.lookup .mergeStderr = s.mergeStderr.map truthWord ∧
      fields.lookup .inheritEnv = s.inheritEnv.map truthWord ∧ fields.lookup .env = none := by
  have hsame := lookup_eq_of_perm h (nodup_words s)
  rw [hsame, hsame, hsame, hsame]
  obtain ⟨timeout, mergeStderr, inheritEnv, env⟩ := s
  cases timeout <;> cases mergeStderr <;> cases inheritEnv <;> exact ⟨rfl, rfl, rfl, rfl⟩

/-- Values under the names of different fields are values of these fields. -/
theorem byName?_named (h : (fields.map Prod.fst).Nodup) : byName? (named fields) = some fields := by
  have hfields : (named fields).mapM (fun v => (Field.ofName? v.1).map fun field => (field, v.2)) =
      some fields :=
    mapM_map_eq_some (fun f => by simp [Field.ofName?_name]) fields
  rw [byName?, hfields]
  exact if_pos h

/-- A value under a name that no field has is refused, whatever stands around it. -/
theorem byName?_eq_none (h : Field.ofName? name = none) (hmem : name ∈ values.map Prod.fst) :
    byName? values = none := by
  have hfields : values.mapM (fun v => (Field.ofName? v.1).map fun field => (field, v.2)) =
      none := by
    induction values with
    | nil => cases hmem
    | cons v rest ih =>
      rw [List.mapM_cons]
      rcases List.mem_cons.mp hmem with rfl | hmem
      · rw [h]
        rfl
      · rw [ih hmem]
        cases Field.ofName? v.1 <;> rfl
  rw [byName?, hfields]
  rfl

theorem ofName?_eq_none (h : ∀ field : Field, field.name ≠ name) : Field.ofName? name = none := by
  rw [Field.ofName?, List.find?_eq_none]
  intro field _
  simpa using h field

end Settings

end Golden
