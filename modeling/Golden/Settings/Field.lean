import Golden.Settings

/-!
# The fields of a configuration

A configuration has four fields, each of them optional. Whatever format a file is written in, its
top level gives some of the fields by name, none of them twice and nothing else.

## Main definitions

* `Settings.Field` — the four fields, with their names
* `Settings.byName?` — the values of the fields from values under names
-/

namespace Golden.Settings

/-- A field of a configuration. -/
inductive Field where
  | timeout
  | mergeStderr
  | inheritEnv
  | env
  deriving DecidableEq

namespace Field

/-- The fields in their order. -/
def all : List Field := [timeout, mergeStderr, inheritEnv, env]

/-- The name of a field. -/
def name : Field → Text
  | timeout => "timeout".toList
  | mergeStderr => "merge_stderr".toList
  | inheritEnv => "inherit_env".toList
  | env => "env".toList

/-- The field with a name. -/
def ofName? (name : Text) : Option Field :=
  all.find? (·.name = name)

/-- Every field is found by its name. -/
theorem ofName?_name (field : Field) : ofName? field.name = some field := by
  cases field <;> decide

end Field

/-- Values of fields from values under names: every name is that of a field, and none stands
twice. -/
def byName? {α : Type} (values : List (Text × α)) : Option (List (Field × α)) := do
  let fields ← values.mapM fun v => (Field.ofName? v.1).map fun field => (field, v.2)
  if (fields.map Prod.fst).Pairwise (· ≠ ·) then some fields else none

end Golden.Settings
