import Golden.Settings.Field
import Golden.Toml.Document

/-!
# Settings in TOML

What the statements of a TOML document mean as a configuration. The variables are given in one of
three ways: as a table on one line, by dotted keys in front of all headers, or below a header of
their own. Every name stands at most once.

## Main definitions

* `Settings.sections` — the statements in front of all headers and the sections behind them
* `Settings.ofToml?` — the configuration that a text means
-/

namespace Golden.Settings

open Toml (Scalar Value Statement)

/-- The assignments in front of all headers, and the statements from the first header on. -/
def sections : List Statement → List (List Text × Value) × List Statement
  | .assign key value :: rest => ((key, value) :: (sections rest).1, (sections rest).2)
  | rest => ([], rest)

/-- A variable and its text from an assignment without parts. -/
def binding? : List Text × Scalar → Option (Text × Text)
  | ([name], .text text) => some (name, text)
  | _ => none

/-- The variables of assignments; each name stands once. -/
def variables? (entries : List (List Text × Scalar)) : Option Variables := do
  let named ← entries.mapM binding?
  if (named.map Prod.fst).Pairwise (· ≠ ·) then some (.ofList named) else none

/-- An assignment whose value has no parts. -/
def plain? : List Text × Value → Option (List Text × Scalar)
  | (key, .scalar value) => some (key, value)
  | (_, .table _) => none

/-- A number that is not negative. -/
def natural? : Value → Option Nat
  | .scalar (.integer (.ofNat n)) => some n
  | _ => none

/-- A truth value. -/
def truth? : Value → Option Bool
  | .scalar (.truth b) => some b
  | _ => none

/-- The name of the only entry of a date or time that is taken for a table. -/
def momentName : Text := "$__toml_private_datetime".toList

/-- The assignments of a table. A date or time counts as a table with its text as the only entry. -/
def entries? : Value → Option (List (List Text × Scalar))
  | .table entries => some entries
  | .scalar (.moment text) => some [([momentName], .text text)]
  | .scalar _ => none

/-- The assignments below the header of the variables; there is no other header. -/
def section? : List Statement → Option (Option (List (List Text × Scalar)))
  | [] => some none
  | .header key :: rest => do
    let (assignments, behind) := sections rest
    if key = [Field.name .env] && behind.isEmpty then
      return some (← assignments.mapM plain?)
    else none
  | .assign _ _ :: _ => none

/-- What `read` makes of a value that may be left out. -/
def optional? {α : Type} (read : Value → Option α) : Option Value → Option (Option α)
  | none => some none
  | some value => (read value).map some

/-- An assignment to a field as a name and a value. -/
def field? : List Text × Value → Option (Text × Value)
  | ([name], value) => some (name, value)
  | _ => none

/-- An assignment to a variable by a dotted key. -/
def dotted? : List Text × Value → Option (List Text × Scalar)
  | (root :: names, value) => if root = Field.name .env then plain? (names, value) else none
  | ([], _) => none

/-- The configuration of statements. -/
def ofStatements? (statements : List Statement) : Option Settings := do
  let (assignments, behind) := sections statements
  let fields ← byName? (← (assignments.filter (·.1.length = 1)).mapM field?)
  let dotted ← (assignments.filter (·.1.length ≠ 1)).mapM dotted?
  let timeout ← optional? natural? (fields.lookup .timeout)
  let mergeStderr ← optional? truth? (fields.lookup .mergeStderr)
  let inheritEnv ← optional? truth? (fields.lookup .inheritEnv)
  let entries ←
    match fields.lookup .env, dotted, ← section? behind with
    | none, entries, none => some entries
    | none, [], some entries => some entries
    | some table, [], none => entries? table
    | _, _, _ => none
  return ⟨timeout, mergeStderr, inheritEnv, ← variables? entries⟩

/-- The configuration that a TOML text means. -/
def ofToml? (text : Text) : Option Settings :=
  (Toml.statements? text).bind ofStatements?

end Golden.Settings
