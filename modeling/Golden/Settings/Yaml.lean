import Golden.Settings.Field
import Golden.Yaml.Node

/-!
# Settings in YAML

What the nodes of a YAML document mean as a configuration. The document is a mapping from the names
of the fields, or a sequence of their values in order. A plain scalar is read as the kind of value
that its field wants, and any scalar at all is text where text is wanted; a field may also be null,
which leaves it absent.

## Main definitions

* `Yaml.Node.natural?`, `Yaml.Node.truth?`, `Yaml.Node.text?` — a scalar as a value
* `Yaml.Node.nullable?` — a node that may be null
* `Yaml.Node.variables?` — a mapping of texts
* `Settings.ofYaml?` — the configuration that a text means
-/

namespace Golden

namespace Yaml.Node

/-- The tag of integers. -/
def integerTag : Text := coreTag ++ "int".toList

/-- The tag of truth values. -/
def truthTag : Text := coreTag ++ "bool".toList

/-- The tag of the absent value. -/
def nullTag : Text := coreTag ++ "null".toList

/-- The text of a scalar, however it is written. -/
def text? : Node → Option Text
  | scalar _ _ text => some text
  | _ => none

/-- The text of a scalar that may mean something else than text: a plain one, or a literal one with
the tag of what it means. -/
def bareText? (expected : Text) : Node → Option Text
  | scalar _ .plain text => some text
  | scalar (some tag) .literal text => if tag = expected then some text else none
  | _ => none

/-- The radix that the beginning of a numeral names, and its digits. -/
def radix? : Text → Option (Nat × Text)
  | '0' :: 'x' :: digits => some (16, digits)
  | '0' :: 'o' :: digits => some (8, digits)
  | '0' :: 'b' :: digits => some (2, digits)
  | _ => none

/-- Whether digits begin with a zero that a number would not have; they are text then. -/
def isPadded (digits : Text) : Bool :=
  1 < digits.length && digits.head? = some '0'

/-- The value of a numeral, which may have a plus sign. -/
def numeral? (text : Text) : Option Nat :=
  let unsigned := (after? ['+'] text).getD text
  match radix? unsigned with
  | some (radix, digits) => Numeral.natural? radix digits
  | none => if isPadded unsigned then none else Numeral.natural? 10 unsigned

/-- A scalar as a number of at most sixty-four bits. -/
def natural? (node : Node) : Option Nat :=
  ((bareText? integerTag node).bind numeral?).filter (· ≤ Numeral.word64Max)

/-- A scalar as a truth value. -/
def truth? (node : Node) : Option Bool := do
  let text ← bareText? truthTag node
  if text ∈ ["true".toList, "True".toList, "TRUE".toList] then some true
  else if text ∈ ["false".toList, "False".toList, "FALSE".toList] then some false
  else none

/-- Whether a word means the absent value. -/
def isNull (text : Text) : Bool :=
  text ∈ ["null".toList, "Null".toList, "NULL".toList, "~".toList]

/-- What `read` makes of a node that may be null. Only a plain scalar is null, and with the tag of
the absent value it has to be. -/
def nullable? {α : Type} (read : Node → Option α) (node : Node) : Option (Option α) :=
  match node with
  | scalar none .plain text => if text = [] || isNull text then some none else (read node).map some
  | scalar (some tag) .plain text =>
    if tag ≠ nullTag then (read node).map some else if isNull text then some none else none
  | _ => (read node).map some

/-- What `read` makes of a node that may be null or left out. -/
def optional? {α : Type} (read : Node → Option α) : Option Node → Option (Option α)
  | none => some none
  | some node => nullable? read node

/-- The texts of a pair of scalars. -/
def pairText? (pair : Node × Node) : Option (Text × Text) := do
  return (← pair.1.text?, ← pair.2.text?)

/-- A mapping of texts to texts, or nothing at all; the last value of a name counts. -/
def variables? : Node → Option Variables
  | mapping pairs => (pairs.mapM pairText?).map Variables.ofList
  | scalar _ .plain [] => some .empty
  | _ => none

end Yaml.Node

namespace Settings

/-- The configuration whose fields have the given nodes. -/
def ofNodes? (fields : List (Field × Yaml.Node)) : Option Settings := do
  let timeout ← Yaml.Node.optional? Yaml.Node.natural? (fields.lookup .timeout)
  let mergeStderr ← Yaml.Node.optional? Yaml.Node.truth? (fields.lookup .mergeStderr)
  let inheritEnv ← Yaml.Node.optional? Yaml.Node.truth? (fields.lookup .inheritEnv)
  let env ← ((fields.lookup .env).map Yaml.Node.variables?).getD (some .empty)
  return ⟨timeout, mergeStderr, inheritEnv, env⟩

/-- A pair of nodes as a name and what stands under it. -/
def named? (pair : Yaml.Node × Yaml.Node) : Option (Text × Yaml.Node) :=
  pair.1.text?.map fun name => (name, pair.2)

/-- The configuration that a document means. -/
def ofNode? : Yaml.Node → Option Settings
  | .scalar _ .plain [] => some .empty
  | .scalar _ _ _ => none
  | .sequence items =>
    if items.length ≤ Field.all.length then ofNodes? (Field.all.zip items) else none
  | .mapping pairs => do ofNodes? (← byName? (← pairs.mapM named?))

/-- The configuration that a YAML text means; a text without a document says nothing. -/
def ofYaml? (text : Text) : Option Settings := do
  match ← Yaml.content? text with
  | .nothing => some .empty
  | .document node => ofNode? node

end Settings

end Golden
