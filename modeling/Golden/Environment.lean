import Golden.Text.Utf8

/-!
# Environments

The environment of a process is a list of entries `name=value`, whose values may be any bytes. A
variable has the value of the first entry that begins with its name and an equals sign; there is no
variable without a name.

## Main definitions

* `Environment` — names with their values
* `Environment.bytes?` — the value of a variable
* `Environment.text?` — the value of a variable, if it is text
-/

namespace Golden

/-- The names of an environment with their values. -/
abbrev Environment := List (Text × Bytes)

namespace Environment

/-- An entry as the process holds it. -/
def entry (name : Text) (value : Bytes) : Bytes :=
  Utf8.encode (name ++ ['=']) ++ value

/-- The value of a variable. -/
def bytes? (e : Environment) (name : Text) : Option Bytes :=
  if name = [] then none else e.findSome? fun v => after? (entry name []) (entry v.1 v.2)

/-- The value of a variable, if it is text. -/
def text? (e : Environment) (name : Text) : Option Text :=
  (e.bytes? name).bind Utf8.decode?

end Environment

end Golden
