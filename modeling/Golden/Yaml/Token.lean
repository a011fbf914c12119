import Golden.Text.Basic

/-!
# YAML tokens

The tokens of a YAML text. Where indentation opens or closes a block there is a token for it, and an
implicit key has a token in front of it, so that the structure can be read off without any column.

## Main definitions

* `Yaml.Style` — how a scalar is written
* `Yaml.Token` — a token
-/

namespace Golden.Yaml

/-- How a scalar is written. -/
inductive Style where
  | plain
  | singleQuoted
  | doubleQuoted
  | literal
  | folded
  deriving DecidableEq

/-- A token of a YAML text. -/
inductive Token where
  | version (major minor : Nat)
  | handle (name uri : Text)
  | documentStart
  | documentEnd
  | blockSequence
  | blockMapping
  | blockEnd
  | flowSequence
  | flowSequenceEnd
  | flowMapping
  | flowMappingEnd
  | blockEntry
  | flowEntry
  | key
  | value
  | alias (name : Text)
  | anchor (name : Text)
  | tag (handle suffix : Text)
  | scalar (style : Style) (text : Text)
  deriving DecidableEq

end Golden.Yaml
