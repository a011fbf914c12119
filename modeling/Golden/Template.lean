import Golden.Text.Basic

/-!
# Templates

A value may refer to variables: a dollar sign and an opening brace begin a reference, the next
closing brace ends it, and the name is what stands between. Nothing else is special, and the values
that are put in are not read again.

## Main definitions

* `Template.Piece` — a character, a reference, or a reference that is not closed
* `Template.pieces` — the pieces of a value
* `Template.names` — the names that a value refers to
* `Template.expand` — a value with the values of its references put in
-/

namespace Golden

namespace Template

/-- A piece of a value. -/
inductive Piece where
  | plain (c : Char)
  | reference (name : Text)
  /-- A reference that is opened and not closed; it is the last piece. -/
  | unclosed (rest : Text)
  deriving DecidableEq

/-- The name of a reference that was opened, and what follows its closing brace. -/
def closing : Text → Option (Text × Text)
  | [] => none
  | c :: rest =>
    if c = '\x7d' then some ([], rest)
    else (closing rest).map fun r => (c :: r.1, r.2)

theorem length_closing_lt {text name rest : Text} (h : closing text = some (name, rest)) :
    rest.length < text.length := by
  induction text generalizing name with
  | nil => simp [closing] at h
  | cons c text ih =>
    by_cases hc : c = '\x7d'
    · simp only [closing, hc, if_true, Option.some.injEq, Prod.mk.injEq] at h
      simp [← h.2]
    · simp only [closing, hc, if_false, Option.map_eq_some_iff] at h
      obtain ⟨⟨n, r⟩, hr, heq⟩ := h
      simp only [Prod.mk.injEq] at heq
      obtain ⟨-, rfl⟩ := heq
      exact Nat.lt_succ_of_lt (ih hr)

/-- The pieces of a value, in order. -/
def pieces : Text → List Piece
  | [] => []
  | [c] => [.plain c]
  | c :: d :: rest =>
    if c = '$' ∧ d = '\x7b' then
      match _h : closing rest with
      | none => [.unclosed rest]
      | some (name, after) => .reference name :: pieces after
    else .plain c :: pieces (d :: rest)
termination_by text => text.length
decreasing_by
  · have := length_closing_lt _h
    simp only [List.length_cons]
    omega
  · simp

/-- The name that a piece refers to. -/
def Piece.name? : Piece → Option Text
  | plain _ => none
  | reference name => some name
  | unclosed _ => none

/-- The names that a value refers to, in order. -/
def names (value : Text) : List Text :=
  (pieces value).filterMap Piece.name?

/-- Why a value cannot be expanded. -/
inductive Flaw where
  | unset (name : Text)
  | unclosed
  deriving DecidableEq

/-- The text of pieces, with the values of the references put in. -/
def fill (value? : Text → Option Text) : List Piece → Except Flaw Text
  | [] => .ok []
  | .plain c :: rest => (fill value? rest).map (c :: ·)
  | .reference name :: rest =>
    match value? name with
    | none => .error (.unset name)
    | some v => (fill value? rest).map (v ++ ·)
  | .unclosed _ :: _ => .error .unclosed

/-- A value with the values of its references put in, or the first flaw in it. -/
def expand (value? : Text → Option Text) (value : Text) : Except Flaw Text :=
  fill value? (pieces value)

end Template

end Golden
