import Golden.Text.Basic

/-!
# Paths

A path is a text whose components stand between slashes. Everything here is lexical: no directory is
looked at. An empty component and a component `.` mean nothing, except that a path may begin with
`.`; a component `..` is never removed, because only the file tree knows what lies above.

## Main definitions

* `Path` — the text of a path
* `Path.pieces` — what stands between the slashes
* `Path.components` — the components that mean something
* `Path.parent?` — the path without its last component
* `Path.fileName?` — the last component, if it is a name
* `Path.extension` — what follows the last dot of the file name
* `Path.join` — a name below a path
* `Path.absolute` — a path that means the same from every directory

## Main results

* `Path.ofPieces_pieces` — putting the pieces together gives the path
-/

namespace Golden

/-- The text of a path. -/
abbrev Path := Text

namespace Path

/-- What stands between the slashes; a path without a slash is one piece. -/
def pieces : Path → List Text
  | [] => [[]]
  | c :: rest =>
    if c = '/' then [] :: pieces rest
    else
      match pieces rest with
      | [] => [[c]]
      | piece :: others => (c :: piece) :: others

/-- Whether a piece names something: it is not empty and not the directory itself. -/
def isStep (piece : Text) : Bool :=
  !(piece.isEmpty || piece == ['.'])

/-- The pieces that lead somewhere, in order: names, and `..` for the directory above. -/
def steps (path : Path) : List Text :=
  (pieces path).filter isStep

/-- Whether a path begins at the root. -/
def isAbsolute (path : Path) : Bool :=
  path.head? = some '/'

/-- Whether a path begins with the component `.`. -/
def beginsHere (path : Path) : Bool :=
  path.head? = some '.' && (path.drop 1).head?.all (· = '/')

/-- The part of a path that removing components never touches: the first slash of an absolute path,
or a leading component `.`. -/
def anchorLength (path : Path) : Nat :=
  if isAbsolute path || beginsHere path then 1 else 0

/-- Pieces, last one first, without those in front that lead nowhere. -/
def dropIdle (reversed : List Text) : List Text :=
  reversed.dropWhile fun piece => !isStep piece

/-- Pieces put together with slashes between them. -/
def ofPieces : List Text → Path
  | [] => []
  | [piece] => piece
  | piece :: rest => piece ++ '/' :: ofPieces rest

theorem pieces_ne_nil (path : Path) : pieces path ≠ [] := by
  cases path with
  | nil => simp [pieces]
  | cons c rest =>
    simp only [pieces]
    split
    · simp
    · split <;> simp

/-- Putting the pieces of a path together gives the path. -/
theorem ofPieces_pieces (path : Path) : ofPieces (pieces path) = path := by
  induction path with
  | nil => rfl
  | cons c rest ih =>
    have hne := pieces_ne_nil rest
    simp only [pieces]
    cases h : pieces rest with
    | nil => exact absurd h hne
    | cons piece others =>
      rw [h] at ih
      split
      next hc => simp [ofPieces, hc, ih]
      next =>
        cases others with
        | nil => simpa [ofPieces] using ih
        | cons next others => simpa [ofPieces] using ih

/-- A path without its last component, and without slashes and components `.` that are then last;
nothing for the empty path and for the root. -/
def parent? (path : Path) : Option Path :=
  let anchor := path.take (anchorLength path)
  match dropIdle (pieces (path.drop (anchorLength path))).reverse with
  | [] => if beginsHere path then some [] else none
  | _ :: above => some (anchor ++ ofPieces (dropIdle above).reverse)

/-- The last component of a path, unless the path ends in `..` or has no component. -/
def fileName? (path : Path) : Option Text :=
  (steps path).getLast?.filter (· != ['.', '.'])

/-- What follows the last dot of a name; nothing if the name has no dot but at its beginning. -/
def extensionOf (name : Text) : Option Text :=
  let suffix := (name.reverse.takeWhile (· != '.')).reverse
  if suffix.length + 1 < name.length then some suffix else none

/-- What follows the last dot of the file name, the empty text without one. -/
def extension (path : Path) : Text :=
  ((fileName? path).bind extensionOf).getD []

/-- A path with a slash at its end. -/
def slashed (path : Path) : Path :=
  if path.getLast? = some '/' then path else path ++ ['/']

/-- A relative path below another path. -/
def join (base relative : Path) : Path :=
  if base.isEmpty then relative else slashed base ++ relative

/-- The directory of a path, `.` for a bare name. -/
def directory (path : Path) : Path :=
  match parent? path with
  | some [] | none => ['.']
  | some parent => parent

/-- The slashes at the beginning of an absolute path: exactly two stay two, any other number becomes
one. -/
def rootOf (path : Path) : Path :=
  match path with
  | '/' :: '/' :: '/' :: _ => ['/']
  | '/' :: '/' :: _ => ['/', '/']
  | _ => ['/']

/-- A path that means the same from every directory: it begins at the root, keeps each `..` and a
slash at its end, and has no other idle piece. The empty path has none. -/
def absolute (cwd path : Path) : Option Path :=
  if path.isEmpty then none
  else
    let base := if isAbsolute path then rootOf path else cwd
    let whole := (steps path).foldl join base
    some (if path.getLast? = some '/' then slashed whole else whole)

end Path

end Golden
