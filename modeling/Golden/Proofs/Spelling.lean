import Golden.Path
import Mathlib.Data.List.TakeWhile

/-!
# Spellings of a path

One place has many spellings. What matters about a spelling is whether it begins at the root and
which steps it takes: empty pieces and pieces `.` between them lead nowhere. The parent of a path is
found by its spelling alone; it is a beginning of the path, and it takes all the steps but the last
one.

## Main results

* `Path.pieces_append_slash`, `Path.steps_append_slash` — texts put together with a slash
* `Path.pieces_ofPieces` — the pieces of what is put together from pieces
* `Path.parent?_cases` — everything that a parent can be
* `Path.steps_directory`, `Path.isAbsolute_directory` — the directory of a path leads one step less
  far
* `Path.exists_pieces_join`, `Path.isAbsolute_join` — a name below a path leads one step farther
-/

namespace Golden.Path

variable {path base : Path} {piece name : Text} {ps qs : List Text}

/-! ### Pieces -/

theorem slash_not_mem_of_mem_pieces (h : piece ∈ pieces path) : '/' ∉ piece := by
  induction path generalizing piece with
  | nil =>
    obtain rfl := List.mem_singleton.mp h
    exact List.not_mem_nil
  | cons c rest ih =>
    rw [pieces] at h
    by_cases hc : c = '/'
    · rw [if_pos hc] at h
      obtain rfl | hrest := List.mem_cons.mp h
      · exact List.not_mem_nil
      · exact ih hrest
    · rw [if_neg hc] at h
      cases hrest : pieces rest with
      | nil => exact absurd hrest (pieces_ne_nil rest)
      | cons first others =>
        rw [hrest] at h ih
        obtain rfl | hother := List.mem_cons.mp h
        · have hfirst : '/' ∉ first := ih List.mem_cons_self
          simp [Ne.symm hc, hfirst]
        · exact ih (List.mem_cons_of_mem first hother)

/-- Texts with a slash between them have the pieces of both. -/
theorem pieces_append_slash (a b : Path) : pieces (a ++ '/' :: b) = pieces a ++ pieces b := by
  induction a with
  | nil => rfl
  | cons c rest ih =>
    rw [List.cons_append, pieces, pieces, ih]
    by_cases hc : c = '/'
    · rw [if_pos hc, if_pos hc, List.cons_append]
    · rw [if_neg hc, if_neg hc]
      cases hrest : pieces rest with
      | nil => exact absurd hrest (pieces_ne_nil rest)
      | cons first others => rfl

/-- A text without a slash is one piece. -/
theorem pieces_of_plain (h : '/' ∉ piece) : pieces piece = [piece] := by
  induction piece with
  | nil => rfl
  | cons c rest ih =>
    obtain ⟨hc, hrest⟩ := List.ne_and_not_mem_of_not_mem_cons h
    rw [pieces, if_neg (Ne.symm hc), ih hrest]

theorem ofPieces_cons (piece : Text) (h : ps ≠ []) :
    ofPieces (piece :: ps) = piece ++ '/' :: ofPieces ps := by
  cases ps with
  | nil => exact absurd rfl h
  | cons first others => rfl

theorem ofPieces_append (hps : ps ≠ []) (hqs : qs ≠ []) :
    ofPieces (ps ++ qs) = ofPieces ps ++ '/' :: ofPieces qs := by
  induction ps with
  | nil => exact absurd rfl hps
  | cons piece rest ih =>
    by_cases hrest : rest = []
    · rw [hrest, List.singleton_append, ofPieces_cons piece hqs]
      rfl
    · have hne : rest ++ qs ≠ [] := List.append_ne_nil_of_left_ne_nil hrest qs
      rw [List.cons_append, ofPieces_cons piece hne, ih hrest, ofPieces_cons piece hrest,
        List.append_assoc, List.cons_append]

/-- Putting pieces together keeps each of them. -/
theorem subset_ofPieces (h : piece ∈ ps) : piece ⊆ ofPieces ps := by
  induction ps with
  | nil => exact absurd h List.not_mem_nil
  | cons first rest ih =>
    by_cases hrest : rest = []
    · rw [hrest] at h ⊢
      rw [List.mem_singleton.mp h]
      exact List.Subset.refl first
    · rw [ofPieces_cons first hrest]
      obtain rfl | hpiece := List.mem_cons.mp h
      · exact List.subset_append_left piece _
      · intro c hc
        exact List.mem_append_right first (List.mem_cons_of_mem _ (ih hpiece hc))

theorem subset_of_mem_pieces (h : piece ∈ pieces path) : piece ⊆ path := by
  have hsubset := subset_ofPieces h
  rwa [ofPieces_pieces] at hsubset

/-- Pieces without slashes are found again in what is put together from them. -/
theorem pieces_ofPieces (hne : ps ≠ []) (h : ∀ piece ∈ ps, '/' ∉ piece) :
    pieces (ofPieces ps) = ps := by
  induction ps with
  | nil => exact absurd rfl hne
  | cons piece rest ih =>
    obtain ⟨hpiece, hrest⟩ := List.forall_mem_cons.mp h
    by_cases hnone : rest = []
    · rw [hnone]
      exact pieces_of_plain hpiece
    · rw [ofPieces_cons piece hnone, pieces_append_slash, pieces_of_plain hpiece, ih hnone hrest]
      rfl

/-! ### Steps -/

theorem steps_append_slash (a b : Path) : steps (a ++ '/' :: b) = steps a ++ steps b := by
  rw [steps, pieces_append_slash, List.filter_append]
  rfl

theorem steps_ofPieces (h : ∀ piece ∈ ps, '/' ∉ piece) :
    steps (ofPieces ps) = ps.filter isStep := by
  by_cases hne : ps = []
  · rw [hne]
    rfl
  · rw [steps, pieces_ofPieces hne h]

/-- What a path begins with, and no removal touches: a slash, or a component `.` behind which there
is nothing or a slash, or nothing. -/
theorem anchor_cases (path : Path) :
    (∃ rest, path = '/' :: rest ∧ anchorLength path = 1) ∨
    (anchorLength path = 1 ∧ (path = ['.'] ∨ ∃ rest, path = '.' :: '/' :: rest)) ∨
    (isAbsolute path = false ∧ anchorLength path = 0) := by
  by_cases habsolute : isAbsolute path = true
  · obtain ⟨rest, rfl⟩ : ∃ rest, path = '/' :: rest :=
      List.head?_eq_some_iff.mp (by simpa [isAbsolute] using habsolute)
    exact .inl ⟨rest, rfl, rfl⟩
  · by_cases hhere : beginsHere path = true
    · have hlength : anchorLength path = 1 := by simp [anchorLength, hhere]
      obtain ⟨hdot, hbehind⟩ := Bool.and_eq_true_iff.mp hhere
      obtain ⟨rest, rfl⟩ : ∃ rest, path = '.' :: rest :=
        List.head?_eq_some_iff.mp (by simpa using hdot)
      cases rest with
      | nil => exact .inr (.inl ⟨hlength, .inl rfl⟩)
      | cons c more =>
        obtain rfl : c = '/' := by simpa using hbehind
        exact .inr (.inl ⟨hlength, .inr ⟨more, rfl⟩⟩)
    · refine .inr (.inr ⟨Bool.eq_false_iff.mpr habsolute, ?_⟩)
      simp [anchorLength, habsolute, hhere]

/-- What a path begins with is no step. -/
theorem steps_drop_anchor (path : Path) : steps (path.drop (anchorLength path)) = steps path := by
  obtain ⟨rest, rfl, hlength⟩ | ⟨hlength, rfl | ⟨rest, rfl⟩⟩ | ⟨-, hlength⟩ := anchor_cases path
  · rw [hlength]
    exact (steps_append_slash [] rest).symm
  · rw [hlength]
    rfl
  · -- An empty piece stands in the place of the piece `.`.
    have hdot : steps ('.' :: '/' :: rest) = steps ['.'] ++ steps rest :=
      steps_append_slash ['.'] rest
    rw [hlength, hdot]
    exact steps_append_slash [] rest
  · rw [hlength, List.drop_zero]

/-! ### Parents -/

/-- What is dropped at the end of pieces leads nowhere. -/
theorem exists_idle (ps : List Text) :
    ∃ idle, ps = (dropIdle ps.reverse).reverse ++ idle ∧ idle.filter isStep = [] := by
  refine ⟨(ps.reverse.takeWhile fun piece => !isStep piece).reverse, ?_, ?_⟩
  · rw [dropIdle, ← List.reverse_append, List.takeWhile_append_dropWhile, List.reverse_reverse]
  · rw [List.filter_reverse, List.reverse_eq_nil_iff, List.filter_eq_nil_iff]
    intro piece hpiece
    have hidle := List.mem_takeWhile_imp hpiece
    simpa using hidle

theorem isStep_of_dropIdle_eq_cons (h : dropIdle ps = piece :: qs) : isStep piece = true := by
  have hhead := List.head?_dropWhile_not (fun piece => !isStep piece) ps
  rw [← dropIdle, h] at hhead
  simpa using hhead

/-- Pieces without idle ones at their end that are put together to nothing are none at all: what
they end with is a step, and not one empty piece. -/
theorem ofPieces_dropIdle_ne_nil (hplain : ∀ piece ∈ (dropIdle ps).reverse, '/' ∉ piece)
    (hne : dropIdle ps ≠ []) : ofPieces (dropIdle ps).reverse ≠ [] := by
  intro hempty
  have hpieces := pieces_ofPieces (List.reverse_ne_nil_iff.mpr hne) hplain
  rw [hempty, pieces, eq_comm, List.reverse_eq_cons_iff] at hpieces
  have hstep : isStep [] = true := isStep_of_dropIdle_eq_cons hpieces
  exact Bool.noConfusion hstep

/-- Pieces have no step, or they have a last one; then they are those that are left when it is
dropped, with the idle ones around it, and those that are dropped. -/
theorem dropIdle_cases (ps : List Text) :
    (ps.filter isStep = [] ∧ dropIdle ps.reverse = []) ∨
    ∃ last above behind, dropIdle ps.reverse = last :: above ∧
      ps = (dropIdle above).reverse ++ behind ∧ behind.filter isStep = [last] := by
  obtain ⟨idle, hps, hidle⟩ := exists_idle ps
  cases hleft : dropIdle ps.reverse with
  | nil =>
    rw [hleft, List.reverse_nil, List.nil_append] at hps
    exact .inl ⟨by rw [hps, hidle], rfl⟩
  | cons last above =>
    have hlast := isStep_of_dropIdle_eq_cons hleft
    -- There may be idle pieces in front of the last step, too.
    obtain ⟨gap, habove, hgap⟩ := exists_idle above.reverse
    rw [List.reverse_reverse] at habove
    refine .inr ⟨last, above, gap ++ ([last] ++ idle), rfl, ?_, ?_⟩
    · rw [hps, hleft, List.reverse_cons, habove, List.append_assoc, List.append_assoc]
    · simp [List.filter_append, hgap, hidle, hlast]

/-- Everything that a parent can be: there is none, or an empty one, of a path without any step; or
it is what the path begins with, if there is one step; or the last step stands behind a slash that
stands behind the parent. -/
theorem parent?_cases (path : Path) :
    (steps path = [] ∧ (parent? path = none ∨ parent? path = some [])) ∨
    (∃ last, steps path = [last] ∧ parent? path = some (path.take (anchorLength path))) ∨
    ∃ parent behind last, parent? path = some parent ∧ parent ≠ [] ∧
      path = parent ++ '/' :: behind ∧ steps behind = [last] := by
  have hanchor := path.take_append_drop (anchorLength path)
  have hsteps := steps_drop_anchor path
  -- From here on only what stands behind the beginning of the path is looked at.
  generalize hrest : path.drop (anchorLength path) = rest at hanchor hsteps
  have hplain : ∀ piece ∈ pieces rest, '/' ∉ piece := fun piece => slash_not_mem_of_mem_pieces
  obtain ⟨hnone, hleft⟩ | ⟨last, above, behind, hleft, hpieces, hbehind⟩ :=
    dropIdle_cases (pieces rest)
  · refine .inl ⟨hsteps.symm.trans hnone, ?_⟩
    simp only [parent?, hrest, hleft]
    by_cases hhere : beginsHere path = true <;> simp [hhere]
  have hparent : parent? path =
      some (path.take (anchorLength path) ++ ofPieces (dropIdle above).reverse) := by
    simp only [parent?, hrest, hleft]
  by_cases hnone : dropIdle above = []
  · rw [hnone, List.reverse_nil, List.nil_append] at hpieces
    refine .inr (.inl ⟨last, ?_, ?_⟩)
    · rw [← hsteps, steps, hpieces, hbehind]
    · rw [hparent, hnone, List.reverse_nil, ofPieces, List.append_nil]
  · -- What is left and what is dropped are both some pieces, and so a slash stands between them.
    rw [hpieces] at hplain
    obtain ⟨hfront, hdropped⟩ := List.forall_mem_append.mp hplain
    have hsome : behind ≠ [] := by
      intro hempty
      simp [hempty] at hbehind
    have hsplit : rest = ofPieces (dropIdle above).reverse ++ '/' :: ofPieces behind := by
      rw [← ofPieces_append (List.reverse_ne_nil_iff.mpr hnone) hsome, ← hpieces, ofPieces_pieces]
    refine .inr (.inr ⟨_, ofPieces behind, last, hparent, ?_, ?_, ?_⟩)
    · exact List.append_ne_nil_of_right_ne_nil _ (ofPieces_dropIdle_ne_nil hfront hnone)
    · rw [List.append_assoc, ← hsplit, hanchor]
    · rw [steps_ofPieces hdropped, hbehind]

/-! ### Directories -/

theorem parent?_isPrefix {parent : Path} (h : parent? path = some parent) : parent <+: path := by
  obtain ⟨-, hnone | hempty⟩ | ⟨last, -, hone⟩ | ⟨front, behind, last, hmore, -, rfl, -⟩ :=
    parent?_cases path
  · simp [hnone] at h
  · obtain rfl := Option.some.inj (hempty.symm.trans h)
    exact List.nil_prefix
  · obtain rfl := Option.some.inj (hone.symm.trans h)
    exact List.take_prefix _ _
  · obtain rfl := Option.some.inj (hmore.symm.trans h)
    exact List.prefix_append _ _

/-- Where nothing but what a path begins with is left, its directory is the root, or the directory
from which the path is followed. -/
theorem directory_of_parent?_eq_take (h : parent? path = some (path.take (anchorLength path))) :
    directory path = if isAbsolute path then ['/'] else ['.'] := by
  rw [directory, h]
  obtain ⟨rest, rfl, hlength⟩ | ⟨hlength, rfl | ⟨rest, rfl⟩⟩ | ⟨hrelative, hlength⟩ :=
    anchor_cases path
  · rw [hlength]
    rfl
  · rw [hlength]
    rfl
  · rw [hlength]
    rfl
  · rw [hlength, hrelative]
    rfl

/-- The directory of a path takes all the steps of the path but the last one. -/
theorem steps_directory (path : Path) : steps (directory path) = (steps path).dropLast := by
  have hhere : steps ['.'] = [] := rfl
  obtain ⟨hsteps, hnone | hempty⟩ | ⟨last, hsteps, hone⟩ |
    ⟨parent, behind, last, hmore, hne, hpath, hbehind⟩ := parent?_cases path
  · rw [directory, hnone, hsteps]
    exact hhere
  · rw [directory, hempty, hsteps]
    exact hhere
  · rw [hsteps, directory_of_parent?_eq_take hone]
    by_cases habsolute : isAbsolute path = true
    · rw [if_pos habsolute]
      rfl
    · rw [if_neg habsolute]
      rfl
  · have hdirectory : directory path = parent := by simp [directory, hmore]
    rw [hdirectory, hpath, steps_append_slash, hbehind, List.dropLast_concat]

theorem isAbsolute_directory (h : steps path ≠ []) :
    isAbsolute (directory path) = isAbsolute path := by
  obtain ⟨hnone, -⟩ | ⟨last, -, hone⟩ | ⟨parent, behind, last, hmore, hne, hpath, -⟩ :=
    parent?_cases path
  · exact absurd hnone h
  · rw [directory_of_parent?_eq_take hone]
    by_cases habsolute : isAbsolute path = true
    · rw [if_pos habsolute, habsolute]
      rfl
    · rw [if_neg habsolute, Bool.eq_false_iff.mpr habsolute]
      rfl
  · have hdirectory : directory path = parent := by simp [directory, hmore]
    obtain ⟨c, rest, rfl⟩ := List.exists_cons_of_ne_nil hne
    rw [hdirectory, hpath]
    rfl

theorem directory_ne_nil (path : Path) : directory path ≠ [] := by
  intro hempty
  rw [directory] at hempty
  split at hempty
  · simp at hempty
  · simp at hempty
  · next hne _ => exact hne hempty

/-- The directory of a path is a beginning of it, or `.`. -/
theorem directory_isPrefix_or_eq (path : Path) :
    directory path <+: path ∨ directory path = ['.'] := by
  rw [directory]
  split
  · exact .inr rfl
  · exact .inr rfl
  · next h => exact .inl (parent?_isPrefix h)

/-! ### Names below a path -/

/-- A name below a path stands behind it, and behind a slash unless the path ends with one. -/
theorem exists_join_eq (hbase : base ≠ []) (name : Text) :
    ∃ slash, (slash = [] ∨ slash = ['/']) ∧ join base name = base ++ (slash ++ name) := by
  have hjoin : join base name = slashed base ++ name := by simp [join, hbase]
  rw [hjoin, slashed]
  by_cases hslash : base.getLast? = some '/'
  · exact ⟨[], .inl rfl, by rw [if_pos hslash, List.nil_append]⟩
  · exact ⟨['/'], .inr rfl, by rw [if_neg hslash, List.append_assoc]⟩

/-- A name below a path is a piece behind pieces that take the steps of the path. -/
theorem exists_pieces_join (hbase : base ≠ []) (hname : '/' ∉ name) :
    ∃ front, pieces (join base name) = front ++ [name] ∧ front.filter isStep = steps base := by
  have hjoin : join base name = slashed base ++ name := by simp [join, hbase]
  rw [hjoin, slashed]
  by_cases hslash : base.getLast? = some '/'
  · -- The empty piece behind the slash at the end of the path is not there any more.
    obtain ⟨front, rfl⟩ := List.getLast?_eq_some_iff.mp hslash
    refine ⟨pieces front, ?_, ?_⟩
    · rw [if_pos hslash, List.append_assoc, List.singleton_append, pieces_append_slash,
        pieces_of_plain hname]
    · exact ((steps_append_slash front []).trans (List.append_nil _)).symm
  · refine ⟨pieces base, ?_, rfl⟩
    rw [if_neg hslash, List.append_assoc, List.singleton_append, pieces_append_slash,
      pieces_of_plain hname]

theorem isAbsolute_join (hbase : base ≠ []) (name : Text) :
    isAbsolute (join base name) = isAbsolute base := by
  obtain ⟨slash, -, hjoin⟩ := exists_join_eq hbase name
  obtain ⟨c, rest, rfl⟩ := List.exists_cons_of_ne_nil hbase
  rw [hjoin]
  rfl

end Golden.Path
