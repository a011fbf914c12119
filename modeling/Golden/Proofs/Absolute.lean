import Golden.Proofs.Pipeline
import Golden.Proofs.Walk

/-!
# Absolute paths of programs

A subject is started in the directory of the test case, while its path was meant from where the
runner is. So the path is made absolute by its spelling alone. What comes out begins at the root,
takes the steps from the root to the runner's directory and then those of the path, and has nothing
idle in between; it is the same path when it is made absolute again, anywhere, and it leads to what
the path led to. The only exception is a path so long that the absolute one is longer than a path
may be: the program is there, and it cannot be started.

## Main definitions

* `Location.IsSpellable` — the names of a location can stand in a path
* `Path.IsDoubled` — a path begins with exactly two slashes
* `Path.rooted` — the absolute path of some steps

## Main results

* `Path.absolute_eq` — what a path is when it is made absolute
* `Path.pieces_rooted` — what stands between its slashes
* `Path.absolute_rooted` — making it absolute again changes nothing
* `Tree.walk_pieces_rooted` — it leads to where its steps lead
* `World.absolute_names_same` — an absolute path names the program that is meant
* `World.absolute_out_of_reach` — unless it is too long
-/

namespace Golden

/-- The names that lead to a location can stand in a path, each as a step of its own. -/
def Location.IsSpellable (l : Location) : Prop :=
  ∀ name ∈ l, Tree.IsName name ∧ '/' ∉ name ∧ '\x00' ∉ name

/-- What holds of the names of a directory holds of those that a path is followed from. -/
theorem Tree.forall_mem_start {P : Text → Prop} {cwd : Location} (h : ∀ name ∈ cwd, P name)
    (path : Path) : ∀ name ∈ Tree.start cwd path, P name := by
  rw [start]
  split
  · exact List.forall_mem_nil P
  · exact h

namespace Path

variable {path : Path} {l ss : List Text} {step : Text} {double ended : Bool} {c : Char}

/-! ### Steps from the root -/

/-- Texts that are steps and do not come apart between slashes. -/
def ArePlain (l : List Text) : Prop :=
  ∀ step ∈ l, isStep step = true ∧ '/' ∉ step

theorem arePlain_steps (path : Path) : ArePlain (steps path) := by
  intro step hstep
  obtain ⟨hpiece, hproper⟩ := List.mem_filter.mp hstep
  exact ⟨hproper, slash_not_mem_of_mem_pieces hpiece⟩

theorem ArePlain.append (hl : ArePlain l) (hss : ArePlain ss) : ArePlain (l ++ ss) :=
  List.forall_mem_append.mpr ⟨hl, hss⟩

theorem arePlain_nil : ArePlain [] := by
  intro step hstep
  cases hstep

theorem arePlain_of_isSpellable {l : Location} (h : l.IsSpellable) : ArePlain l :=
  fun name hname => ⟨(h name hname).1.isStep, (h name hname).2.1⟩

theorem ne_nil_of_isStep (h : isStep step = true) : step ≠ [] := by
  intro hempty
  rw [hempty] at h
  cases h

theorem path_nil : Location.path [] = ['/'] := rfl

theorem path_of_ne_nil (h : l ≠ []) : Location.path l = l.flatMap ('/' :: ·) :=
  if_neg h

theorem path_ne_nil (l : Location) : Location.path l ≠ [] := by
  cases l with
  | nil => exact List.cons_ne_nil _ _
  | cons step rest =>
    rw [path_of_ne_nil (List.cons_ne_nil _ _), List.flatMap_cons]
    exact List.cons_ne_nil _ _

theorem path_concat (l : List Text) (step : Text) :
    Location.path (l ++ [step]) = l.flatMap ('/' :: ·) ++ '/' :: step := by
  rw [path_of_ne_nil (by simp), List.flatMap_append, List.flatMap_singleton]

/-- Only the root ends with a slash. -/
theorem getLast?_path (h : ArePlain l) : (Location.path l).getLast? = some '/' ↔ l = [] := by
  constructor
  · intro hslash
    obtain hnil | ⟨front, step, rfl⟩ := l.eq_nil_or_concat'
    · exact hnil
    · obtain ⟨hproper, hplain⟩ := h step (by simp)
      rw [path_concat, List.getLast?_append_cons,
        List.getLast?_cons_of_ne_nil (ne_nil_of_isStep hproper)] at hslash
      exact absurd (List.mem_of_getLast? hslash) hplain
  · intro hnil
    rw [hnil]
    rfl

/-- Each step stands behind a slash, and so there is an empty piece in front of the first one. -/
theorem path_eq_ofPieces (h : l ≠ []) : Location.path l = ofPieces ([] :: l) := by
  rw [path_of_ne_nil h]
  induction l with
  | nil => exact absurd rfl h
  | cons step rest ih =>
    by_cases hrest : rest = []
    · simp [hrest, ofPieces]
    · have hmore := ih hrest
      rw [ofPieces_cons [] hrest, List.nil_append] at hmore
      rw [List.flatMap_cons, hmore, ofPieces_cons [] (List.cons_ne_nil _ _),
        ofPieces_cons step hrest]
      rfl

/-- Pieces that are steps from the root make up the path behind its first slash. -/
theorem path_pieces (path : Path) : Location.path (pieces path) = '/' :: path := by
  rw [path_eq_ofPieces (pieces_ne_nil path), ofPieces_cons [] (pieces_ne_nil path), ofPieces_pieces]
  rfl

/-- What stands between the slashes of the path of a location. -/
theorem pieces_path (h : ArePlain l) :
    pieces (Location.path l) = [] :: (if l = [] then [[]] else l) := by
  by_cases hnil : l = []
  · rw [hnil]
    rfl
  · rw [path_eq_ofPieces hnil, if_neg hnil]
    refine pieces_ofPieces (List.cons_ne_nil _ _) (List.forall_mem_cons.mpr ⟨by simp, ?_⟩)
    exact fun step hstep => (h step hstep).2

/-- The slash in front of the path of a location, if there is one more. -/
def lead : Bool → Path
  | true => ['/']
  | false => []

/-- The absolute path of some steps, with one slash in front or two, and with a slash at its end or
as its steps end. -/
def rooted (double : Bool) (l : List Text) (ended : Bool) : Path :=
  lead double ++ if ended then slashed (Location.path l) else Location.path l

/-- A slash at the end of a path is a last piece without anything in it. -/
theorem pieces_slashed_path (h : ArePlain l) :
    pieces (slashed (Location.path l)) = [] :: (l ++ [[]]) := by
  by_cases hnil : l = []
  · rw [hnil]
    rfl
  · have hnot : (Location.path l).getLast? ≠ some '/' := fun hslash => hnil ((getLast?_path h).mp hslash)
    rw [slashed, if_neg hnot, pieces_append_slash, pieces_path h, if_neg hnil]
    rfl

/-- The pieces of a rooted path are its steps, with empty ones in front of them, and with one behind
them if the path ends with a slash or has no steps. -/
theorem pieces_rooted (h : ArePlain l) (double ended : Bool) :
    pieces (rooted double l ended) =
      (if double then [[]] else []) ++ [] :: (l ++ if ended || l = [] then [[]] else []) := by
  have hwhole : pieces (if ended then slashed (Location.path l) else Location.path l) =
      [] :: (l ++ if ended || l = [] then [[]] else []) := by
    cases ended with
    | true => exact pieces_slashed_path h
    | false =>
      by_cases hnil : l = []
      · rw [hnil]
        rfl
      · simp [pieces_path h, hnil]
  cases double with
  | true =>
    rw [rooted, lead, List.singleton_append, pieces, if_pos rfl, hwhole]
    rfl
  | false => exact hwhole

theorem dot_not_mem_pieces_rooted (h : ArePlain l) (double ended : Bool) :
    ['.'] ∉ pieces (rooted double l ended) := by
  have hstep : ['.'] ∉ l := fun hmem => Bool.noConfusion (h ['.'] hmem).1
  rw [pieces_rooted h]
  cases double <;> cases ended <;> by_cases hnil : l = [] <;> simp [hstep, hnil]

theorem steps_rooted (h : ArePlain l) (double ended : Bool) : steps (rooted double l ended) = l := by
  have hself : l.filter isStep = l := List.filter_eq_self.mpr fun step hstep => (h step hstep).1
  have hidle : isStep [] = false := rfl
  rw [steps, pieces_rooted h, List.filter_append, List.filter_cons, hidle, List.filter_append, hself]
  cases double <;> cases hended : (ended || decide (l = [])) <;> simp [hidle]

/-! ### Making a path absolute -/

/-- A path begins with two slashes, and not with three. -/
def IsDoubled (path : Path) : Prop :=
  ∃ rest, path = '/' :: '/' :: rest ∧ rest.head? ≠ some '/'

/-- Whether a path begins with exactly two slashes. -/
def isDoubled : Path → Bool
  | '/' :: '/' :: '/' :: _ => false
  | '/' :: '/' :: _ => true
  | _ => false

theorem isDoubled_iff : isDoubled path = true ↔ IsDoubled path := by
  rw [isDoubled.eq_def]
  split
  · simp [IsDoubled]
  · next rest hthree =>
    simp only [true_iff]
    refine ⟨rest, rfl, fun hhead => ?_⟩
    obtain ⟨more, rfl⟩ := List.head?_eq_some_iff.mp hhead
    exact hthree more rfl
  · next hnot =>
    simp only [Bool.false_eq_true, false_iff]
    intro h
    obtain ⟨rest, rfl, -⟩ := h
    exact hnot rest rfl

theorem isDoubled_of_relative (h : isAbsolute path = false) : isDoubled path = false := by
  rw [Bool.eq_false_iff, ne_eq, isDoubled_iff]
  intro hdouble
  obtain ⟨rest, rfl, -⟩ := hdouble
  cases h

theorem rootOf_eq (path : Path) : rootOf path = lead (isDoubled path) ++ Location.path [] := by
  rw [rootOf.eq_def, isDoubled.eq_def]
  split <;> simp_all [lead, path_nil]

theorem slashed_lead_append (double : Bool) (l : List Text) :
    slashed (lead double ++ Location.path l) = lead double ++ slashed (Location.path l) := by
  cases double with
  | false => rfl
  | true =>
    rw [lead, List.singleton_append, slashed, List.getLast?_cons_of_ne_nil (path_ne_nil l), slashed]
    split <;> rfl

/-- A step below a location stands behind the path of the location. -/
theorem join_path (h : ArePlain l) (double : Bool) (step : Text) :
    join (lead double ++ Location.path l) step = lead double ++ Location.path (l ++ [step]) := by
  have hne : lead double ++ Location.path l ≠ [] :=
    List.append_ne_nil_of_right_ne_nil _ (path_ne_nil l)
  have hjoin : join (lead double ++ Location.path l) step =
      lead double ++ (slashed (Location.path l) ++ step) := by
    rw [join, slashed_lead_append, List.append_assoc]
    simp [hne]
  rw [hjoin, path_concat, slashed]
  by_cases hnil : l = []
  · rw [hnil]
    rfl
  · rw [if_neg fun hslash => hnil ((getLast?_path h).mp hslash), path_of_ne_nil hnil,
      List.append_assoc]
    rfl

theorem foldl_join (h : ArePlain l) (hss : ArePlain ss) (double : Bool) :
    ss.foldl join (lead double ++ Location.path l) = lead double ++ Location.path (l ++ ss) := by
  induction ss generalizing l with
  | nil => rw [List.foldl_nil, List.append_nil]
  | cons step rest ih =>
    obtain ⟨hstep, hrest⟩ := List.forall_mem_cons.mp hss
    have hmore : ArePlain (l ++ [step]) := h.append (List.forall_mem_singleton.mpr hstep)
    rw [List.foldl_cons, join_path h, ih hmore hrest, List.append_assoc]
    rfl

/-- A path that is made absolute takes the steps to where it is followed from, and then its own. -/
theorem absolute_eq {cwd : Location} (hcwd : ArePlain cwd) (hne : path ≠ []) :
    absolute cwd.path path = some (rooted (isDoubled path) (Tree.start cwd path ++ steps path)
      (path.getLast? = some '/')) := by
  have hstart : ArePlain (Tree.start cwd path) := Tree.forall_mem_start hcwd path
  have hbase : (if isAbsolute path then rootOf path else cwd.path) =
      lead (isDoubled path) ++ Location.path (Tree.start cwd path) := by
    rw [Tree.start]
    split
    · exact rootOf_eq path
    · next hrelative =>
      rw [isDoubled_of_relative (Bool.eq_false_iff.mpr hrelative)]
      rfl
  rw [absolute, if_neg (by simp [hne])]
  simp only [hbase, foldl_join hstart (arePlain_steps path), slashed_lead_append]
  rw [rooted]
  by_cases hended : path.getLast? = some '/' <;> simp [hended]

/-- A path without idle pieces, the empty ones among them, only has to be put below a directory. -/
theorem absolute_of_forall_isStep {cwd : Location} (hcwd : ArePlain cwd)
    (h : ∀ piece ∈ pieces path, isStep piece = true) :
    absolute cwd.path path = some (Location.path (cwd ++ pieces path)) := by
  have hnil : [] ∉ pieces path := fun hmem => ne_nil_of_isStep (h [] hmem) rfl
  have hne : path ≠ [] := by
    intro hempty
    rw [hempty] at hnil
    exact hnil List.mem_cons_self
  -- A slash at either end would stand beside an empty piece.
  have hrelative : isAbsolute path = false := by
    rw [Bool.eq_false_iff]
    intro habsolute
    obtain ⟨rest, rfl⟩ : ∃ rest, path = '/' :: rest :=
      List.head?_eq_some_iff.mp (by simpa [isAbsolute] using habsolute)
    exact hnil List.mem_cons_self
  have hlast : path.getLast? ≠ some '/' := by
    intro hslash
    obtain ⟨front, rfl⟩ := List.getLast?_eq_some_iff.mp hslash
    rw [pieces_append_slash] at hnil
    exact hnil (List.mem_append_right _ List.mem_cons_self)
  have hsteps : steps path = pieces path := List.filter_eq_self.mpr h
  have hstart : Tree.start cwd path = cwd := if_neg (by simp [hrelative])
  rw [absolute_eq hcwd hne, hsteps, hstart, isDoubled_of_relative hrelative, decide_eq_false hlast]
  rfl

/-! ### Absolute paths -/

/-- An absolute path begins with one slash behind the one that may be in front of it. -/
theorem exists_rooted_eq (h : ArePlain l) (double ended : Bool) :
    ∃ rest, rooted double l ended = lead double ++ '/' :: rest ∧ rest.head? ≠ some '/' := by
  cases l with
  | nil => exact ⟨[], by cases ended <;> rfl, by simp⟩
  | cons step more =>
    obtain ⟨hproper, hplain⟩ := h step List.mem_cons_self
    obtain ⟨c, name, rfl⟩ := List.exists_cons_of_ne_nil (ne_nil_of_isStep hproper)
    have hc : c ≠ '/' := fun hslash => hplain (hslash ▸ List.mem_cons_self)
    have hpath : Location.path ((c :: name) :: more) =
        '/' :: c :: (name ++ more.flatMap ('/' :: ·)) := rfl
    rw [rooted, hpath, slashed]
    split
    · split
      · exact ⟨_, rfl, by simpa using hc⟩
      · exact ⟨c :: (name ++ more.flatMap ('/' :: ·) ++ ['/']), by simp, by simpa using hc⟩
    · exact ⟨_, rfl, by simpa using hc⟩

theorem isAbsolute_rooted (h : ArePlain l) (double ended : Bool) :
    isAbsolute (rooted double l ended) = true := by
  obtain ⟨rest, heq, -⟩ := exists_rooted_eq h double ended
  rw [heq]
  cases double <;> rfl

theorem rooted_ne_nil (h : ArePlain l) (double ended : Bool) : rooted double l ended ≠ [] := by
  obtain ⟨rest, heq, -⟩ := exists_rooted_eq h double ended
  rw [heq]
  cases double <;> simp [lead]

theorem isDoubled_rooted (h : ArePlain l) (double ended : Bool) :
    isDoubled (rooted double l ended) = double := by
  obtain ⟨rest, heq, hhead⟩ := exists_rooted_eq h double ended
  rw [heq]
  cases double with
  | true => exact isDoubled_iff.mpr ⟨rest, rfl, hhead⟩
  | false =>
    rw [Bool.eq_false_iff, ne_eq, isDoubled_iff]
    intro hdouble
    obtain ⟨more, hsame, -⟩ := hdouble
    obtain rfl : rest = '/' :: more := (List.cons.inj hsame).2
    exact hhead rfl

/-- Two slashes side by side have an empty piece between them, which is neither the first nor the
last one. -/
theorem nil_mem_of_double_slash (front back : Path) :
    [] ∈ (pieces (front ++ '/' :: '/' :: back)).tail.dropLast := by
  have hslash : pieces ('/' :: back) = [] :: pieces back := pieces_append_slash [] back
  have hback := pieces_ne_nil back
  rw [pieces_append_slash, hslash]
  obtain ⟨first, others, hfront⟩ := List.exists_cons_of_ne_nil (pieces_ne_nil front)
  rw [hfront, List.cons_append, List.tail_cons, List.dropLast_append_of_ne_nil (by simp),
    List.dropLast_cons_of_ne_nil hback]
  simp

/-- Two slashes stand side by side in an absolute path only if it begins with both of them. -/
theorem eq_nil_of_rooted_eq (h : ArePlain l) {front back : Path}
    (heq : rooted double l ended = front ++ '/' :: '/' :: back) : front = [] ∧ double = true := by
  -- Behind what may be in front, the empty pieces are the first and the last one.
  have hsingle (front back : Path) : rooted false l ended ≠ front ++ '/' :: '/' :: back := by
    intro heq
    have hinner := nil_mem_of_double_slash front back
    rw [← heq, pieces_rooted h] at hinner
    have hproper : [] ∈ l := by
      by_cases hlast : (ended || decide (l = [])) = true
      · simpa [hlast] using hinner
      · rw [if_neg hlast] at hinner
        exact List.dropLast_subset _ (by simpa using hinner)
    exact ne_nil_of_isStep (h [] hproper).1 rfl
  cases double with
  | false => exact absurd heq (hsingle front back)
  | true =>
    cases front with
    | nil => exact ⟨rfl, rfl⟩
    | cons c rest => exact absurd (List.cons.inj heq).2 (hsingle rest back)

/-- A slash at the end is kept, and it is put at the end of nothing else but the root. -/
theorem getLast?_rooted (h : ArePlain l) :
    (rooted double l ended).getLast? = some '/' ↔ ended = true ∨ l = [] := by
  have hne := path_ne_nil l
  cases ended with
  | true =>
    simp only [true_or, iff_true]
    rw [rooted, if_pos rfl, slashed]
    split
    · next hslash => rw [List.getLast?_append_of_ne_nil _ hne, hslash]
    · rw [← List.append_assoc, List.getLast?_concat]
  | false =>
    have hwhole : rooted double l false = lead double ++ Location.path l := rfl
    rw [hwhole, List.getLast?_append_of_ne_nil _ hne, getLast?_path h]
    simp

/-- Making an absolute path absolute changes nothing, wherever it is done. -/
theorem absolute_rooted (h : ArePlain l) (double ended : Bool) (cwd : Path) :
    absolute cwd (rooted double l ended) = some (rooted double l ended) := by
  have habsolute := isAbsolute_rooted h double ended
  have hanywhere : absolute cwd (rooted double l ended) =
      absolute (Location.path []) (rooted double l ended) := by
    rw [absolute, absolute, habsolute, if_pos rfl, if_pos rfl]
  have hstart : Tree.start [] (rooted double l ended) = [] := by
    rw [Tree.start, ite_self]
  rw [hanywhere, absolute_eq arePlain_nil (rooted_ne_nil h double ended), hstart, List.nil_append,
    steps_rooted h, isDoubled_rooted h, Option.some.injEq]
  by_cases hslash : (rooted double l ended).getLast? = some '/'
  · rw [decide_eq_true hslash]
    obtain rfl | rfl := (getLast?_rooted h).mp hslash
    · rfl
    · cases ended <;> rfl
  · have hended : ended = false := by
      rw [Bool.eq_false_iff]
      exact fun hended => hslash ((getLast?_rooted h).mpr (.inl hended))
    rw [decide_eq_false hslash, hended]

/-- What stands in an absolute path are slashes and steps. -/
theorem mem_of_mem_rooted (h : c ∈ rooted double l ended) : c = '/' ∨ ∃ step ∈ l, c ∈ step := by
  have hpath (hmem : c ∈ Location.path l) : c = '/' ∨ ∃ step ∈ l, c ∈ step := by
    by_cases hnil : l = []
    · rw [hnil] at hmem
      exact .inl (List.mem_singleton.mp hmem)
    · rw [path_of_ne_nil hnil, List.mem_flatMap] at hmem
      obtain ⟨step, hstep, hc⟩ := hmem
      exact (List.mem_cons.mp hc).imp id fun hc => ⟨step, hstep, hc⟩
  rw [rooted, List.mem_append] at h
  obtain hlead | hwhole := h
  · cases double with
    | true => exact .inl (List.mem_singleton.mp hlead)
    | false => cases hlead
  · split at hwhole
    · rw [slashed] at hwhole
      split at hwhole
      · exact hpath hwhole
      · exact (List.mem_append.mp hwhole).elim hpath fun hc => .inl (List.mem_singleton.mp hc)
    · exact hpath hwhole

end Path

namespace Tree

variable {t : Tree} {l k cwd place : Location} {path program : Path} {double ended : Bool}

/-! ### The way to a program -/

/-- Names lead down to the directory whose location they are. -/
theorem walk_names (hdir : t.IsDirectory (l ++ k)) (hnames : ∀ name ∈ k, IsName name) :
    t.walk l k = .ok (l ++ k) := by
  induction k generalizing l with
  | nil => rw [walk, List.append_nil]
  | cons name rest ih =>
    obtain ⟨hname, hrest⟩ := List.forall_mem_cons.mp hnames
    have hsplit : l ++ name :: rest = l ++ [name] ++ rest := by simp
    have habove : t.IsDirectory (l ++ [name]) := by
      intro m hm
      exact hdir m (hsplit ▸ hm.trans (List.prefix_append _ rest))
    have hleads : t.Leads l name (l ++ [name]) :=
      .down (isDirectory_concat_iff.mp habove).1.node? hname (by rw [habove.node?]; rfl)
    rw [hsplit] at hdir ⊢
    exact walk_cons_eq_ok_iff.mpr ⟨_, hleads, ih hdir hrest⟩

theorem walk_from_root (hdir : t.IsDirectory cwd) (hnames : cwd.IsSpellable) :
    t.walk [] cwd = .ok cwd :=
  walk_names (l := []) hdir fun name hname => (hnames name hname).1

/-- A path that ends with a slash leads to directories only. -/
theorem node?_of_ended (h : t.locate cwd path = .ok place) (hended : path.getLast? = some '/') :
    t.node? place = some .directory := by
  obtain ⟨-, -, -, hwalk⟩ := locate_eq_ok_iff.mp h
  obtain ⟨front, rfl⟩ := List.getLast?_eq_some_iff.mp hended
  have hpieces : Path.pieces (front ++ ['/']) = Path.pieces front ++ [[]] :=
    Path.pieces_append_slash front []
  rw [hpieces, walk_append_eq_ok_iff] at hwalk
  obtain ⟨dir, -, hlast⟩ := hwalk
  obtain ⟨m, hleads, hend⟩ := walk_cons_eq_ok_iff.mp hlast
  obtain rfl := Except.ok.inj hend
  -- The piece behind the slash is empty, and from a file nothing leads on.
  cases hleads with
  | idle hdir => exact hdir
  | down _ hname => exact absurd rfl (Path.ne_nil_of_isStep hname.isStep)

/-- An absolute path leads to where its steps lead; it may end with a slash if that is a directory.
-/
theorem walk_pieces_rooted (h : Path.ArePlain l) (hwalk : t.walk [] l = .ok place)
    (hended : ended = true → t.node? place = some .directory) :
    t.walk [] (Path.pieces (Path.rooted double l ended)) = .ok place := by
  have hsteps : t.walk [] ((Path.pieces (Path.rooted double l ended)).filter Path.isStep) =
      .ok place := by
    have hsame := Path.steps_rooted h double ended
    rw [Path.steps] at hsame
    rw [hsame]
    exact hwalk
  by_cases hdir : t.node? place = some .directory
  · exact walk_of_filter_isStep hsteps hdir
  · -- Nothing is behind the steps then, and in front of them is the root.
    have hnot : ended = false := Bool.eq_false_iff.mpr fun hslash => hdir (hended hslash)
    have hne : l ≠ [] := by
      intro hnil
      rw [hnil] at hwalk
      obtain rfl := Except.ok.inj hwalk
      exact hdir rfl
    have hidle : t.Leads [] [] [] := .idle rfl rfl
    have hone : t.walk [] ([] :: l) = .ok place := walk_cons_eq_ok_iff.mpr ⟨[], hidle, hwalk⟩
    have hbehind : (ended || decide (l = [])) = false := by simp [hnot, hne]
    rw [Path.pieces_rooted h, hbehind, if_neg Bool.false_ne_true, List.append_nil]
    cases double with
    | true => exact walk_cons_eq_ok_iff.mpr ⟨[], hidle, hone⟩
    | false => exact hone

/-- **An absolute path leads from anywhere to what the path led to**, unless it is longer than a path
may be. -/
theorem locate_absolute (hcwd : t.IsDirectory cwd) (hnames : cwd.IsSpellable)
    (hprogram : Path.absolute cwd.path path = some program) (h : t.locate cwd path = .ok place)
    (dir : Location) :
    t.locate dir program =
      if maxPath < (Utf8.encode program).length then .error .nameTooLong else .ok place := by
  have hplain := Path.arePlain_of_isSpellable hnames
  obtain ⟨hnul, hne, -, hwalk⟩ := locate_eq_ok_iff.mp h
  rw [Path.absolute_eq hplain hne, Option.some.injEq] at hprogram
  have hstart : (start cwd path).IsSpellable := forall_mem_start hnames path
  have hall : Path.ArePlain (start cwd path ++ Path.steps path) :=
    (Path.arePlain_of_isSpellable hstart).append (Path.arePlain_steps path)
  have hdown := walk_from_root (isDirectory_start hcwd path) hstart
  have hway : t.walk [] (start cwd path ++ Path.steps path) = .ok place :=
    walk_append_eq_ok_iff.mpr ⟨_, hdown, walk_filter_isStep hwalk⟩
  have hfound : t.walk (start dir program) (Path.pieces program) = .ok place := by
    rw [start, ← hprogram, if_pos (Path.isAbsolute_rooted hall _ _)]
    refine walk_pieces_rooted hall hway fun hended => node?_of_ended h ?_
    simpa using hended
  have hclean : '\x00' ∉ program := by
    rw [← hprogram]
    intro hmem
    obtain hslash | ⟨step, hstep, hmem⟩ := Path.mem_of_mem_rooted hmem
    · exact absurd hslash (by decide)
    · obtain hstep | hstep := List.mem_append.mp hstep
      · exact (hstart step hstep).2.2 hmem
      · exact hnul (Path.subset_of_mem_pieces (List.mem_of_mem_filter hstep) hmem)
  have hsome : program ≠ [] := hprogram ▸ Path.rooted_ne_nil hall _ _
  split
  · next hlong => rw [locate, if_neg hclean, if_neg hsome, if_pos hlong]
  · next hshort => exact locate_eq_ok_iff.mpr ⟨hclean, hsome, Nat.le_of_not_lt hshort, hfound⟩

/-- A text is a name and nothing more: it stands for no directory, and it leads through none. -/
structure IsBareName (name : Text) : Prop where
  isStep : Path.isStep name = true
  ne_above : name ≠ ['.', '.']
  plain : '/' ∉ name

theorem IsBareName.absolute (hname : IsBareName path) (hcwd : Path.ArePlain cwd) :
    Path.absolute cwd.path path = some (Location.path (cwd ++ [path])) := by
  have hpieces := Path.pieces_of_plain hname.plain
  rw [← hpieces]
  refine Path.absolute_of_forall_isStep hcwd ?_
  rw [hpieces]
  exact List.forall_mem_singleton.mpr hname.isStep

/-- A bare name is not looked for anywhere else. -/
theorem eq_of_locate_bare (hname : IsBareName path) (hcwd : t.IsDirectory cwd)
    (hnames : cwd.IsSpellable) {dir : Location}
    (h : t.locate dir (Location.path (cwd ++ [path])) = .ok place) : place = cwd ++ [path] := by
  have hall : Path.ArePlain (cwd ++ [path]) := (Path.arePlain_of_isSpellable hnames).append
    (List.forall_mem_singleton.mpr ⟨hname.isStep, hname.plain⟩)
  obtain ⟨-, -, -, hwalk⟩ := locate_eq_ok_iff.mp h
  have hsteps : Path.steps (Location.path (cwd ++ [path])) = cwd ++ [path] :=
    Path.steps_rooted hall false false
  have hroot : start dir (Location.path (cwd ++ [path])) = [] :=
    if_pos (Path.isAbsolute_rooted hall false false)
  have hway := walk_filter_isStep hwalk
  rw [← Path.steps, hsteps, hroot, walk_append_eq_ok_iff] at hway
  obtain ⟨k, hk, hlast⟩ := hway
  have hdown := walk_from_root hcwd hnames
  obtain rfl := Except.ok.inj (hdown.symm.trans hk)
  obtain ⟨m, hleads, hend⟩ := walk_cons_eq_ok_iff.mp hlast
  obtain rfl := Except.ok.inj hend
  cases hleads with
  | idle _ hidle => exact Bool.noConfusion (hname.isStep.symm.trans hidle)
  | up => exact absurd rfl hname.ne_above
  | down => rfl

end Tree

namespace World

variable {w : World} {exe path program testCase : Path} {fault : Fault}

/-- Only the empty path cannot be made absolute. -/
theorem absolute_eq_error_iff (hnames : w.directory.IsSpellable) :
    w.absolute path = .error fault ↔
      path = [] ∧ fault = .io "failed to resolve ".toList .emptyPath := by
  have hempty : Fault.unresolvable [] .emptyPath = .io "failed to resolve ".toList .emptyPath :=
    congrArg (Fault.io · .emptyPath) (List.append_nil _)
  by_cases hne : path = []
  · rw [hne, ← hempty]
    simp [absolute, Path.absolute, eq_comm]
  · rw [absolute, Path.absolute_eq (Path.arePlain_of_isSpellable hnames) hne]
    simp [hne]

/-- The empty path is refused before anything is started. -/
theorem execute_nil {stdin : Option Path} {o : RunOptions} (hcase : w.require testCase = .ok ())
    (hinput : stdin.forM w.require = .ok ()) (hnames : w.directory.IsSpellable) :
    w.execute [] testCase stdin o =
      some (.error (.io "failed to resolve ".toList .emptyPath)) := by
  have hrefused := (absolute_eq_error_iff hnames).mpr ⟨rfl, rfl⟩
  rw [execute, launch, hcase, Stage.bind_ok, hinput, Stage.bind_ok, order, hrefused]
  rfl

theorem launch_nil_ne_ok {stdin : Option Path} {o : RunOptions} (run : Trace) :
    w.launch [] testCase stdin o ≠ .ok run := by
  intro h
  obtain ⟨-, -, -, program, -, -, hprogram, -⟩ := launch_eq_ok_iff.mp h
  cases hprogram

/-- What is run is what the path of the program leads to, and so the path is short enough. -/
theorem length_le_of_run {programs : Programs} {t : Tree} {order : Launch.Order} {run : Trace}
    (h : Launch.run programs t order program = .ok run) :
    (Utf8.encode program).length ≤ Tree.maxPath := by
  obtain ⟨place, hplace⟩ := Launch.exists_locate_of_run h
  exact (Tree.locate_eq_ok_iff.mp hplace).2.2.1

/-- **A path that is made absolute names the program that is meant.** A path that is not empty
becomes one that begins at the root; it takes the steps to the runner's directory, if the path is
relative, and those of the path, each `..` among them; it keeps a slash at the end; and it has no
component `.`, and no slash behind another but at its beginning, if the path begins with exactly
two. It is the same when it is made absolute again. From every directory it leads to what the path
led to from that of the runner, and this is the program that a subject is started with in the
directory of its test case; only if it is longer than a path may be it leads nowhere, and nothing is
started. A bare name leads nowhere but to what has it in the runner's directory. Only the empty path
is refused, before anything is started. -/
theorem absolute_names_same (w : World) (hdirectory : w.tree.IsDirectory w.directory)
    (hnames : w.directory.IsSpellable) :
    (∀ exe fault, w.absolute exe = .error fault ↔
      exe = [] ∧ fault = .io "failed to resolve ".toList .emptyPath) ∧
    (∀ testCase stdin o, (∀ run, w.launch [] testCase stdin o ≠ .ok run) ∧
      (w.require testCase = .ok () → stdin.forM w.require = .ok () →
        w.execute [] testCase stdin o =
          some (.error (.io "failed to resolve ".toList .emptyPath)))) ∧
    ∀ exe program, w.absolute exe = .ok program →
      program.head? = some '/' ∧
      ['.'] ∉ Path.pieces program ∧
      (Path.IsDoubled program ↔ Path.IsDoubled exe) ∧
      (∀ front back, program = front ++ '/' :: '/' :: back → front = [] ∧ Path.IsDoubled exe) ∧
      Path.steps program = (if Path.isAbsolute exe then [] else w.directory) ++ Path.steps exe ∧
      (exe.getLast? = some '/' → program.getLast? = some '/') ∧
      (∀ cwd : Path, Path.absolute cwd program = some program) ∧
      (∀ place, w.tree.locate w.directory exe = .ok place → ∀ dir, w.tree.locate dir program =
        if Tree.maxPath < (Utf8.encode program).length then .error .nameTooLong else .ok place) ∧
      (Tree.maxPath < (Utf8.encode program).length → ∀ testCase stdin o run,
        w.launch exe testCase stdin o ≠ .ok run) ∧
      (Tree.IsBareName exe → program = Location.path (w.directory ++ [exe]) ∧
        ∀ dir place, w.tree.locate dir program = .ok place → place = w.directory ++ [exe]) ∧
      ∀ testCase place bytes stdin input o, w.HasFile testCase place bytes → w.HasInput stdin input →
        w.launch exe testCase stdin o = (Launch.run w.programs w.tree (Execution.orderAt place input
          (Execution.environment w.environ o)) program).mapError (Fault.launch program) := by
  refine ⟨fun exe fault => absolute_eq_error_iff hnames,
    fun testCase stdin o => ⟨fun run => launch_nil_ne_ok run,
      fun hcase hinput => execute_nil hcase hinput hnames⟩, ?_⟩
  intro exe program h
  have hprogram := absolute_eq_ok_iff.mp h
  have hplain := Path.arePlain_of_isSpellable hnames
  have hne : exe ≠ [] := by
    intro hempty
    rw [hempty] at hprogram
    cases hprogram
  have hstart : Path.ArePlain (Tree.start w.directory exe) := Tree.forall_mem_start hplain exe
  have hall := hstart.append (Path.arePlain_steps exe)
  obtain rfl := Option.some.inj ((Path.absolute_eq hplain hne).symm.trans hprogram)
  refine ⟨?_, ?_, ?_, ?_, Path.steps_rooted hall _ _, ?_, Path.absolute_rooted hall _ _, ?_, ?_, ?_,
    ?_⟩
  · simpa [Path.isAbsolute] using Path.isAbsolute_rooted hall _ _
  · exact Path.dot_not_mem_pieces_rooted hall _ _
  · rw [← Path.isDoubled_iff, Path.isDoubled_rooted hall, Path.isDoubled_iff]
  · intro front back heq
    obtain ⟨hfront, hdouble⟩ := Path.eq_nil_of_rooted_eq hall heq
    exact ⟨hfront, Path.isDoubled_iff.mp hdouble⟩
  · intro hslash
    exact (Path.getLast?_rooted hall).mpr (.inl (decide_eq_true hslash))
  · intro place hplace dir
    exact Tree.locate_absolute hdirectory hnames hprogram hplace dir
  · intro hlong testCase stdin o run hlaunch
    obtain ⟨_, _, _, launched, -, -, hlaunched, hrun⟩ := launch_eq_ok_iff.mp hlaunch
    obtain rfl := Option.some.inj (hprogram.symm.trans hlaunched)
    exact absurd (length_le_of_run hrun) (Nat.not_le.mpr hlong)
  · intro hname
    have hbare := Option.some.inj (hprogram.symm.trans (hname.absolute hplain))
    rw [hbare]
    exact ⟨rfl, fun dir place => Tree.eq_of_locate_bare hname hdirectory hnames⟩
  · intro testCase place bytes stdin input o hcase hinput
    exact launch_eq_run hcase hinput hprogram o

/-- A runner's directory `w` with a program `t`, beside a directory `d` with a test case `c`. -/
def astray : World where
  tree := ⟨[([['w']], .directory), ([['w'], ['t']], .file [] (.scripted [])),
    ([['d']], .directory), ([['d'], ['c']], .file [] .plain)]⟩
  directory := [['w']]
  environ := []
  programs := .unknown

/-- A roundabout path of the program is followed from the directory of the test case. -/
theorem absolute_names_same_astray :
    astray.tree.IsDirectory astray.directory ∧ astray.directory.IsSpellable ∧
      astray.absolute "./..//w/./t".toList = .ok "/w/../w/t".toList ∧
      astray.tree.locate [['w']] "./..//w/./t".toList = .ok [['w'], ['t']] ∧
      astray.tree.locate [['d']] "/w/../w/t".toList = .ok [['w'], ['t']] ∧
      Path.steps "/w/../w/t".toList = [['w']] ++ Path.steps "./..//w/./t".toList ∧
      astray.absolute "//w/./t/".toList = .ok "//w/t/".toList ∧ Path.IsDoubled "//w/t/".toList ∧
      Path.absolute "/d".toList "//w/t/".toList = some "//w/t/".toList ∧
      astray.launch "./..//w/./t".toList "../d/c".toList none Effective.default.runOptions =
        (Launch.run astray.programs astray.tree (Execution.orderAt [['d'], ['c']] []
          (Execution.environment [] Effective.default.runOptions)) "/w/../w/t".toList).mapError
            (Fault.launch "/w/../w/t".toList) := by
  have hdirectory : astray.tree.IsDirectory astray.directory :=
    Tree.isDirectory_concat_iff.mpr ⟨Tree.isDirectory_nil _, rfl⟩
  have hnames : astray.directory.IsSpellable := by
    refine List.forall_mem_singleton.mpr ⟨⟨rfl, by decide, by decide⟩, by decide, by decide⟩
  obtain ⟨-, -, hsame⟩ := absolute_names_same astray hdirectory hnames
  have hprogram : astray.absolute "./..//w/./t".toList = .ok "/w/../w/t".toList := by
    decide +kernel
  have hmeant : astray.tree.locate [['w']] "./..//w/./t".toList = .ok [['w'], ['t']] := by
    decide +kernel
  have hdoubled : astray.absolute "//w/./t/".toList = .ok "//w/t/".toList := by
    decide +kernel
  have hcase : astray.HasFile "../d/c".toList [['d'], ['c']] [] := ⟨by decide +kernel, .plain, rfl⟩
  obtain ⟨-, -, -, -, hsteps, -, -, hleads, -, -, hlaunch⟩ := hsame _ _ hprogram
  obtain ⟨-, -, hdouble, -, -, -, hagain, -⟩ := hsame _ _ hdoubled
  have hslashes : Path.IsDoubled "//w/./t/".toList := ⟨"w/./t/".toList, rfl, by decide⟩
  exact ⟨hdirectory, hnames, hprogram, hmeant, hleads _ hmeant [['d']], hsteps, hdoubled,
    hdouble.mpr hslashes, hagain "/d".toList, hlaunch _ _ _ none [] _ hcase rfl⟩

end World

/-! ### Paths that become too long -/

/-- A path behind some number of ways into a directory and out again. -/
def Path.wanderingTo (path : Path) : Nat → Path
  | 0 => path
  | n + 1 => 'a' :: '/' :: '.' :: '.' :: '/' :: wanderingTo path n

namespace Path

variable {path : Path}

theorem pieces_wanderingTo_succ (path : Path) (n : Nat) :
    pieces (path.wanderingTo (n + 1)) =
      ['a'] :: ['.', '.'] :: pieces (path.wanderingTo n) := by
  have hin : pieces (['a'] ++ '/' :: (['.', '.'] ++ '/' :: path.wanderingTo n)) =
      pieces ['a'] ++ pieces (['.', '.'] ++ '/' :: path.wanderingTo n) := pieces_append_slash ..
  rw [pieces_append_slash] at hin
  exact hin

theorem length_encode_wanderingTo (path : Path) (n : Nat) :
    (Utf8.encode (path.wanderingTo n)).length = 5 * n + (Utf8.encode path).length := by
  induction n with
  | zero => simp [wanderingTo]
  | succ n ih =>
    have hround : Utf8.encode (path.wanderingTo (n + 1)) =
        Utf8.encode ['a', '/', '.', '.', '/'] ++ Utf8.encode (path.wanderingTo n) := rfl
    have hfive : (Utf8.encode ['a', '/', '.', '.', '/']).length = 5 := by decide
    rw [hround, List.length_append, ih, hfive]
    omega

theorem nul_not_mem_wanderingTo (h : '\x00' ∉ path) (n : Nat) : '\x00' ∉ path.wanderingTo n := by
  induction n with
  | zero => exact h
  | succ n ih => simp [wanderingTo, ih]

theorem isStep_of_mem_pieces_wanderingTo (h : ∀ piece ∈ pieces path, isStep piece = true) (n : Nat) :
    ∀ piece ∈ pieces (path.wanderingTo n), isStep piece = true := by
  induction n with
  | zero => exact h
  | succ n ih =>
    rw [pieces_wanderingTo_succ, List.forall_mem_cons, List.forall_mem_cons]
    exact ⟨rfl, rfl, ih⟩

end Path

namespace World

/-- A directory with a program, a test case and another directory in it. -/
def tangled : World where
  tree := ⟨[([['a']], .directory), ([['c']], .file [] .plain),
    (["progr".toList], .file [] (.scripted []))]⟩
  directory := []
  environ := []
  programs := .unknown

theorem walk_wanderingTo (path : Path) (n : Nat) :
    tangled.tree.walk [] (Path.pieces (path.wanderingTo n)) =
      tangled.tree.walk [] (Path.pieces path) := by
  induction n with
  | zero => rfl
  | succ n ih =>
    rw [Path.pieces_wanderingTo_succ]
    exact ih

/-- The path of the program is just short enough to be followed, and one slash more is too much, so
that the program cannot be started. -/
theorem absolute_out_of_reach :
    tangled.tree.IsDirectory tangled.directory ∧ tangled.directory.IsSpellable ∧
      tangled.HasFile (Path.wanderingTo "progr".toList 818) ["progr".toList] [] ∧
      ∃ program, tangled.absolute (Path.wanderingTo "progr".toList 818) = .ok program ∧
        (¬ ∃ dir, tangled.tree.locate dir program = .ok ["progr".toList]) ∧
        tangled.launch (Path.wanderingTo "progr".toList 818) ['c'] none
          Effective.default.runOptions = .error (.launch program .nameTooLong) := by
  have hlength : (Utf8.encode (Path.wanderingTo "progr".toList 818)).length = 4095 := by
    rw [Path.length_encode_wanderingTo]
    decide
  have hnul : '\x00' ∉ Path.wanderingTo "progr".toList 818 :=
    Path.nul_not_mem_wanderingTo (by decide) 818
  have hprogram : Path.absolute tangled.directory.path (Path.wanderingTo "progr".toList 818) =
      some ('/' :: Path.wanderingTo "progr".toList 818) := by
    rw [← Path.path_pieces]
    exact Path.absolute_of_forall_isStep Path.arePlain_nil
      (Path.isStep_of_mem_pieces_wanderingTo (by decide) 818)
  have hroot : tangled.tree.IsDirectory tangled.directory := Tree.isDirectory_nil _
  have hnames : tangled.directory.IsSpellable := List.forall_mem_nil _
  have hfile : tangled.HasFile (Path.wanderingTo "progr".toList 818) ["progr".toList] [] := by
    refine ⟨Tree.locate_eq_ok_iff.mpr ⟨hnul, List.cons_ne_nil _ _, ?_, ?_⟩, .scripted [], rfl⟩
    · rw [hlength]
      decide
    · have hhere : Tree.start tangled.directory (Path.wanderingTo "progr".toList 818) = [] :=
        ite_self _
      rw [hhere, walk_wanderingTo]
      rfl
  have hlong : Tree.maxPath < (Utf8.encode ('/' :: Path.wanderingTo "progr".toList 818)).length := by
    have hslash : Utf8.encode ('/' :: Path.wanderingTo "progr".toList 818) =
        Utf8.encode ['/'] ++ Utf8.encode (Path.wanderingTo "progr".toList 818) := rfl
    rw [hslash, List.length_append, hlength]
    decide
  have hrefused (dir : Location) :
      tangled.tree.locate dir ('/' :: Path.wanderingTo "progr".toList 818) = .error .nameTooLong := by
    rw [Tree.locate_absolute hroot hnames hprogram hfile.1, if_pos hlong]
  refine ⟨hroot, hnames, hfile, _, absolute_eq_ok_iff.mpr hprogram, ?_, ?_⟩
  · intro h
    obtain ⟨dir, hplace⟩ := h
    cases (hrefused dir).symm.trans hplace
  · have hcase : tangled.HasFile ['c'] [['c']] [] := ⟨rfl, .plain, rfl⟩
    have hinput : tangled.HasInput none [] := rfl
    have hhanded : Launch.Order.isPlain ('/' :: Path.wanderingTo "progr".toList 818) = true := by
      simpa [Launch.Order.isPlain] using hnul
    have hsound : (Execution.orderAt [['c']] []
        (Execution.environment tangled.environ Effective.default.runOptions)).isSound = true := by
      decide
    rw [launch_eq_run hcase hinput hprogram, Launch.run_of_isSound hsound,
      Launch.start_of_isPlain hhanded, Tree.kind, hrefused]
    rfl

end World

end Golden
