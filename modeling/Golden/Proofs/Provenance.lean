import Golden.Proofs.Pipeline
import Golden.Proofs.Reading
import Mathlib.Data.List.Sort

/-!
# Where directives come from

Every directive can be traced to one line of the test case, and every line that begins with a mark
to one directive. So the directives are told by the lines alone: they are those that the lines say,
one below the other. If some exit line is malformed there are none, and the first such line is
blamed, whatever stands around it.

## Main definitions

* `Directive.Above` — a directive stands on a line above that of another
* `Directive.SaidBy` — a directive is what a line says
* `Directive.StandsIn` — a directive is said by the line that has its number
* `Directive.Marked`, `Directive.MalformedAt` — a line begins with a mark; it is a malformed exit
  line

## Main results

* `Directive.mem_ofLines_iff`, `Directive.pairwise_above_of_ofLines` — which directives are read,
  and in which order
* `Directive.ofLines_eq_ok_iff` — lines are read as the directives that stand in them
* `Directive.ofLines_eq_error_iff` — the first malformed line is blamed
* `TestCase.load_of_hasFile` — a test case is what its content is
* `Directive.parse_reads_marked_lines` — all of this for a content
-/

namespace Golden

open Stage

namespace Directive

variable {number : Nat} {line : Text} {lines rest : List Text} {ds : List Directive}
  {d : Directive} {m : Malformed}

/-- A directive stands on a line above that of another. -/
def Above (a b : Directive) : Prop :=
  a.line < b.line

instance : Std.Irrefl Above := ⟨fun _ => Nat.lt_irrefl _⟩

instance : Std.Antisymm Above := ⟨fun _ _ h h' => absurd h' (Nat.lt_asymm h)⟩

/-- A directive is what a line says: a pattern behind its mark, or the code that the payload behind
the other mark writes. -/
def SaidBy (line : Text) : Directive → Prop
  | check pattern _ => line = checkMark ++ pattern
  | exit code _ => ∃ payload, line = exitMark ++ payload ∧ codeOf? payload = some code

/-- A directive is said by the line that has its number, among lines that are numbered from `first`
on. -/
def StandsIn (first : Nat) (lines : List Text) (d : Directive) : Prop :=
  ∃ n line, d.line = first + n ∧ lines[n]? = some line ∧ d.SaidBy line

/-- A line begins with one of the two marks. -/
def Marked (line : Text) : Prop :=
  checkMark <+: line ∨ exitMark <+: line

/-- The line at a position is an exit line whose payload is no number. -/
def MalformedAt (lines : List Text) (n : Nat) : Prop :=
  ∃ payload, lines[n]? = some (exitMark ++ payload) ∧ codeOf? payload = none

/-! ### One line -/

theorem not_marked_nil : ¬ Marked [] := by
  have hcheck : checkMark ≠ [] := by decide
  have hexit : exitMark ≠ [] := by decide
  simp [Marked, hcheck, hexit]

theorem SaidBy.marked (h : d.SaidBy line) : Marked line := by
  cases d with
  | check pattern n =>
    rw [show line = checkMark ++ pattern from h]
    exact .inl (List.prefix_append _ _)
  | exit code n =>
    obtain ⟨payload, rfl, -⟩ := h
    exact .inr (List.prefix_append _ _)

/-- A directive is read off a line if the line says it, and it gets the number of the line. -/
theorem ofLine_eq_some_iff :
    ofLine number line = .ok (some d) ↔ d.line = number ∧ d.SaidBy line := by
  constructor
  · intro h
    rcases ofLine_cases number line with ⟨pattern, hline, heq⟩ | ⟨payload, code, hline, hcode, heq⟩ |
      ⟨payload, -, -, heq⟩ | ⟨-, -, heq⟩ <;> rw [h] at heq <;> cases heq
    · exact ⟨rfl, hline⟩
    · exact ⟨rfl, payload, hline, hcode⟩
  · rintro ⟨rfl, hsaid⟩
    cases d with
    | check pattern n =>
      obtain rfl : line = checkMark ++ pattern := hsaid
      simp [ofLine, Directive.line]
    | exit code n =>
      obtain ⟨payload, rfl, hcode⟩ := hsaid
      rw [ofLine_exitMark, hcode]
      rfl

/-- A line says one directive at most. -/
theorem SaidBy.unique {other : Directive} (h : d.SaidBy line) (h' : other.SaidBy line)
    (hline : d.line = other.line) : d = other := by
  have hread := ofLine_eq_some_iff.mpr ⟨rfl, h⟩
  rw [hline, ofLine_eq_some_iff.mpr ⟨rfl, h'⟩] at hread
  exact (Option.some.inj (Except.ok.inj hread)).symm

theorem ofLine_eq_error_iff :
    ofLine number line = .error m ↔
      m.line = number ∧ line = exitMark ++ m.payload ∧ codeOf? m.payload = none := by
  constructor
  · intro h
    rcases ofLine_cases number line with ⟨pattern, -, heq⟩ | ⟨payload, code, -, -, heq⟩ |
      ⟨payload, hline, hcode, heq⟩ | ⟨-, -, heq⟩ <;> rw [h] at heq <;> cases heq
    exact ⟨rfl, hline, hcode⟩
  · rintro ⟨rfl, rfl, hcode⟩
    rw [ofLine_exitMark, hcode]

/-- A line that is read and begins with a mark says a directive. -/
theorem exists_saidBy_of_marked (number : Nat) (hmarked : Marked line)
    (hwell : ∀ payload, line = exitMark ++ payload → ∃ code, codeOf? payload = some code) :
    ∃ d : Directive, d.line = number ∧ d.SaidBy line := by
  rcases hmarked with ⟨pattern, hline⟩ | ⟨payload, hline⟩
  · exact ⟨check pattern number, rfl, hline.symm⟩
  · obtain ⟨code, hcode⟩ := hwell payload hline.symm
    exact ⟨exit code number, rfl, payload, hline.symm, hcode⟩

/-! ### Many lines -/

theorem standsIn_nil (first : Nat) (d : Directive) : ¬ StandsIn first [] d := by
  simp [StandsIn]

theorem standsIn_cons_iff {first : Nat} :
    StandsIn first (line :: rest) d ↔
      d.line = first ∧ d.SaidBy line ∨ StandsIn (first + 1) rest d := by
  constructor
  · rintro ⟨n, own, hnumber, hown, hsaid⟩
    cases n with
    | zero =>
      obtain rfl : line = own := Option.some.inj hown
      exact .inl ⟨hnumber, hsaid⟩
    | succ n => exact .inr ⟨n, own, by omega, hown, hsaid⟩
  · rintro (⟨hnumber, hsaid⟩ | ⟨n, own, hnumber, hown, hsaid⟩)
    · exact ⟨0, line, hnumber, rfl, hsaid⟩
    · exact ⟨n + 1, own, by omega, hown, hsaid⟩

/-- The directives that are read off lines are those that stand in them. -/
theorem mem_ofLines_iff (h : ofLines number lines = .ok ds) : d ∈ ds ↔ StandsIn number lines d := by
  induction lines generalizing number ds with
  | nil =>
    obtain rfl := Except.ok.inj h
    simp [standsIn_nil]
  | cons line rest ih =>
    obtain ⟨first, others, hfirst, hothers, rfl⟩ := ofLines_cons_eq_ok_iff.mp h
    have hhead : d ∈ first.toList ↔ d.line = number ∧ d.SaidBy line := by
      rw [Option.mem_toList, ← ofLine_eq_some_iff, hfirst]
      simp
    rw [List.mem_append, hhead, ih hothers, standsIn_cons_iff]

/-- The directives that are read off lines stand one below the other. -/
theorem pairwise_above_of_ofLines (h : ofLines number lines = .ok ds) : ds.Pairwise Above := by
  induction lines generalizing number ds with
  | nil =>
    obtain rfl := Except.ok.inj h
    exact .nil
  | cons line rest ih =>
    obtain ⟨first, others, hfirst, hothers, rfl⟩ := ofLines_cons_eq_ok_iff.mp h
    refine List.pairwise_append.mpr ⟨?_, ih hothers, fun a ha b hb => ?_⟩
    · cases first <;> simp
    · -- The first line has the first number, and what stands below it a greater one.
      rw [Option.mem_toList] at ha
      subst ha
      obtain ⟨hline, -⟩ := ofLine_eq_some_iff.mp hfirst
      obtain ⟨n, -, hbelow, -⟩ := (mem_ofLines_iff hothers).mp hb
      rw [Above]
      omega

/-- Lines are read as given directives exactly if they are well formed and these are the directives
that stand in them, one below the other. -/
theorem ofLines_eq_ok_iff :
    ofLines number lines = .ok ds ↔
      WellFormed lines ∧ ds.Pairwise Above ∧ ∀ d, d ∈ ds ↔ StandsIn number lines d := by
  constructor
  · intro h
    exact ⟨exists_ofLines_iff.mp ⟨ds, h⟩, pairwise_above_of_ofLines h, fun _ => mem_ofLines_iff h⟩
  · rintro ⟨hwell, habove, hmem⟩
    -- Whatever is read has the same members in the same order.
    obtain ⟨read, hread⟩ : ∃ read, ofLines number lines = .ok read :=
      exists_ofLines_iff.mpr hwell
    have hsame : ds = read :=
      habove.eq_of_mem_iff (pairwise_above_of_ofLines hread) fun d => by
        rw [hmem, mem_ofLines_iff hread]
    rw [hread, hsame]

theorem malformedAt_cons_zero :
    MalformedAt (line :: rest) 0 ↔
      ∃ payload, line = exitMark ++ payload ∧ codeOf? payload = none := by
  simp [MalformedAt]

theorem malformedAt_cons_succ {n : Nat} :
    MalformedAt (line :: rest) (n + 1) ↔ MalformedAt rest n := by
  simp [MalformedAt]

theorem exists_ofLine_iff_not_malformedAt :
    (∃ first, ofLine number line = .ok first) ↔ ¬ MalformedAt (line :: rest) 0 := by
  rw [malformedAt_cons_zero, exists_ofLine_iff]
  constructor
  · rintro hwell ⟨payload, hline, hcode⟩
    obtain ⟨code, hsome⟩ := hwell payload hline
    simp [hcode] at hsome
  · intro hnot payload hline
    exact Option.ne_none_iff_exists'.mp fun hcode => hnot ⟨payload, hline, hcode⟩

/-- Lines are refused with the first malformed one, its number and its payload. -/
theorem ofLines_eq_error_iff :
    ofLines number lines = .error m ↔
      ∃ n, m.line = number + n ∧ lines[n]? = some (exitMark ++ m.payload) ∧
        IsLeast {k | MalformedAt lines k} n := by
  induction lines generalizing number with
  | nil => simp [ofLines]
  | cons line rest ih =>
    rw [ofLines, bind_eq_error_iff]
    -- Either the first line is malformed, or it is read and the lines below it are refused.
    simp only [bind_eq_error_iff, pure_eq_error_iff, and_false, exists_false, or_false, ih]
    constructor
    · rintro (hfirst | ⟨first, hfirst, n, hnumber, hpayload, hmalformed, hleast⟩)
      · obtain ⟨hnumber, hline, hcode⟩ := ofLine_eq_error_iff.mp hfirst
        refine ⟨0, hnumber, by simp [hline], malformedAt_cons_zero.mpr ⟨_, hline, hcode⟩, ?_⟩
        exact fun k _ => Nat.zero_le k
      · refine ⟨n + 1, by omega, hpayload, malformedAt_cons_succ.mpr hmalformed, fun k hk => ?_⟩
        cases k with
        | zero =>
          -- The first line is read, so it is not malformed.
          exact absurd hk (exists_ofLine_iff_not_malformedAt.mp ⟨first, hfirst⟩)
        | succ k => exact Nat.succ_le_succ (hleast (malformedAt_cons_succ.mp hk))
    · rintro ⟨n, hnumber, hpayload, hmalformed, hleast⟩
      cases n with
      | zero =>
        obtain rfl : line = exitMark ++ m.payload := Option.some.inj hpayload
        obtain ⟨payload, hline, hcode⟩ := malformedAt_cons_zero.mp hmalformed
        obtain rfl := List.append_cancel_left hline
        exact .inl (ofLine_eq_error_iff.mpr ⟨hnumber, rfl, hcode⟩)
      | succ n =>
        right
        -- Something below the first line is malformed, and nothing above that.
        have hwell : ¬ MalformedAt (line :: rest) 0 := fun h => Nat.not_succ_le_zero n (hleast h)
        obtain ⟨first, hfirst⟩ := exists_ofLine_iff_not_malformedAt.mpr hwell
        refine ⟨first, hfirst, n, by omega, hpayload, malformedAt_cons_succ.mp hmalformed, ?_⟩
        exact fun k hk => Nat.le_of_succ_le_succ (hleast (malformedAt_cons_succ.mpr hk))

/-- A line that begins with a mark has exactly one directive, and another line has none. -/
theorem existsUnique_of_marked {n : Nat} (h : ofLines number lines = .ok ds)
    (hline : lines[n]? = some line) :
    (Marked line → ∃! d, d ∈ ds ∧ d.line = number + n) ∧
      (¬ Marked line → ∀ d ∈ ds, d.line ≠ number + n) := by
  have hwell := exists_ofLines_iff.mp ⟨ds, h⟩
  constructor
  · intro hmarked
    obtain ⟨d, hd, hsaid⟩ := exists_saidBy_of_marked (number + n) hmarked
      fun payload hexit => hwell payload (hexit ▸ List.mem_of_getElem? hline)
    refine ⟨d, ⟨(mem_ofLines_iff h).mpr ⟨n, line, hd, hline, hsaid⟩, hd⟩, ?_⟩
    -- Another directive with this number is said by the same line, which says one at most.
    rintro other ⟨hother, hsame⟩
    obtain ⟨k, own, hk, hown, hsaid'⟩ := (mem_ofLines_iff h).mp hother
    obtain rfl : k = n := by omega
    obtain rfl : line = own := Option.some.inj (hline.symm.trans hown)
    exact hsaid'.unique hsaid (hsame.trans hd.symm)
  · intro hmarked d hd hnumber
    obtain ⟨k, own, hk, hown, hsaid⟩ := (mem_ofLines_iff h).mp hd
    obtain rfl : k = n := by omega
    obtain rfl : line = own := Option.some.inj (hline.symm.trans hown)
    exact hmarked hsaid.marked

end Directive

/-! ### A test case -/

/-- A test case is what its content is: its lines, and the directives that stand in them. -/
theorem TestCase.load_of_hasFile {w : World} {path : Path} {place : Location} {bytes : Bytes}
    {content : Text} (hfile : w.HasFile path place bytes)
    (htext : Utf8.decode? bytes = some content) :
    TestCase.load w path =
      match Directive.parse content with
      | .ok directives => .ok ⟨path, content.lines, directives⟩
      | .error m => .error (.malformedDirective m.line m.payload) := by
  have hrequire : w.require path = .ok () := World.require_eq_ok_iff.mpr ⟨place, bytes, hfile⟩
  have hread : w.readText path = .ok content :=
    World.readText_eq_ok_iff.mpr ⟨place, bytes, hfile, htext⟩
  have hload : TestCase.load w path = ofContent path content := by
    rw [load, hrequire, hread]
    rfl
  rw [hload, ofContent]
  cases Directive.parse content <;> rfl

namespace Directive

/-- **Directives are what the marked lines say.** A content is read if every exit line has a number,
and then its directives are those that stand in its lines, one below the other: one for each line
that begins with a mark, and none for any other line. Otherwise the first malformed line is blamed,
with its number and its untrimmed payload. A test case with that content has the same directives
and the lines of the content, so that each directive is found again in the line of its number. -/
theorem parse_reads_marked_lines (content : Text) :
    ((∃ ds, parse content = .ok ds) ↔ WellFormed content.lines) ∧
      (∀ ds, parse content = .ok ds ↔
        WellFormed content.lines ∧ ds.Pairwise Above ∧ ∀ d, d ∈ ds ↔ StandsIn 1 content.lines d) ∧
      (∀ ds, parse content = .ok ds → ∀ n line, content.lines[n]? = some line →
        (Marked line → ∃! d, d ∈ ds ∧ d.line = 1 + n) ∧
          (¬ Marked line → ∀ d ∈ ds, d.line ≠ 1 + n)) ∧
      (∀ m, parse content = .error m ↔
        ∃ n, m.line = 1 + n ∧ content.lines[n]? = some (exitMark ++ m.payload) ∧
          IsLeast {k | MalformedAt content.lines k} n) ∧
      ∀ (w : World) (path : Path) (place : Location) (bytes : Bytes),
        w.HasFile path place bytes → Utf8.decode? bytes = some content →
          (TestCase.load w path =
            match parse content with
            | .ok directives => .ok ⟨path, content.lines, directives⟩
            | .error m => .error (.malformedDirective m.line m.payload)) ∧
          ∀ case, TestCase.load w path = .ok case →
            ∀ d ∈ case.directives, ∃ line, case.lines[d.line - 1]? = some line ∧ d.SaidBy line := by
  refine ⟨exists_parse_iff, fun ds => ofLines_eq_ok_iff, fun ds h n line hline => ?_,
    fun m => ofLines_eq_error_iff, fun w path place bytes hfile htext => ⟨?_, ?_⟩⟩
  · exact existsUnique_of_marked h hline
  · exact TestCase.load_of_hasFile hfile htext
  · intro case hcase d hd
    obtain ⟨_, _, text, directives, -, -, hparse, rfl⟩ := TestCase.load_eq_ok_iff.mp hcase
    obtain ⟨n, line, hnumber, hline, hsaid⟩ := (mem_ofLines_iff hparse).mp hd
    have hposition : d.line - 1 = n := by omega
    exact ⟨line, by rw [hposition]; exact hline, hsaid⟩

/-- A test case with lines that nearly begin with a mark, a pattern that looks like an exit line,
and a code with blanks around it. -/
def nearMisses : Text :=
  "# CHECK:x\n# CHECK: # EXIT 3\r\n # EXIT 1\n# EXIT  7 \n# EXIT".toList

/-- A directory with that test case as `c`. -/
def nearMissesWorld : World where
  tree := ⟨[([['c']], .file (Utf8.encode nearMisses) .plain)]⟩
  directory := []
  environ := []
  programs := .unknown

/-- Two of its five lines have a directive. -/
theorem parse_reads_near_misses :
    parse nearMisses = .ok [.check "# EXIT 3".toList 2, .exit 7 4] ∧
      (∃! d, d ∈ [check "# EXIT 3".toList 2, exit 7 4] ∧ d.line = 1 + 3) ∧
      nearMissesWorld.HasFile ['c'] [['c']] (Utf8.encode nearMisses) ∧
      Utf8.decode? (Utf8.encode nearMisses) = some nearMisses ∧
      TestCase.load nearMissesWorld ['c'] =
        .ok ⟨['c'], nearMisses.lines, [.check "# EXIT 3".toList 2, .exit 7 4]⟩ := by
  have hparse : parse nearMisses = .ok [.check "# EXIT 3".toList 2, .exit 7 4] := rfl
  have hfile : nearMissesWorld.HasFile ['c'] [['c']] (Utf8.encode nearMisses) := ⟨rfl, .plain, rfl⟩
  have htext : Utf8.decode? (Utf8.encode nearMisses) = some nearMisses := by decide +kernel
  have hmarked : Marked "# EXIT  7 ".toList := .inr ⟨" 7 ".toList, rfl⟩
  obtain ⟨-, -, hlines, -, hload⟩ := parse_reads_marked_lines nearMisses
  exact ⟨hparse, (hlines _ hparse 3 _ rfl).1 hmarked, hfile, htext,
    (hload nearMissesWorld ['c'] [['c']] _ hfile htext).1⟩

end Directive

end Golden
