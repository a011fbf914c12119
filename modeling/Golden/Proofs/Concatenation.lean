import Golden.Proofs.Lines
import Golden.Proofs.Reading

/-!
# Contents put together

Where a content is ended and another one follows, the directives of the whole are those of the two
parts, the second ones moved down by the number of lines above them. The reading of the second part
does not depend on the first, but the remarks do: the last exit directive above the seam is
remembered, and the first one below it is told about it.

The remarks are followed from any exit line that is remembered, and the reading from any number of
the first line, since this is how both meet the seam.

## Main definitions

* `Directive.moved`, `Malformed.moved`, `Directive.Warning.moved` — something some lines further
  down
* `Directive.exitLines` — the lines of the exit directives
* `Directive.joint` — the remark about an exit line below a remembered one

## Main results

* `Directive.ofLines_append`, `Directive.ofLines_add` — reading goes on below, and moves with its
  first line
* `Directive.warningsAfter_append`, `Directive.warningsAfter_map_moved` — and so do the remarks
* `Directive.warningsAfter_eq_joint` — all that a remembered exit line adds is one remark
* `Directive.parse_append_ended` — the directives and the remarks of contents put together
-/

namespace Golden

/-- A malformed exit directive some lines further down. -/
def Malformed.moved (n : Nat) (m : Malformed) : Malformed :=
  ⟨m.line + n, m.payload⟩

namespace Directive

variable {number n : Nat} {line : Text} {lines above below : List Text}
  {ds more : List Directive} {previous : Option Nat}

/-- A directive some lines further down. -/
def moved (n : Nat) : Directive → Directive
  | check pattern line => check pattern (line + n)
  | exit code line => exit code (line + n)

/-- A remark about directives some lines further down. -/
def Warning.moved (n : Nat) (w : Warning) : Warning :=
  ⟨w.line + n, w.previous + n⟩

/-- The line of an exit directive. -/
def exitLine? : Directive → Option Nat
  | check _ _ => none
  | exit _ line => some line

/-- The lines of the exit directives among directives, in order. -/
def exitLines (ds : List Directive) : List Nat :=
  ds.filterMap exitLine?

/-- The remark about an exit line below a remembered one, if there are both. -/
def joint (previous line : Option Nat) : List Warning :=
  match previous, line with
  | some p, some l => [⟨l, p⟩]
  | _, _ => []

@[simp] theorem exitLines_cons_check (pattern : Text) (line : Nat) (rest : List Directive) :
    exitLines (check pattern line :: rest) = exitLines rest := rfl

@[simp] theorem exitLines_cons_exit (code : Int) (line : Nat) (rest : List Directive) :
    exitLines (exit code line :: rest) = line :: exitLines rest := rfl

@[simp] theorem joint_none_right (previous : Option Nat) : joint previous none = [] := by
  cases previous <;> rfl

/-! ### Reading -/

/-- Lines are read one after the other; those below are numbered from where those above end. -/
theorem ofLines_append (number : Nat) (above below : List Text) :
    ofLines number (above ++ below) =
      match ofLines number above with
      | .error m => .error m
      | .ok ds =>
        match ofLines (number + above.length) below with
        | .error m => .error m
        | .ok more => .ok (ds ++ more) := by
  -- Induction on the lines above, for any number of the first: it grows with each that is read.
  induction above generalizing number with
  | nil =>
    rw [List.nil_append, ofLines, List.length_nil, Nat.add_zero]
    cases ofLines number below <;> rfl
  | cons line rest ih =>
    have hnumber : number + (line :: rest).length = number + 1 + rest.length := by
      rw [List.length_cons]
      omega
    rw [List.cons_append, ofLines, ofLines, hnumber, ih]
    cases ofLine number line with
    | error m => rfl
    | ok first =>
      cases ofLines (number + 1) rest with
      | error m => rfl
      | ok others =>
        cases hbelow : ofLines (number + 1 + rest.length) below with
        | error m => rfl
        | ok more => exact congrArg Except.ok (List.append_assoc first.toList others more).symm

theorem ofLine_add (number n : Nat) (line : Text) :
    ofLine (number + n) line =
      match ofLine number line with
      | .error m => .error (m.moved n)
      | .ok first => .ok (first.map (moved n)) := by
  -- What a line says does not depend on its number.
  rcases ofLine_cases number line with ⟨pattern, rfl, heq⟩ | ⟨payload, code, rfl, hcode, heq⟩ |
    ⟨payload, rfl, hcode, heq⟩ | ⟨hcheck, hexit, heq⟩ <;> rw [heq]
  · simp [ofLine, moved]
  · rw [ofLine_exitMark, hcode]
    rfl
  · rw [ofLine_exitMark, hcode]
    rfl
  · simp [ofLine, hcheck, hexit]

/-- Whatever is read of lines moves down with the first of them. -/
theorem ofLines_add (number n : Nat) (lines : List Text) :
    ofLines (number + n) lines =
      match ofLines number lines with
      | .error m => .error (m.moved n)
      | .ok ds => .ok (ds.map (moved n)) := by
  induction lines generalizing number with
  | nil => rfl
  | cons line rest ih =>
    have hnext : number + n + 1 = number + 1 + n := by omega
    rw [ofLines, ofLines, ofLine_add, hnext, ih]
    cases ofLine number line with
    | error m => rfl
    | ok first =>
      cases ofLines (number + 1) rest with
      | error m => rfl
      | ok others =>
        have hmoved : (first.map (moved n)).toList ++ others.map (moved n) =
            (first.toList ++ others).map (moved n) := by
          cases first <;> rfl
        exact congrArg Except.ok hmoved

/-! ### Remarks -/

/-- The remarks about more directives go on from the last exit line above them. -/
theorem warningsAfter_append (previous : Option Nat) (ds more : List Directive) :
    warningsAfter previous (ds ++ more) =
      warningsAfter previous ds ++ warningsAfter ((exitLines ds).getLast?.or previous) more := by
  induction ds generalizing previous with
  | nil => rfl
  | cons d rest ih =>
    cases d with
    | check pattern line => exact ih previous
    | exit code line =>
      -- From here on the line of this directive is remembered, or one below it.
      have hlast : (line :: exitLines rest).getLast?.or previous =
          (exitLines rest).getLast?.or (some line) := by
        rw [List.getLast?_cons]
        cases (exitLines rest).getLast? <;> rfl
      rw [List.cons_append, warningsAfter, ih, warningsAfter, exitLines_cons_exit, hlast,
        List.append_assoc]

/-- The remarks move down with the directives and with the exit line that is remembered. -/
theorem warningsAfter_map_moved (n : Nat) (previous : Option Nat) (ds : List Directive) :
    warningsAfter (previous.map (· + n)) (ds.map (moved n)) =
      (warningsAfter previous ds).map (Warning.moved n) := by
  induction ds generalizing previous with
  | nil => rfl
  | cons d rest ih =>
    cases d with
    | check pattern line => exact ih previous
    | exit code line =>
      -- The line that is remembered from here on has moved with the directive.
      have hrest := ih (some line)
      rw [List.map_cons, moved, warningsAfter, warningsAfter, List.map_append, ← hrest]
      cases previous <;> rfl

/-- All that a remembered exit line adds is a remark about the first exit line below it. -/
theorem warningsAfter_eq_joint (previous : Option Nat) (ds : List Directive) :
    warningsAfter previous ds = joint previous (exitLines ds).head? ++ warnings ds := by
  induction ds with
  | nil =>
    rw [show exitLines [] = [] from rfl, List.head?_nil, joint_none_right]
    rfl
  | cons d rest ih =>
    cases d with
    | check pattern line => exact ih
    | exit code line =>
      -- What was remembered is told to this directive and then forgotten.
      rw [exitLines_cons_exit, List.head?_cons, warnings, warningsAfter, warningsAfter]
      cases previous <;> rfl

theorem exitLines_map_moved (n : Nat) (ds : List Directive) :
    exitLines (ds.map (moved n)) = (exitLines ds).map (· + n) := by
  have hline : ∀ d : Directive, exitLine? (d.moved n) = (exitLine? d).map (· + n) := by
    intro d
    cases d <;> rfl
  rw [exitLines, exitLines, List.filterMap_map, List.map_filterMap]
  exact congrArg (ds.filterMap ·) (funext hline)

/-- The remarks about directives and about more of them further down: those about the first, the
remark at the seam, and those about the others. -/
theorem warnings_append_map_moved (n : Nat) (ds more : List Directive) :
    warnings (ds ++ more.map (moved n)) =
      warnings ds ++ joint (exitLines ds).getLast? ((exitLines more).head?.map (· + n)) ++
        (warnings more).map (Warning.moved n) := by
  have hmoved : warnings (more.map (moved n)) = (warnings more).map (Warning.moved n) :=
    warningsAfter_map_moved n none more
  calc warnings (ds ++ more.map (moved n))
      = warnings ds ++ warningsAfter (exitLines ds).getLast? (more.map (moved n)) := by
        rw [warnings, warningsAfter_append, Option.or_none, ← warnings]
    _ = warnings ds ++ (joint (exitLines ds).getLast? (exitLines (more.map (moved n))).head? ++
          warnings (more.map (moved n))) := by
        rw [warningsAfter_eq_joint]
    _ = _ := by
        rw [exitLines_map_moved, List.head?_map, hmoved, List.append_assoc]

/-! ### Contents -/

/-- Reading contents put together is reading the first, and then the second further down. -/
theorem parse_append {content : Text} (h : content = [] ∨ content.getLast? = some '\n')
    (behind : Text) :
    parse (content ++ behind) =
      match parse content with
      | .error m => .error m
      | .ok ds =>
        match parse behind with
        | .error m => .error (m.moved content.lines.length)
        | .ok more => .ok (ds ++ more.map (moved content.lines.length)) := by
  -- The first content is ended, so that no line reaches across the seam.
  have hlines : (content ++ behind).lines = content.lines ++ behind.lines :=
    Lines.split_append h behind
  rw [parse, hlines, ofLines_append, ofLines_add, parse, parse]
  cases ofLines 1 content.lines with
  | error m => rfl
  | ok ds => cases ofLines 1 behind.lines <;> rfl

/-- **Reading respects putting together.** A content that is ended and one behind it are refused as
the first is, or else as the second is, further down by the lines of the first. Otherwise the whole
has the directives of the first and those of the second further down, and the remarks about it are
those about the first, then one that joins the last exit line of the first and the first one of the
second if there are both, then those about the second, further down. -/
theorem parse_append_ended (content behind : Text)
    (h : content = [] ∨ content.getLast? = some '\n') :
    (∀ m, parse content = .error m → parse (content ++ behind) = .error m) ∧
      (∀ ds m, parse content = .ok ds → parse behind = .error m →
        parse (content ++ behind) = .error (m.moved content.lines.length)) ∧
      ∀ ds more, parse content = .ok ds → parse behind = .ok more →
        parse (content ++ behind) = .ok (ds ++ more.map (moved content.lines.length)) ∧
          warnings (ds ++ more.map (moved content.lines.length)) =
            warnings ds ++
              joint (exitLines ds).getLast?
                ((exitLines more).head?.map (· + content.lines.length)) ++
              (warnings more).map (Warning.moved content.lines.length) := by
  refine ⟨?_, ?_, ?_⟩
  · intro m hm
    rw [parse_append h, hm]
  · intro ds m hds hm
    rw [parse_append h, hds, hm]
  · intro ds more hds hmore
    refine ⟨?_, warnings_append_map_moved content.lines.length ds more⟩
    rw [parse_append h, hds, hmore]

/-- Two exit lines above the seam and two below it make three remarks, one of them at the seam. A
malformed exit line below the seam is blamed with its own number in the whole, and one above the seam
is blamed first. -/
theorem parse_append_ended_exits :
    "# EXIT 1\nx\n# EXIT 2\r\n".toList.getLast? = some '\n' ∧
      parse "# EXIT 1\nx\n# EXIT 2\r\n".toList = .ok [.exit 1 1, .exit 2 3] ∧
      parse "# CHECK: y\n# EXIT 3\n# EXIT 4".toList = .ok [.check ['y'] 1, .exit 3 2, .exit 4 3] ∧
      parse ("# EXIT 1\nx\n# EXIT 2\r\n".toList ++ "# CHECK: y\n# EXIT 3\n# EXIT 4".toList) =
        .ok [.exit 1 1, .exit 2 3, .check ['y'] 4, .exit 3 5, .exit 4 6] ∧
      warnings [.exit 1 1, .exit 2 3, .check ['y'] 4, .exit 3 5, .exit 4 6] =
        [⟨3, 1⟩, ⟨5, 3⟩, ⟨6, 5⟩] ∧
      parse ("# EXIT 1\nx\n# EXIT 2\r\n".toList ++ "z\n# EXIT a".toList) = .error ⟨5, ['a']⟩ ∧
      parse ("# EXIT b\n".toList ++ "z\n# EXIT a".toList) = .error ⟨1, ['b']⟩ := by
  have hended : "# EXIT 1\nx\n# EXIT 2\r\n".toList.getLast? = some '\n' := by decide
  have habove : parse "# EXIT 1\nx\n# EXIT 2\r\n".toList = .ok [.exit 1 1, .exit 2 3] := rfl
  have hbelow : parse "# CHECK: y\n# EXIT 3\n# EXIT 4".toList =
      .ok [.check ['y'] 1, .exit 3 2, .exit 4 3] := rfl
  have hrefused : parse "z\n# EXIT a".toList = .error ⟨2, ['a']⟩ := rfl
  have hended' : "# EXIT b\n".toList.getLast? = some '\n' := by decide
  have hrefused' : parse "# EXIT b\n".toList = .error ⟨1, ['b']⟩ := rfl
  obtain ⟨-, hbehind, -⟩ := parse_append_ended _ "z\n# EXIT a".toList (.inr hended)
  obtain ⟨hparse, hwarnings⟩ :=
    (parse_append_ended _ _ (.inr hended)).2.2 _ _ habove hbelow
  obtain ⟨hfirst, -, -⟩ := parse_append_ended _ "z\n# EXIT a".toList (.inr hended')
  exact ⟨hended, habove, hbelow, hparse, hwarnings, hbehind _ _ habove hrefused,
    hfirst _ hrefused'⟩

end Directive

end Golden
