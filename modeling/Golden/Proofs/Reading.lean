import Golden.Proofs.Matching
import Golden.Proofs.Stage

/-!
# Reading test cases

What a test case asks for can be read off its lines without parsing: patterns behind one mark,
payloads behind the other. Here this is set against the directives that are parsed from the lines.
Every line that begins with a mark gives one directive, with the number of the line, and no other
line gives any; only an exit line whose payload is no number is refused.

## Main definitions

* `Directive.codeOf?` — the number that the payload of an exit line writes
* `Directive.patternsIn`, `Directive.payloadsIn` — what lines hold behind the two marks
* `Directive.WellFormed` — the payload of every exit line is a number
* `Directive.codeIn` — the code of the last exit line, zero if there is none

## Main results

* `Directive.ofLine_cases` — everything that a line can say
* `Directive.exists_ofLines_iff` — lines are read exactly if they are well formed
* `Directive.patterns_of_ofLines`, `Directive.lastCode_of_ofLines` — the directives ask for what the
  lines ask for
* `Directive.ofLines_split` — a directive is read off one line, and those before it off the lines
  above
-/

namespace Golden.Directive

open Stage

variable {number : Nat} {line : Text} {lines : List Text} {ds : List Directive}

/-- The number that the payload of an exit line writes, blanks around it aside. -/
def codeOf? (payload : Text) : Option Int :=
  Numeral.int32? (Text.trimmed payload)

/-- What lines hold behind the mark of a pattern. -/
def patternsIn (lines : List Text) : List Text :=
  lines.filterMap (after? checkMark)

/-- What lines hold behind the mark of an exit code. -/
def payloadsIn (lines : List Text) : List Text :=
  lines.filterMap (after? exitMark)

/-- The payload of every exit line is a number. -/
def WellFormed (lines : List Text) : Prop :=
  ∀ payload, exitMark ++ payload ∈ lines → ∃ code, codeOf? payload = some code

/-- The code of the last exit line, zero if there is none. -/
def codeIn (lines : List Text) : Int :=
  ((payloadsIn lines).getLast?.bind codeOf?).getD 0

/-! ### One line -/

@[simp] theorem after?_append (mark rest : Text) : after? mark (mark ++ rest) = some rest :=
  after?_eq_some_iff.mpr rfl

@[simp] theorem after?_checkMark_exitMark (payload : Text) :
    after? checkMark (exitMark ++ payload) = none := rfl

@[simp] theorem after?_exitMark_checkMark (pattern : Text) :
    after? exitMark (checkMark ++ pattern) = none := rfl

theorem ofLine_exitMark (number : Nat) (payload : Text) :
    ofLine number (exitMark ++ payload) =
      match codeOf? payload with
      | some code => .ok (some (exit code number))
      | none => .error ⟨number, payload⟩ := by
  cases hcode : Numeral.int32? (Text.trimmed payload) with
  | some code => simp [ofLine, codeOf?, hcode]
  | none => simp [ofLine, codeOf?, hcode]

/-- Everything that a line can say: it holds a pattern, or a code, or a payload that is none, or it
begins with neither mark and says nothing. -/
theorem ofLine_cases (number : Nat) (line : Text) :
    (∃ pattern, line = checkMark ++ pattern ∧
      ofLine number line = .ok (some (check pattern number))) ∨
    (∃ payload code, line = exitMark ++ payload ∧ codeOf? payload = some code ∧
      ofLine number line = .ok (some (exit code number))) ∨
    (∃ payload, line = exitMark ++ payload ∧ codeOf? payload = none ∧
      ofLine number line = .error ⟨number, payload⟩) ∨
    (after? checkMark line = none ∧ after? exitMark line = none ∧
      ofLine number line = .ok none) := by
  cases hcheck : after? checkMark line with
  | some pattern => exact .inl ⟨pattern, after?_eq_some_iff.mp hcheck, by simp [ofLine, hcheck]⟩
  | none =>
    cases hexit : after? exitMark line with
    | none => exact .inr (.inr (.inr ⟨rfl, rfl, by simp [ofLine, hcheck, hexit]⟩))
    | some payload =>
      have hline := after?_eq_some_iff.mp hexit
      cases hcode : Numeral.int32? (Text.trimmed payload) with
      | some code =>
        exact .inr (.inl ⟨payload, code, hline, hcode, by simp [ofLine, hcheck, hexit, hcode]⟩)
      | none =>
        exact .inr (.inr (.inl ⟨payload, hline, hcode, by simp [ofLine, hcheck, hexit, hcode]⟩))

/-- A line is read unless it is an exit line whose payload is no number. -/
theorem exists_ofLine_iff :
    (∃ first, ofLine number line = .ok first) ↔
      ∀ payload, line = exitMark ++ payload → ∃ code, codeOf? payload = some code := by
  constructor
  · rintro ⟨first, hfirst⟩ payload rfl
    -- A payload that is no number is a fault.
    rw [ofLine_exitMark] at hfirst
    cases hcode : codeOf? payload with
    | some code => exact ⟨code, rfl⟩
    | none => simp [hcode] at hfirst
  · intro hline
    rcases ofLine_cases number line with ⟨_, -, heq⟩ | ⟨_, _, -, -, heq⟩ |
      ⟨payload, rfl, hcode, -⟩ | ⟨-, -, heq⟩
    · exact ⟨_, heq⟩
    · exact ⟨_, heq⟩
    · simp [hcode] at hline
    · exact ⟨_, heq⟩

/-- A check is read off a line that is the mark and the pattern. -/
theorem eq_of_ofLine_eq_check {pattern : Text} {n : Nat}
    (h : ofLine number line = .ok (some (check pattern n))) :
    line = checkMark ++ pattern ∧ n = number := by
  rcases ofLine_cases number line with ⟨p, hline, heq⟩ | ⟨p, code, hline, -, heq⟩ |
    ⟨p, hline, -, heq⟩ | ⟨-, -, heq⟩ <;> rw [h] at heq
  · simp only [Except.ok.injEq, Option.some.injEq, check.injEq] at heq
    obtain ⟨rfl, rfl⟩ := heq
    exact ⟨hline, rfl⟩
  all_goals simp at heq

/-- The pattern of what is read off a line is what the line holds behind the mark of a pattern. -/
theorem pattern?_of_ofLine {first : Option Directive} (h : ofLine number line = .ok first) :
    first.bind pattern? = after? checkMark line := by
  rcases ofLine_cases number line with ⟨pattern, rfl, heq⟩ | ⟨payload, code, rfl, -, heq⟩ |
    ⟨payload, -, -, heq⟩ | ⟨hcheck, -, heq⟩ <;> rw [h] at heq <;> cases heq
  · rw [after?_append]
    rfl
  · rw [after?_checkMark_exitMark]
    rfl
  · rw [hcheck]
    rfl

/-- The code of what is read off a line is what the payload of the line writes. -/
theorem code?_of_ofLine {first : Option Directive} (h : ofLine number line = .ok first) :
    first.bind code? = (after? exitMark line).bind codeOf? := by
  rcases ofLine_cases number line with ⟨pattern, rfl, heq⟩ | ⟨payload, code, rfl, hcode, heq⟩ |
    ⟨payload, -, -, heq⟩ | ⟨-, hexit, heq⟩ <;> rw [h] at heq <;> cases heq
  · rw [after?_exitMark_checkMark]
    rfl
  · rw [after?_append]
    exact hcode.symm
  · rw [hexit]
    rfl

/-! ### Many lines -/

theorem ofLines_cons_eq_ok_iff {rest : List Text} :
    ofLines number (line :: rest) = .ok ds ↔
      ∃ first others, ofLine number line = .ok first ∧ ofLines (number + 1) rest = .ok others ∧
        ds = first.toList ++ others := by
  rw [ofLines, bind_eq_ok_iff]
  simp only [bind_eq_ok_iff, pure_eq_ok_iff, eq_comm (b := ds)]
  constructor
  · rintro ⟨first, hfirst, others, hothers, rfl⟩
    exact ⟨first, others, hfirst, hothers, rfl⟩
  · rintro ⟨first, others, hfirst, hothers, rfl⟩
    exact ⟨first, hfirst, others, hothers, rfl⟩

theorem patternsIn_cons (line : Text) (lines : List Text) :
    patternsIn (line :: lines) = (after? checkMark line).toList ++ patternsIn lines := by
  cases h : after? checkMark line <;> simp [patternsIn, h]

/-- If what is asked of a directive can be read off its line, then what is asked of the directives
can be read off the lines. -/
theorem filterMap_of_ofLines {β : Type} {ofDirective : Directive → Option β}
    {ofText : Text → Option β}
    (hline : ∀ {number line first}, ofLine number line = .ok first →
      first.bind ofDirective = ofText line)
    (h : ofLines number lines = .ok ds) : ds.filterMap ofDirective = lines.filterMap ofText := by
  induction lines generalizing number ds with
  | nil =>
    obtain rfl := Except.ok.inj h
    rfl
  | cons line rest ih =>
    obtain ⟨first, others, hfirst, hothers, rfl⟩ := ofLines_cons_eq_ok_iff.mp h
    have hhead := hline hfirst
    rw [List.filterMap_append, ih hothers, List.filterMap_cons, ← hhead]
    cases first with
    | none => rfl
    | some d => cases hd : ofDirective d <;> simp [hd]

theorem patterns_of_ofLines (h : ofLines number lines = .ok ds) :
    patterns ds = patternsIn lines :=
  filterMap_of_ofLines pattern?_of_ofLine h

theorem codes_of_ofLines (h : ofLines number lines = .ok ds) :
    codes ds = (payloadsIn lines).filterMap codeOf? := by
  rw [payloadsIn, List.filterMap_filterMap]
  exact filterMap_of_ofLines code?_of_ofLine h

theorem mem_payloadsIn_iff {payload : Text} :
    payload ∈ payloadsIn lines ↔ exitMark ++ payload ∈ lines := by
  simp [payloadsIn, List.mem_filterMap, after?_eq_some_iff]

theorem wellFormed_cons_iff {rest : List Text} :
    WellFormed (line :: rest) ↔
      (∀ payload, line = exitMark ++ payload → ∃ code, codeOf? payload = some code) ∧
        WellFormed rest := by
  simp only [WellFormed, List.mem_cons, or_imp, forall_and, eq_comm (a := line)]

/-- Lines are read exactly if they are well formed. -/
theorem exists_ofLines_iff : (∃ ds, ofLines number lines = .ok ds) ↔ WellFormed lines := by
  induction lines generalizing number with
  | nil => simp [ofLines, WellFormed]
  | cons line rest ih =>
    rw [wellFormed_cons_iff, ← exists_ofLine_iff, ← ih]
    simp only [ofLines_cons_eq_ok_iff]
    constructor
    · rintro ⟨ds, first, others, hfirst, hothers, -⟩
      exact ⟨⟨first, hfirst⟩, others, hothers⟩
    · rintro ⟨⟨first, hfirst⟩, others, hothers⟩
      exact ⟨_, first, others, hfirst, hothers, rfl⟩

/-- If every payload is a number, the last code that is read is that of the last payload. -/
theorem getLast?_filterMap_codeOf? (h : WellFormed lines) :
    ((payloadsIn lines).filterMap codeOf?).getLast? = (payloadsIn lines).getLast?.bind codeOf? := by
  rcases List.eq_nil_or_concat (payloadsIn lines) with hnil | ⟨above, payload, hlast⟩
  · simp [hnil]
  · -- The last payload is a number, so the reading does not pass it over.
    have hmem : payload ∈ payloadsIn lines := by simp [hlast]
    obtain ⟨code, hcode⟩ := h payload (mem_payloadsIn_iff.mp hmem)
    simp [hlast, hcode]

/-- The directives that are read off lines ask for the code that the lines ask for. -/
theorem lastCode_of_ofLines (h : ofLines number lines = .ok ds) : lastCode ds = codeIn lines := by
  rw [lastCode, codes_of_ofLines h, getLast?_filterMap_codeOf? (exists_ofLines_iff.mp ⟨ds, h⟩),
    codeIn]

/-- A directive is read off one line, and those before it are read off the lines above. -/
theorem ofLines_split {before after : List Directive} {d : Directive}
    (h : ofLines number lines = .ok (before ++ d :: after)) :
    ∃ above line below, lines = above ++ line :: below ∧ ofLines number above = .ok before ∧
      ofLine (number + above.length) line = .ok (some d) := by
  induction lines generalizing number before with
  | nil =>
    have hds := Except.ok.inj h
    simp at hds
  | cons line rest ih =>
    obtain ⟨first, others, hfirst, hothers, hds⟩ := ofLines_cons_eq_ok_iff.mp h
    cases first with
    | none =>
      -- The first line says nothing: the directive is read off a line below it.
      obtain rfl : before ++ d :: after = others := hds
      obtain ⟨above, line', below, rfl, habove, hline'⟩ := ih hothers
      refine ⟨line :: above, line', below, rfl, ?_, ?_⟩
      · exact ofLines_cons_eq_ok_iff.mpr ⟨none, before, hfirst, habove, rfl⟩
      · rwa [List.length_cons, Nat.add_comm above.length, ← Nat.add_assoc]
    | some f =>
      -- The first line says the first directive: the one looked for, or one of those before it.
      cases before with
      | nil =>
        obtain ⟨rfl, -⟩ := List.cons.inj hds
        exact ⟨[], line, rest, rfl, rfl, hfirst⟩
      | cons b before =>
        obtain ⟨rfl, hothers'⟩ := List.cons.inj hds
        obtain rfl : before ++ d :: after = others := hothers'
        obtain ⟨above, line', below, rfl, habove, hline'⟩ := ih hothers
        refine ⟨line :: above, line', below, rfl, ?_, ?_⟩
        · exact ofLines_cons_eq_ok_iff.mpr ⟨some b, before, hfirst, habove, rfl⟩
        · rwa [List.length_cons, Nat.add_comm above.length, ← Nat.add_assoc]

/-! ### A content -/

variable {content : Text}

theorem exists_parse_iff : (∃ ds, parse content = .ok ds) ↔ WellFormed content.lines :=
  exists_ofLines_iff

theorem patterns_of_parse (h : parse content = .ok ds) : patterns ds = patternsIn content.lines :=
  patterns_of_ofLines h

theorem lastCode_of_parse (h : parse content = .ok ds) : lastCode ds = codeIn content.lines :=
  lastCode_of_ofLines h

end Golden.Directive
