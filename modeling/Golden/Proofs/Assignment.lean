import Golden.Proofs.Layout
import Golden.Proofs.Naming
import Golden.Settings.Toml

/-!
# Assignments on lines

How TOML reads lines of names and values, and a table of them in double quotes below its header, and
what configuration that is. A line is read as one statement, whatever lines follow it, so that the
statements of a text are those of its lines. In front of the header stand the fields, and behind it
the variables; as no line in front of it has a dotted key, the header is the only thing that gives
variables.

The word for a number is the number as long as a signed word of sixty-four bits can hold it; a text
in double quotes means itself, whatever its characters mean elsewhere.

## Main definitions

* `Toml.meaning` — what a word for a value means
* `Toml.assignments`, `Toml.table` — the statements of lines and of the variables below them

## Main results

* `Toml.line?_word`, `Toml.line?_enclosed` — a line is a statement
* `Toml.statements?_toToml` — the statements of lines and variables
* `Settings.ofToml?_toToml` — the words for the fields and the variables mean the configuration
* `Settings.ofToml?_eq_none` — a name that no field has is refused
-/

namespace Golden

open Text

variable {c d : Char} {text word name rest behind : Text} {n : Nat}

namespace Toml

/-! ### Characters -/

theorem isBare_of_isNameChar (h : isNameChar c) : isBare c := by
  rw [isNameChar] at h
  rw [isBare, h, Bool.true_or]

theorem isShown_of_isLegible (h : isLegible c) : isShown c := by
  simp only [isLegible, Bool.and_eq_true, decide_eq_true_eq] at h
  have hleast : 0x20 ≤ c.toNat := h.1.1.1
  have hgreatest : c.toNat ≤ 0x7e := h.1.1.2
  have hne : c.toNat ≠ 0x7f := by omega
  simp [isShown, hleast, hne]

theorem skipGaps_of_ne (h : isGap c = false) (rest : Text) : skipGaps (c :: rest) = c :: rest := by
  simp [skipGaps, h]

theorem skipGaps_blank (rest : Text) : skipGaps (' ' :: rest) = skipGaps rest :=
  rfl

theorem isGap_of_isNameChar (h : isNameChar c) : isGap c = false := by
  have hne (d : Char) (hd : isNameChar d = false) : (c == d) = false :=
    beq_false_of_ne (ne_of_isNameChar h hd)
  rw [isGap, hne _ (by decide), hne _ (by decide)]
  rfl

/-- A legible text is read up to the quote behind it. -/
theorem Quoted.basic?_legible (h : text.IsLegible) (rest : Text) :
    basic? (text ++ '\x22' :: rest) = some (text, rest) := by
  induction text with
  | nil => rfl
  | cons c text ih =>
    obtain ⟨hc, htext⟩ := List.forall_mem_cons.mp h
    have hslash : c ≠ '\\' := ne_of_isLegible hc (by decide)
    have hquote : c ≠ double := ne_of_isLegible hc (by decide)
    rw [List.cons_append, basic?]
    · simp [hquote, isShown_of_isLegible hc, ih htext, push]
    -- The other cases begin with a quote or a backslash.
    all_goals
      intros
      simp_all

theorem Quoted.string?_enclosed (h : text.IsLegible) (rest : Text) :
    string? (Settings.enclosed text ++ '\n' :: rest) = some (text, '\n' :: rest) := by
  have hdouble : after? [double, double, double] (Settings.enclosed text ++ '\n' :: rest) =
      none := by
    -- The third character is no quote if the text is empty, and the second one is none otherwise.
    cases text with
    | nil => rfl
    | cons c text =>
      have hquote : c ≠ double := ne_of_isLegible (h c List.mem_cons_self) (by decide)
      rw [Settings.enclosed_append]
      simp [after?, hquote.symm]
  have hsingle : after? [single, single, single] (Settings.enclosed text ++ '\n' :: rest) = none :=
    rfl
  simp only [string?, hdouble, hsingle]
  rw [Settings.enclosed_append]
  exact basic?_legible h ('\n' :: rest)

theorem takeWhile_word {p : Char → Bool} (h : word.IsWord) (hp : ∀ c, isNameChar c → p c)
    (hc : p c = false) (rest : Text) : (word ++ c :: rest).takeWhile p = word := by
  rw [List.takeWhile_append_of_pos fun d hd => hp d (h.2 d hd),
    List.takeWhile_cons_of_neg (by simp [hc]), List.append_nil]

theorem part?_word (h : word.IsWord) (hc : isBare c = false) (rest : Text) :
    part? (word ++ c :: rest) = some (word, c :: rest) := by
  have hname := takeWhile_word h (fun _ => isBare_of_isNameChar) hc rest
  have hbehind : (word ++ c :: rest).drop word.length = c :: rest := List.drop_left
  have hne := h.1
  obtain ⟨d, word, rfl⟩ := List.exists_cons_of_ne_nil h.1
  have hdouble : d ≠ Quoted.double := ne_of_isNameChar (h.2 d List.mem_cons_self) (by decide)
  have hsingle : d ≠ Quoted.single := ne_of_isNameChar (h.2 d List.mem_cons_self) (by decide)
  rw [List.cons_append] at hname hbehind ⊢
  rw [part?, if_neg hdouble, if_neg hsingle]
  simp only [hname, if_neg hne, hbehind]

theorem part?_enclosed (h : text.IsLegible) (rest : Text) :
    part? (Settings.enclosed text ++ rest) = some (text, rest) := by
  rw [Settings.enclosed_append]
  exact Quoted.basic?_legible h rest

/-! ### Values -/

/-- Digits alone are a decimal numeral without a sign. -/
theorem numeral?_of_isDigit (h : ∀ c ∈ text, c.isDigit) :
    numeral? text = (unsigned? text).map Int.ofNat := by
  have hnot {c : Char} (hc : c.isDigit = false) : c ∉ text := fun hmem => by
    simp [h c hmem] at hc
  rw [numeral?.eq_def]
  split
  next => exact absurd (List.mem_cons_of_mem _ List.mem_cons_self) (hnot (c := 'x') rfl)
  next => exact absurd (List.mem_cons_of_mem _ List.mem_cons_self) (hnot (c := 'o') rfl)
  next => exact absurd (List.mem_cons_of_mem _ List.mem_cons_self) (hnot (c := 'b') rfl)
  next => exact absurd List.mem_cons_self (hnot (c := '+') rfl)
  next => exact absurd List.mem_cons_self (hnot (c := '-') rfl)
  · rfl

/-- A decimal numeral is read as its number. -/
theorem unsigned?_decimal (n : Nat) : unsigned? (Numeral.decimal n) = some n := by
  have hline : '_' ∉ Numeral.decimal n := Numeral.not_mem_decimal rfl n
  have hhead : (Numeral.decimal n).head? ≠ some '_' := fun h => hline (List.mem_of_mem_head? h)
  have hlast : (Numeral.decimal n).getLast? ≠ some '_' := fun h => hline (List.mem_of_getLast? h)
  have htwo : Text.occursIn ['_', '_'] (Numeral.decimal n) = false := by
    rw [Bool.eq_false_iff, ne_eq, occursIn_iff]
    exact fun hpiece => hline (hpiece.subset List.mem_cons_self)
  have hsame : (Numeral.decimal n).filter (· != '_') = Numeral.decimal n :=
    List.filter_eq_self.mpr fun c hc => bne_iff_ne.mpr fun heq => hline (heq ▸ hc)
  rw [unsigned?]
  -- More than one digit must not begin with zero.
  by_cases hlength : 1 < (Numeral.decimal n).length
  · simp [Numeral.head?_decimal hlength, grouped?, hhead, hlast, htwo, hsame,
      Numeral.natural?_decimal]
  · simp [hlength, grouped?, hhead, hlast, htwo, hsame, Numeral.natural?_decimal]

/-- A decimal numeral is the number, if a signed word can hold it. -/
theorem integer?_decimal (h : n ≤ 9223372036854775807) :
    integer? (Numeral.decimal n) = some (n : Int) := by
  have hleast : integerMin ≤ (n : Int) := by
    rw [integerMin]
    omega
  have hgreatest : (n : Int) ≤ integerMax := by
    rw [integerMax]
    omega
  rw [integer?, numeral?_of_isDigit fun _ => Numeral.isDigit_of_mem_decimal, unsigned?_decimal]
  simp [hleast, hgreatest]

/-- What a word for a value means. -/
def meaning (word : Text) : Scalar :=
  if word = truthWord true then .truth true
  else if word = truthWord false then .truth false
  else .integer (Numeral.worth word)

theorem decimal_ne_truthWord (n : Nat) (b : Bool) : Numeral.decimal n ≠ truthWord b := by
  intro h
  have hdigit : 'e' ∈ Numeral.decimal n := by
    rw [h]
    cases b <;> decide
  exact Numeral.not_mem_decimal rfl n hdigit

theorem meaning_decimal (n : Nat) : meaning (Numeral.decimal n) = .integer n := by
  rw [meaning, if_neg (decimal_ne_truthWord n _), if_neg (decimal_ne_truthWord n _),
    Numeral.worth_decimal]

theorem meaning_truthWord (b : Bool) : meaning (truthWord b) = .truth b := by
  cases b <;> rfl

theorem word?_value (h : IsValue word) (rest : Text) :
    word? (word ++ '\n' :: rest) = some (meaning word, '\n' :: rest) := by
  have hword := takeWhile_word h.isWord (p := isNumeric) (c := '\n') (fun _ hc => by
    simp [isNumeric, isBare_of_isNameChar hc]) (by decide) rest
  have hbehind : (word ++ '\n' :: rest).drop word.length = '\n' :: rest := List.drop_left
  simp only [word?, hword, hbehind]
  rcases h with ⟨b, rfl⟩ | ⟨n, hn, rfl⟩
  · cases b <;> rfl
  · have htrue : Numeral.decimal n ≠ "true".toList := decimal_ne_truthWord n true
    have hfalse : Numeral.decimal n ≠ "false".toList := decimal_ne_truthWord n false
    rw [if_neg htrue, if_neg hfalse, integer?_decimal hn, meaning_decimal]
    rfl

theorem value?_word (h : IsValue word) (rest : Text) :
    value? (word ++ '\n' :: rest) = some (.scalar (meaning word), '\n' :: rest) := by
  have hword := word?_value h rest
  obtain ⟨c, word, rfl⟩ := List.exists_cons_of_ne_nil h.isWord.1
  have hne (d : Char) (hd : isNameChar d = false) :
      ((c :: word) ++ '\n' :: rest).head? ≠ some d := fun heq =>
    ne_of_isNameChar (h.isWord.2 c List.mem_cons_self) hd (Option.some.inj heq)
  have hbrace := after?_eq_none (hne '\x7b' (by decide))
  have hdouble := hne Quoted.double (by decide)
  have hsingle := hne Quoted.single (by decide)
  simp only [value?, hbrace, scalar?, hdouble, hsingle, decide_false, Bool.or_self, hword]
  rfl

theorem value?_enclosed (h : text.IsLegible) (rest : Text) :
    value? (Settings.enclosed text ++ '\n' :: rest) =
      some (.scalar (.text text), '\n' :: rest) := by
  have hbrace : after? ['\x7b'] (Settings.enclosed text ++ '\n' :: rest) = none := rfl
  have hdouble : (Settings.enclosed text ++ '\n' :: rest).head? = some Quoted.double := rfl
  simp [value?, hbrace, scalar?, hdouble, Quoted.string?_enclosed h]

/-! ### Lines -/

/-- A key of one part, behind which no dot stands. -/
theorem key?_of_part (h : part? (c :: text) = some (name, behind)) (hc : isGap c = false)
    (hdot : (skipGaps behind).head? ≠ some '.') :
    key? (c :: text) = some ([name], skipGaps behind) := by
  rw [key?, skipGaps_of_ne hc, h]
  simp only [Option.bind_eq_bind, Option.bind_some]
  split
  next hbehind => simp [hbehind] at hdot
  · rfl

/-- An assignment on a line of its own is a statement. -/
theorem line?_assign {key : Text} {v : Value} (hc : c ∉ [' ', '\t', '[', '#', '\n', '\r'])
    (hd : isGap d = false)
    (hkey : ∀ rest, part? (c :: text ++ ' ' :: rest) = some (key, ' ' :: rest))
    (hvalue : value? (d :: word ++ '\n' :: rest) = some (v, '\n' :: rest)) :
    line? (Settings.tomlLine (c :: text) (d :: word) ++ rest) =
      some (some (.assign [key] v), rest) := by
  simp only [List.mem_cons, List.not_mem_nil, or_false, not_or] at hc
  obtain ⟨hspace, htab, hbracket, hcomment, hfeed, hreturn⟩ := hc
  have hgap : isGap c = false := by simp [isGap, hspace, htab]
  have hname : key? (c :: (text ++ ' ' :: '=' :: ' ' :: (d :: word ++ '\n' :: rest))) =
      some ([key], '=' :: ' ' :: (d :: word ++ '\n' :: rest)) :=
    key?_of_part (hkey _) hgap fun h => absurd (Option.some.inj h) (by decide)
  have hequals : equals? ('=' :: ' ' :: (d :: word ++ '\n' :: rest)) =
      some (d :: word ++ '\n' :: rest) := by
    rw [equals?, List.cons_append]
    simp [after?, skipGaps_blank, skipGaps_of_ne hd]
  have hend : lineEnd? ('\n' :: rest) = some rest := rfl
  rw [Settings.tomlLine_append, line?, List.cons_append, skipGaps_of_ne hgap]
  -- A line can be empty, a header, or anything else, which is an assignment.
  split
  next heq => cases heq
  next heq => exact absurd (List.cons.inj heq).1 hbracket
  next heq =>
    obtain ⟨rfl, rfl⟩ := List.cons.inj heq
    simp only [hcomment, hfeed, hreturn, decide_false, Bool.or_self, Bool.false_eq_true, if_false,
      hname, Option.bind_eq_bind, Option.bind_some, hequals, hvalue, hend]
    rfl

/-- The header of the variables. -/
theorem line?_header (rest : Text) :
    line? ('[' :: Settings.Field.env.name ++ "]\n".toList ++ rest) =
      some (some (.header [Settings.Field.env.name]), rest) := by
  have hkey : key? (Settings.Field.env.name ++ ']' :: '\n' :: rest) =
      some ([Settings.Field.env.name], ']' :: '\n' :: rest) :=
    key?_of_part (part?_word (Settings.isWord_name .env) (by decide) _) rfl
      fun h => absurd (Option.some.inj h) (by decide)
  have hline : '[' :: Settings.Field.env.name ++ "]\n".toList ++ rest =
      '[' :: (Settings.Field.env.name ++ ']' :: '\n' :: rest) := rfl
  rw [hline, line?, skipGaps_of_ne (by decide)]
  simp only [hkey, Option.bind_eq_bind, Option.bind_some]
  rfl

/-- A statement on a line of its own goes before those of the other lines. -/
theorem lines?_of_line {line : Text} {statement : Statement} (hne : line ≠ [])
    (h : line? (line ++ rest) = some (some statement, rest)) :
    lines? (line ++ rest) = (lines? rest).map (statement :: ·) := by
  have hlt : rest.length < (line ++ rest).length := by
    rw [List.length_append]
    exact Nat.lt_add_of_pos_left (List.length_pos_of_ne_nil hne)
  have hnil : line ++ rest ≠ [] := List.append_ne_nil_of_left_ne_nil hne rest
  rw [lines?, if_neg hnil, h]
  simp only [Option.bind_eq_bind, Option.bind_some]
  -- The reader goes on as the line took it forward.
  rw [if_pos hlt]
  cases lines? rest <;> rfl

/-- A line of a word and a word for a value. -/
theorem line?_word (hname : name.IsWord) (hvalue : IsValue word) (rest : Text) :
    line? (Settings.tomlLine name word ++ rest) =
      some (some (.assign [name] (.scalar (meaning word))), rest) := by
  have hkey (rest : Text) := part?_word hname (c := ' ') (by decide) rest
  have hread := value?_word hvalue rest
  obtain ⟨c, text, rfl⟩ := List.exists_cons_of_ne_nil hname.1
  obtain ⟨d, word, rfl⟩ := List.exists_cons_of_ne_nil hvalue.isWord.1
  have hc := hname.2 c List.mem_cons_self
  have hd := hvalue.isWord.2 d List.mem_cons_self
  refine line?_assign ?_ (isGap_of_isNameChar hd) hkey hread
  simp only [List.mem_cons, List.not_mem_nil, or_false, not_or]
  exact ⟨ne_of_isNameChar hc rfl, ne_of_isNameChar hc rfl, ne_of_isNameChar hc rfl,
    ne_of_isNameChar hc rfl, ne_of_isNameChar hc rfl, ne_of_isNameChar hc rfl⟩

/-- A line of two texts in double quotes. -/
theorem line?_enclosed {value : Text} (hname : name.IsLegible) (hvalue : value.IsLegible)
    (rest : Text) :
    line? (Settings.tomlLine (Settings.enclosed name) (Settings.enclosed value) ++ rest) =
      some (some (.assign [name] (.scalar (.text value))), rest) :=
  line?_assign (by decide) rfl (fun rest => part?_enclosed hname (' ' :: rest))
    (value?_enclosed hvalue rest)

/-! ### Documents -/

/-- Lines that are read one by one are read in front of further lines. -/
theorem lines?_flatMap {α : Type} {xs : List α} {line : α → Text} {statement : α → Statement}
    (hne : ∀ x ∈ xs, line x ≠ [])
    (h : ∀ x ∈ xs, ∀ rest, line? (line x ++ rest) = some (some (statement x), rest)) (rest : Text) :
    lines? (xs.flatMap line ++ rest) = (lines? rest).map (xs.map statement ++ ·) := by
  induction xs with
  | nil => simp
  | cons x xs ih =>
    obtain ⟨hfirst, hne⟩ := List.forall_mem_cons.mp hne
    obtain ⟨hread, h⟩ := List.forall_mem_cons.mp h
    rw [List.flatMap_cons, List.append_assoc, lines?_of_line hfirst (hread _), ih hne h,
      Option.map_map]
    rfl

/-- The statements of lines. -/
def assignments (lines : List (Text × Text)) : List (List Text × Value) :=
  lines.map fun l => ([l.1], .scalar (meaning l.2))

/-- The assignments of variables. -/
def bindings (vars : List (Text × Text)) : List (List Text × Scalar) :=
  vars.map fun v => ([v.1], .text v.2)

/-- The table of the variables, if there are any. -/
def table (vars : List (Text × Text)) : List Statement :=
  if vars = [] then []
  else .header [Settings.Field.env.name] :: (bindings vars).map fun b => .assign b.1 (.scalar b.2)

theorem tomlLine_ne_nil (name value : Text) : Settings.tomlLine name value ≠ [] := by
  simp [Settings.tomlLine]

/-- The table of the variables is read to the end of the text. -/
theorem lines?_table {vars : List (Text × Text)}
    (hvars : ∀ v ∈ vars, v.1.IsLegible ∧ v.2.IsLegible) :
    lines? (Settings.toToml [] vars) = some (table vars) := by
  rw [table, Settings.toToml, List.flatMap_nil, List.nil_append]
  split
  · rw [lines?, if_pos rfl]
    rfl
  · have hread := lines?_flatMap (fun v (_ : v ∈ vars) => tomlLine_ne_nil (Settings.enclosed v.1)
      (Settings.enclosed v.2)) (fun v hv => line?_enclosed (hvars v hv).1 (hvars v hv).2) []
    rw [lines?_of_line (by simp) (line?_header _)]
    rw [List.append_nil] at hread
    rw [hread, lines?, if_pos rfl]
    simp [bindings]

/-- The statements of lines and variables. -/
theorem statements?_toToml {lines vars : List (Text × Text)}
    (hlines : ∀ l ∈ lines, l.1.IsWord ∧ IsValue l.2)
    (hvars : ∀ v ∈ vars, v.1.IsLegible ∧ v.2.IsLegible) :
    statements? (Settings.toToml lines vars) =
      some ((assignments lines).map (fun a => .assign a.1 a.2) ++ table vars) := by
  have htyped := Settings.isTyped_toToml
    (fun l hl => ⟨(hlines l hl).1, (hlines l hl).2.isWord⟩) hvars
  have hmark : after? [byteOrderMark] (Settings.toToml lines vars) = none :=
    after?_eq_none (htyped.head?_ne (by decide))
  have hsplit : Settings.toToml lines vars =
      lines.flatMap (fun l => Settings.tomlLine l.1 l.2) ++ Settings.toToml [] vars := by
    simp [Settings.toToml]
  rw [statements?, hmark, Option.getD_none, hsplit,
    lines?_flatMap (fun l _ => tomlLine_ne_nil l.1 l.2)
      (fun l hl => line?_word (hlines l hl).1 (hlines l hl).2), lines?_table hvars]
  simp [assignments]

end Toml

namespace Settings

open Toml (Scalar Value Statement assignments bindings table meaning)

variable {s : Settings} {fields : List (Field × Text)} {lines vars stored : List (Text × Text)}

theorem sections_append (assigned : List (List Text × Value)) (statements : List Statement) :
    sections (assigned.map (fun a => .assign a.1 a.2) ++ statements) =
      (assigned ++ (sections statements).1, (sections statements).2) := by
  induction assigned with
  | nil => rfl
  | cons a rest ih => rw [List.map_cons, List.cons_append, sections, ih]; rfl

theorem sections_table (vars : List (Text × Text)) : sections (table vars) = ([], table vars) := by
  rw [table]
  split <;> rfl

/-- The table of the variables is the only section. -/
theorem section?_table (vars : List (Text × Text)) : section? (table vars) =
    some (if vars = [] then none else some (bindings vars)) := by
  have hsections : sections ((bindings vars).map fun b => .assign b.1 (.scalar b.2)) =
      ((bindings vars).map (fun b => (b.1, .scalar b.2)), []) := by
    have happend := sections_append ((bindings vars).map fun b => (b.1, .scalar b.2)) []
    rw [List.append_nil, List.map_map] at happend
    exact happend.trans (by simp [sections])
  have hplain : ((bindings vars).map fun b => (b.1, Value.scalar b.2)).mapM plain? =
      some (bindings vars) := by
    apply mapM_map_eq_some
    exact fun b => rfl
  rw [table]
  split
  · rfl
  · rw [section?, hsections]
    simp [hplain]

/-- The variables of their assignments. -/
theorem variables?_bindings (h : (vars.map Prod.fst).Nodup) :
    variables? (bindings vars) = some (.ofList vars) := by
  have hbinding : (bindings vars).mapM binding? = some vars := by
    apply mapM_map_eq_some
    exact fun v => rfl
  rw [variables?, hbinding]
  exact if_pos h

/-- The values of lines under their names. -/
def values (lines : List (Text × Text)) : List (Text × Value) :=
  lines.map fun l => (l.1, .scalar (meaning l.2))

theorem filter_assignments (lines : List (Text × Text)) :
    (assignments lines).filter (·.1.length = 1) = assignments lines ∧
      (assignments lines).filter (·.1.length ≠ 1) = [] := by
  have hone : ∀ a ∈ assignments lines, a.1.length = 1 := by
    intro a ha
    obtain ⟨l, -, rfl⟩ := List.mem_map.mp ha
    rfl
  constructor
  · exact List.filter_eq_self.mpr fun a ha => decide_eq_true (hone a ha)
  · exact List.filter_eq_nil_iff.mpr fun a ha => by simp [hone a ha]

theorem mapM_field?_assignments (lines : List (Text × Text)) :
    (assignments lines).mapM field? = some (values lines) := by
  have hkeys : assignments lines = (values lines).map fun v => ([v.1], v.2) := by
    simp [assignments, values]
  rw [hkeys]
  apply mapM_map_eq_some
  exact fun v => rfl

/-- Lines that are not those of fields mean nothing. -/
theorem ofStatements?_eq_none (h : byName? (values lines) = none) :
    ofStatements? ((assignments lines).map (fun a => .assign a.1 a.2) ++ table vars) = none := by
  rw [ofStatements?, sections_append, sections_table, List.append_nil]
  simp only [(filter_assignments lines).1, mapM_field?_assignments, Option.bind_eq_bind,
    Option.bind_some, h, Option.bind_none]

/-- The configuration of lines and variables, where the lines are those of fields. -/
theorem ofStatements?_eq {fields : List (Field × Value)} (h : byName? (values lines) = some fields)
    (henv : fields.lookup .env = none) (hnodup : (vars.map Prod.fst).Nodup) :
    ofStatements? ((assignments lines).map (fun a => .assign a.1 a.2) ++ table vars) = do
      return ⟨← optional? natural? (fields.lookup .timeout),
        ← optional? truth? (fields.lookup .mergeStderr),
        ← optional? truth? (fields.lookup .inheritEnv), .ofList vars⟩ := by
  obtain ⟨hshort, hlong⟩ := filter_assignments lines
  rw [ofStatements?, sections_append, sections_table, List.append_nil]
  simp only [hshort, hlong, mapM_field?_assignments, List.mapM_nil, section?_table, henv, h,
    Option.bind_eq_bind, Option.bind_some]
  by_cases hvars : vars = []
  · have hnone : variables? [] = some (.ofList []) := rfl
    simp [hvars, hnone]
  · simp [hvars, variables?_bindings hnodup]

theorem optional?_decimal (limit : Option Nat) :
    optional? natural? ((limit.map Numeral.decimal).map (Value.scalar ∘ meaning)) = some limit := by
  cases limit with
  | none => rfl
  | some n => simp [Toml.meaning_decimal, optional?, natural?]

theorem optional?_truthWord (flag : Option Bool) :
    optional? truth? ((flag.map truthWord).map (Value.scalar ∘ meaning)) = some flag := by
  cases flag with
  | none => rfl
  | some b => simp [Toml.meaning_truthWord, optional?, truth?]

/-- Lines and variables in TOML mean the configuration whose fields have the words. -/
theorem ofToml?_toToml (h : fields.Perm s.words) (hstored : stored.Perm s.env.entries)
    (htimeout : ∀ n ∈ s.timeout, n ≤ 9223372036854775807)
    (hlegible : ∀ v ∈ stored, v.1.IsLegible ∧ v.2.IsLegible) :
    ofToml? (toToml (named fields) stored) = some s := by
  have hlines : ∀ l ∈ named fields, l.1.IsWord ∧ IsValue l.2 := by
    intro l hl
    obtain ⟨f, hf, rfl⟩ := List.mem_map.mp hl
    exact ⟨isWord_name f.1, isValue_of_mem_words htimeout (h.mem_iff.mp hf)⟩
  have hvalues : values (named fields) =
      named (fields.map fun f => (f.1, Value.scalar (meaning f.2))) := by
    simp [values, named]
  have hnodup : ((fields.map fun f => (f.1, Value.scalar (meaning f.2))).map Prod.fst).Nodup := by
    rw [List.map_map]
    exact (h.map Prod.fst).nodup_iff.mpr (nodup_words s)
  have hnames : (stored.map Prod.fst).Nodup :=
    (hstored.map Prod.fst).nodup_iff.mpr s.env.nodup_names
  have hlookup (field : Field) :
      (fields.map fun f => (f.1, Value.scalar (meaning f.2))).lookup field =
        (fields.lookup field).map (Value.scalar ∘ meaning) :=
    lookup_map (Value.scalar ∘ meaning) fields field
  obtain ⟨htimeoutWord, hmergeWord, hinheritWord, henvWord⟩ := lookup_words h
  have henv : (fields.map fun f => (f.1, Value.scalar (meaning f.2))).lookup .env = none := by
    rw [hlookup, henvWord]
    rfl
  rw [ofToml?, Toml.statements?_toToml hlines hlegible, Option.bind_some,
    ofStatements?_eq (hvalues ▸ byName?_named hnodup) henv hnames, hlookup, hlookup, hlookup,
    htimeoutWord, hmergeWord, hinheritWord, optional?_decimal, optional?_truthWord,
    optional?_truthWord, Variables.ofList_eq_of_perm hstored]
  rfl

/-- A line whose name is that of no field is refused, wherever it stands. -/
theorem ofToml?_eq_none {above below : List (Text × Text)} {line : Text × Text}
    (hlines : ∀ l ∈ above ++ line :: below, l.1.IsWord ∧ IsValue l.2)
    (hvars : ∀ v ∈ vars, v.1.IsLegible ∧ v.2.IsLegible) (hname : Field.ofName? line.1 = none) :
    ofToml? (toToml (above ++ line :: below) vars) = none := by
  rw [ofToml?, Toml.statements?_toToml hlines hvars, Option.bind_some]
  exact ofStatements?_eq_none (byName?_eq_none hname (by simp [values]))

end Settings

end Golden
