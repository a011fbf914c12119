import Golden.Proofs.Layout
import Golden.Yaml.Lexer

/-!
# The tokens of indented lines

How the reader of YAML gets over lines of names and values, and over an indented block of them in
double quotes. Such a line takes three steps: one for the name, which could be a key and is
remembered, one for the colon, which makes it one and may open a block in front of it, and one for
the value. The colon must not be too far from where the name begins, which is no matter for the
names of fields and is where a longer name ends everything.

A step takes the reader on whatever is to come, so that lines are put together backward: what is
read from the place behind a line on is read from the place in front of it.

## Main definitions

* `Yaml.FitsLine`, `Yaml.FitsBlock` — lines whose names are short enough for keys
* `Yaml.State.Yields` — what becomes of a reader who has steps enough
* `Yaml.State.tokensFrom` — the tokens of lines, with the block that their first key opens

## Main results

* `Yaml.Plain.read_key`, `Yaml.Plain.read_value`, `Yaml.Double.read_enclosed` — the scalars of lines
* `Yaml.State.Yields.of_token` — a step
* `Yaml.State.Yields.wordLine`, `Yaml.State.Yields.quotedLine` — a line
* `Yaml.State.yields_toYaml` — lines and variables, by induction on them
* `Yaml.tokens?_toYaml` — the tokens of lines and variables
* `Yaml.tokens?_eq_none_of_long` — a name that is too long
-/

namespace Golden.Yaml

open Text

variable {c d : Char} {text word rest tail out : Text} {m mark : Mark} {g : Gap}
  {lines vars : List (Text × Text)} {indent : Nat}

/-! ### Scalars -/

theorem isBreak_of_isLegible (h : isLegible c) : isBreak c = false := by
  have hne (d : Char) (hd : isLegible d = false) : (c == d) = false :=
    beq_false_of_ne (ne_of_isLegible h hd)
  rw [isBreak, hne _ (by decide), hne _ (by decide), hne _ (by decide), hne _ (by decide),
    hne _ (by decide)]
  rfl

theorem isGap_of_isNameChar (h : isNameChar c) : isGap c = false := by
  have hne (d : Char) (hd : isNameChar d = false) : (c == d) = false :=
    beq_false_of_ne (ne_of_isNameChar h hd)
  rw [isGap, hne _ (by decide), hne _ (by decide)]
  rfl

theorem advance_advance (m : Mark) (i j : Nat) : (m.advance i).advance j = m.advance (i + j) := by
  simp [Mark.advance, Nat.add_assoc]

/-- Inside a line there is no marker of a document. -/
theorem atBoundary_of_column (h : 0 < m.column) (rest : Text) : atBoundary m rest = false := by
  have hcolumn : (m.column == 0) = false := beq_false_of_ne (Nat.ne_of_gt h)
  rw [atBoundary, hcolumn, Bool.false_and]

namespace Plain

/-- A word is read on from inside of it, character by character. -/
theorem readFrom_word (h : ∀ c ∈ word, isNameChar c) (indent : Nat) (out : Text) (m : Mark)
    (rest : Text) :
    readFrom false indent out .none m (word ++ rest) =
      readFrom false indent (word.reverse ++ out) .none (m.advance word.length) rest := by
  induction word generalizing out m with
  | nil => rfl
  | cons c word ih =>
    obtain ⟨hc, hword⟩ := List.forall_mem_cons.mp h
    have hbreak := isBreak_of_isLegible (isLegible_of_isNameChar hc)
    have hcolon : (c == ':') = false := beq_false_of_ne (ne_of_isNameChar hc (by decide))
    have hreturn : c ≠ '\r' := ne_of_isNameChar hc (by decide)
    have hstep : readFrom false indent out .none m (c :: (word ++ rest)) =
        readFrom false indent (c :: out) .none (m.advance 1) (word ++ rest) := by
      rw [readFrom]
      · simp [hbreak, isGap_of_isNameChar hc, hcolon, stopsAt, Gap.isNone, Gap.none, Gap.flush,
          Gap.text]
      · intro behind hc'
        exact absurd hc' hreturn
    rw [List.cons_append, hstep, ih hword, advance_advance, List.length_cons, Nat.add_comm 1,
      List.reverse_cons, List.append_assoc, List.singleton_append]

/-- A word is a key up to the colon and a blank behind it. -/
theorem read_key (h : word.IsWord) (htail : endsToken tail) (indent : Nat) (m : Mark) :
    read false indent m (word ++ ':' :: tail) =
      some ⟨(word, false), m.advance word.length, ':' :: tail⟩ := by
  rw [read, readFrom_word h.2, readFrom]
  · simp [isBreak, isGap, nextLine, stopsAt, htail, Gap.none, Gap.isBroken]
  · intro behind hcolon
    exact absurd hcolon (by decide)

/-- A word is a value up to the next line that is not indented, or to the end of the text. -/
theorem read_value (h : word.IsWord) {indent : Nat} (hindent : 0 < indent) (m : Mark)
    (hrest : ∀ c ∈ rest.head?, isBreak c = false ∧ isGap c = false) :
    read false indent m (word ++ '\n' :: rest) =
      some ⟨(word, true), (m.advance word.length).newline 1, rest⟩ := by
  have hbreak : readFrom false indent (word.reverse ++ []) .none (m.advance word.length)
        ('\n' :: rest) =
      readFrom false indent word.reverse (Gap.none.addBreak ['\n'])
        ((m.advance word.length).newline 1) rest := by
    rw [readFrom]
    · simp [isBreak, breakText]
    · intro behind hfeed
      exact absurd hfeed (by decide)
  rw [read, readFrom_word h.2, hbreak]
  -- Behind the break a plain scalar goes on only if the next line is indented.
  cases rest with
  | nil => simp [readFrom, Gap.addBreak, Gap.none, Gap.isBroken]
  | cons c rest =>
    obtain ⟨hc, hgap⟩ := hrest c rfl
    rw [readFrom]
    · simp [hc, hgap, stopsAt, Gap.addBreak, Gap.none, Gap.isNone, Gap.isBroken, Mark.newline,
        hindent]
    · rintro behind rfl
      exact absurd hc (by decide)

end Plain

namespace Double

theorem readFrom_cons (h : isLegible c) (out : Text) (g : Gap) (hm : 0 < m.column) (rest : Text) :
    readFrom out g .none m (c :: rest) =
      if isGap c then readFrom out (g.addBlank c) .none (m.advance 1) rest
      else readFrom (c :: g.flush out) .none .none (m.advance 1) rest := by
  have hslash : c ≠ '\\' := ne_of_isLegible h (by decide)
  have hreturn : c ≠ '\r' := ne_of_isLegible h (by decide)
  have hquote : c ≠ '\x22' := ne_of_isLegible h (by decide)
  rw [readFrom]
  · simp [isBreak_of_isLegible h, atBoundary_of_column hm, hquote, hslash]
  · intro behind hc _
    exact hslash hc
  · intro d behind hc
    exact absurd hc hslash
  · intro behind hc
    exact absurd hc hreturn

theorem readFrom_quote (out : Text) (g : Gap) (hm : 0 < m.column) (rest : Text) :
    readFrom out g .none m ('\x22' :: rest) = some ⟨(g.flush out).reverse, m.advance 1, rest⟩ := by
  rw [readFrom]
  · simp [atBoundary_of_column hm, isBreak, isGap, nextLine]
  · intro behind hc _
    exact absurd hc (by decide)
  · intro d behind hc
    exact absurd hc (by decide)
  · intro behind hc
    exact absurd hc (by decide)

/-- A legible text is read up to the quote behind it; blanks are gaps that mean themselves. -/
theorem readFrom_legible (h : text.IsLegible) (out : Text) (hg : g.breaks = none)
    (hm : 0 < m.column) (rest : Text) :
    readFrom out g .none m (text ++ '\x22' :: rest) =
      some ⟨(g.flush out).reverse ++ text, m.advance (text.length + 1), rest⟩ := by
  -- The gap is any, as a blank is put into it and comes to the text with the next character.
  induction text generalizing out m g with
  | nil =>
    rw [List.nil_append, readFrom_quote out g hm, List.append_nil]
    rfl
  | cons c text ih =>
    obtain ⟨hc, htext⟩ := List.forall_mem_cons.mp h
    have hm' : 0 < (m.advance 1).column := Nat.lt_succ_of_lt hm
    have hmark : (m.advance 1).advance (text.length + 1) = m.advance ((c :: text).length + 1) := by
      rw [advance_advance, Nat.add_comm 1, List.length_cons]
    rw [List.cons_append, readFrom_cons hc out g hm]
    split
    · have hblank : (g.addBlank c).breaks = none := by simp [Gap.addBlank, Gap.isBroken, hg]
      rw [ih htext out hblank hm', hmark]
      simp [Gap.flush, Gap.addBlank, Gap.isBroken, hg, Gap.text]
    · rw [ih htext _ rfl hm', hmark]
      simp [Gap.flush, Gap.text, hg, Gap.none]

/-- A legible text in quotes is read as it is. -/
theorem read_enclosed (h : text.IsLegible) (hm : 0 < m.column) (rest : Text) :
    read m (text ++ '\x22' :: rest) = some ⟨text, m.advance (text.length + 1), rest⟩ :=
  readFrom_legible h [] rfl hm rest

end Double

/-! ### Tokens -/

/-- A line of two words, of which the first is short enough for a key. -/
structure FitsLine (line : Text × Text) : Prop where
  name : line.1.IsWord
  value : line.2.IsWord
  short : line.1.length ≤ State.maxKey

/-- A line of two texts in double quotes, of which the first is short enough for a key. -/
structure FitsBlock (line : Text × Text) : Prop where
  name : line.1.IsLegible
  value : line.2.IsLegible
  short : line.1.length + 2 ≤ State.maxKey

/-- The tokens of a line of two words. -/
def wordTokens (line : Text × Text) : List Token :=
  [.key, .scalar .plain line.1, .value, .scalar .plain line.2]

/-- The tokens of a line of two texts in double quotes. -/
def quotedTokens (line : Text × Text) : List Token :=
  [.key, .scalar .doubleQuoted line.1, .value, .scalar .doubleQuoted line.2]

/-- The tokens of variables that are indented below a line of their own, if there are any. -/
def blockTokens (vars : List (Text × Text)) : List Token :=
  if vars = [] then []
  else [.key, .scalar .plain Settings.Field.env.name, .value, .blockMapping] ++
    vars.flatMap quotedTokens ++ [.blockEnd]

/-- Whether a character is neither skipped by the reader nor the beginning of what is. -/
def isFirst (c : Char) : Bool :=
  !isBreak c && !isGap c && c != '#' && c != byteOrderMark

theorem isFirst_of_isNameChar (h : isNameChar c) : isFirst c := by
  have hcomment : c ≠ '#' := ne_of_isNameChar h (by decide)
  have hmark : c ≠ byteOrderMark := ne_of_isNameChar h (by decide)
  simp [isFirst, isBreak_of_isLegible (isLegible_of_isNameChar h), isGap_of_isNameChar h, hcomment,
    hmark]

theorem head?_ne_of_ne (h : c ≠ byteOrderMark) (rest : Text) :
    (c :: rest).head? ≠ some byteOrderMark :=
  fun heq => h (Option.some.inj heq)

theorem head?_ne_of_isFirst (h : isFirst c) (rest : Text) :
    (c :: rest).head? ≠ some byteOrderMark := by
  apply head?_ne_of_ne
  rintro rfl
  exact absurd h (by decide)

theorem isMarker_of_ne (h : c ≠ d) (rest : Text) : isMarker d (c :: rest) = false := by
  rw [isMarker, after?, if_neg h.symm]

namespace State

variable {s next : State} {r : Option (List Token)} {t : Token} {ts : List Token}
  {n k column steps : Nat} {blocks : List Nat} {key : Option Key} {allowed : Bool}

/-- What becomes of a reader who has a step for each character left, and one more. -/
def Yields (s : State) (r : Option (List Token)) : Prop :=
  ∀ steps, s.rest.length < steps → run steps s = r

/-! ### What is in front of a token -/

theorem skipFrom_of_isFirst (h : isFirst c) (rest : Text) (m : Mark) (allowed : Bool) :
    skipFrom false false allowed m (c :: rest) = (allowed, m, c :: rest) := by
  simp only [isFirst, isGap, Bool.and_eq_true, Bool.not_eq_true', Bool.or_eq_false_iff,
    beq_eq_false_iff_ne, bne_iff_ne, ne_eq] at h
  obtain ⟨⟨⟨hbreak, hspace, htab⟩, hcomment⟩, -⟩ := h
  rw [skipFrom]
  · simp [hbreak, hspace, htab, hcomment]
  · rintro behind rfl
    exact absurd hbreak (by decide)

/-- Blanks are skipped. -/
theorem skipFrom_blanks (h : isFirst c) (k : Nat) (rest : Text) (m : Mark) (allowed : Bool) :
    skipFrom false false allowed m (List.replicate k ' ' ++ c :: rest) =
      (allowed, m.advance k, c :: rest) := by
  induction k generalizing m with
  | zero => exact skipFrom_of_isFirst h rest m allowed
  | succ k ih =>
    rw [List.replicate_succ, List.cons_append, skipFrom]
    · rw [if_neg (by decide), if_neg (by decide), if_pos (by simp), ih, advance_advance,
        Nat.add_comm 1]
    · intro behind hspace
      exact absurd hspace (by decide)

/-- A line break is skipped with the blanks behind it, and a key may stand there. -/
theorem skipFrom_line (h : isFirst c) (k : Nat) (rest : Text) (m : Mark) (allowed : Bool) :
    skipFrom false false allowed m ('\n' :: (List.replicate k ' ' ++ c :: rest)) =
      (true, (m.newline 1).advance k, c :: rest) := by
  rw [skipFrom]
  · rw [if_pos (by decide), skipFrom_blanks h, Bool.not_false, Bool.or_true]
  · intro behind hfeed
    exact absurd hfeed (by decide)

/-- Outside of brackets and braces, and in front of no byte order mark, all that skipping does is to
go on in the text. -/
theorem skip_eq {rest' : Text} {m' : Mark} {allowed' : Bool}
    (hmark : rest.head? ≠ some byteOrderMark)
    (h : skipFrom false false allowed m rest = (allowed', m', rest')) (ts : List Token) (n : Nat)
    (blocks : List Nat) (key : Option Key) :
    skip ⟨rest, m, ts, n, blocks, key, [], allowed⟩ =
      ⟨rest', m', ts, n, blocks, key, [], allowed'⟩ := by
  simp [skip, hmark, inFlow, h]

/-- A column closes no block that lies further out. -/
theorem closeTo_eq (h : ∀ b ∈ blocks.head?, b ≤ column) (rest : Text) (m : Mark) (ts : List Token)
    (n : Nat) (key : Option Key) (allowed : Bool) :
    closeTo column ⟨rest, m, ts, n, blocks, key, [], allowed⟩ =
      ⟨rest, m, ts, n, blocks, key, [], allowed⟩ := by
  cases blocks with
  | nil => rfl
  | cons b others =>
    have hb : ¬ column < b := Nat.not_lt.mpr (h b rfl)
    simp [closeTo, inFlow, closeBeyond, hb]

/-- A step of the reader: what is in front of a token is skipped, no block is closed, a key that is
too far behind is given up, and the token is read. -/
theorem run_succ {rest' : Text} {m' : Mark} {allowed' : Bool} {key' : Option Key}
    (hmark : rest.head? ≠ some byteOrderMark)
    (hskip : skipFrom false false allowed m rest = (allowed', m', c :: rest'))
    (hfresh : freshKey m' key = some key') (hblocks : ∀ b ∈ blocks.head?, b ≤ m'.column)
    (ts : List Token) (n steps : Nat) :
    run (steps + 1) ⟨rest, m, ts, n, blocks, key, [], allowed⟩ =
      (token c rest' ⟨c :: rest', m', ts, n, blocks, key', [], allowed'⟩).bind (run steps) := by
  have hstale : dropStale ⟨c :: rest', m', ts, n, blocks, key, [], allowed'⟩ =
      some ⟨c :: rest', m', ts, n, blocks, key', [], allowed'⟩ := by
    rw [dropStale, hfresh]
    rfl
  rw [run, skip_eq hmark hskip, hstale]
  simp only [Option.bind_eq_bind, Option.bind_some, closeTo_eq hblocks]

/-- What becomes of a reader is what becomes of it behind the next token: a token takes at least one
character, so that the steps that are left are still enough. -/
theorem Yields.of_token {rest' : Text} {m' : Mark} {allowed' : Bool}
    (hmark : rest.head? ≠ some byteOrderMark)
    (hskip : skipFrom false false allowed m rest = (allowed', m', c :: rest'))
    (hfresh : freshKey m' key = some key) (hblocks : ∀ b ∈ blocks.head?, b ≤ m'.column)
    (htoken : token c rest' ⟨c :: rest', m', ts, n, blocks, key, [], allowed'⟩ = some next)
    (hlt : next.rest.length < rest.length) (h : Yields next r) :
    Yields ⟨rest, m, ts, n, blocks, key, [], allowed⟩ r := by
  intro steps hsteps
  cases steps with
  | zero => exact absurd hsteps (Nat.not_lt_zero _)
  | succ steps =>
    rw [run_succ hmark hskip hfresh hblocks, htoken]
    exact h steps (Nat.lt_of_lt_of_le hlt (Nat.le_of_lt_succ hsteps))

/-! ### Tokens -/

/-- A name character begins a plain scalar. -/
theorem token_of_isNameChar (h : isNameChar c) (rest : Text) (s : State) :
    s.token c rest = s.plain := by
  -- None of the characters that begin something else belongs to a name.
  have hother : ['%', '-', '.', '[', '\x7b', ']', '\x7d', ',', '?', ':', '*', '&', '!', '|', '>',
      '\x27', '\x22', '#', '@', '\x60'].all (!isNameChar ·) := by decide
  have hmarks : ∀ d ∈ _, c ≠ d := fun d hd =>
    ne_of_isNameChar h (by simpa using List.all_eq_true.mp hother d hd)
  simp only [List.forall_mem_cons] at hmarks
  simp [token, opensPlain, hmarks, isMarker_of_ne]

theorem token_colon (h : endsToken rest) (s : State) : s.token ':' rest = s.value := by
  have hdash : isMarker '-' (':' :: rest) = false := isMarker_of_ne (by decide) rest
  have hdot : isMarker '.' (':' :: rest) = false := isMarker_of_ne (by decide) rest
  simp [token, h, hdash, hdot]

theorem token_quote (rest : Text) (s : State) :
    s.token '\x22' rest = s.quoted .doubleQuoted Double.read := by
  have hdash : isMarker '-' ('\x22' :: rest) = false := isMarker_of_ne (by decide) rest
  have hdot : isMarker '.' ('\x22' :: rest) = false := isMarker_of_ne (by decide) rest
  simp [token, hdash, hdot]

/-- The key that could begin where a reader stands. -/
def keyHere (blocks : List Nat) (n : Nat) (m : Mark) : Key :=
  ⟨blocks.head? == some m.column, n, m⟩

theorem saveKey_eq (rest : Text) (m : Mark) (ts : List Token) (n : Nat) (blocks : List Nat)
    (allowed : Bool) :
    saveKey ⟨rest, m, ts, n, blocks, none, [], allowed⟩ =
      some ⟨rest, m, ts, n, blocks, if allowed then some (keyHere blocks n m) else none, [],
        allowed⟩ := by
  cases allowed <;> rfl

/-- A plain scalar is read, and may be a key if one may begin there. -/
theorem plain_of_read {found : Reading (Text × Bool)}
    (h : ∀ least, (∀ b ∈ blocks.head?, b < least) →
      Plain.read false least m rest = some found) :
    plain ⟨rest, m, ts, n, blocks, none, [], allowed⟩ =
      some ⟨found.rest, found.mark, .scalar .plain found.value.1 :: ts, n + 1, blocks,
        if allowed then some (keyHere blocks n m) else none, [], found.value.2⟩ := by
  have hread (key : Option Key) :
      Plain.read false (contentColumn ⟨rest, m, ts, n, blocks, key, [], allowed⟩) m rest =
        some found := by
    apply h
    cases blocks <;> simp [contentColumn]
  simp [plain, saveKey_eq, inFlow, hread, moveTo, emit]

/-- A scalar in double quotes is read, and may be a key if one may begin there. -/
theorem quoted_of_read {found : Reading Text}
    (h : Double.read (m.advance 1) rest = some found) :
    quoted .doubleQuoted Double.read ⟨'\x22' :: rest, m, ts, n, blocks, none, [], allowed⟩ =
      some ⟨found.rest, found.mark, .scalar .doubleQuoted found.value :: ts, n + 1, blocks,
        if allowed then some (keyHere blocks n m) else none, [], false⟩ := by
  simp [quoted, saveKey_eq, advance, h, moveTo, emit]

/-- Whether a key at a column lies further in than the open blocks. -/
def opens (column : Nat) (blocks : List Nat) : Bool :=
  blocks.head?.all (· < column)

/-- The blocks that are open behind a key at a column. -/
def opened (column : Nat) (blocks : List Nat) : List Nat :=
  if opens column blocks then column :: blocks else blocks

/-- The token in front of a key at a column, if it opens a block. -/
def opening (column : Nat) (blocks : List Nat) : List Token :=
  if opens column blocks then [.blockMapping] else []

theorem reverse_opening (column : Nat) (blocks : List Nat) :
    (opening column blocks).reverse = opening column blocks := by
  rw [opening]
  split <;> rfl

/-- No block is open but that of the whole text, whose keys stand in the first column. -/
def Outermost (blocks : List Nat) : Prop :=
  blocks = [] ∨ blocks = [0]

theorem Outermost.head?_le (h : Outermost blocks) (column : Nat) :
    ∀ b ∈ blocks.head?, b ≤ column := by
  rcases h with rfl | rfl <;> simp

theorem Outermost.opened_zero (h : Outermost blocks) : opened 0 blocks = [0] := by
  rcases h with rfl | rfl <;> rfl

theorem emitAt_append (front : List Token) (rest : Text) (m : Mark) (ts : List Token) (n : Nat)
    (blocks : List Nat) (key : Option Key) (allowed : Bool) (t : Token) :
    emitAt n t ⟨rest, m, front ++ ts, n + front.length, blocks, key, [], allowed⟩ =
      ⟨rest, m, front ++ t :: ts, n + front.length + 1, blocks, key, [], allowed⟩ := by
  have hbehind : n + front.length - n = front.length := Nat.add_sub_cancel_left ..
  simp [emitAt, hbehind]

theorem openBlock_append (front : List Token) (column : Nat) (rest : Text) (m : Mark)
    (ts : List Token) (n : Nat) (blocks : List Nat) (key : Option Key) (allowed : Bool) :
    ∃ n', openBlock column n .blockMapping
        ⟨rest, m, front ++ ts, n + front.length, blocks, key, [], allowed⟩ =
      ⟨rest, m, front ++ (opening column blocks ++ ts), n', opened column blocks, key, [],
        allowed⟩ := by
  have hcolumn : contentColumn ⟨rest, m, front ++ ts, n + front.length, blocks, key, [], allowed⟩ ≤
      column ↔ opens column blocks := by
    cases blocks with
    | nil => exact iff_of_true (Nat.zero_le _) rfl
    | cons b others => exact decide_eq_true_iff.symm
  rw [openBlock, emitAt_append]
  simp only [hcolumn, inFlow, opening, opened]
  cases opens column blocks
  · exact ⟨_, rfl⟩
  · exact ⟨_, rfl⟩

/-- The colon behind a key; the tokens in front of the key are put in. -/
theorem value_of_key (required : Bool) (mark m : Mark) (rest : Text) (t : Token) (ts : List Token)
    (n : Nat) (blocks : List Nat) :
    ∃ n', value ⟨':' :: rest, m, t :: ts, n + 1, blocks, some ⟨required, n, mark⟩, [], false⟩ =
      some ⟨rest, m.advance 1, .value :: t :: .key :: (opening mark.column blocks ++ ts), n',
        opened mark.column blocks, none, [], false⟩ := by
  -- The token for the key goes in front of the key, and the one for the block in front of both.
  have hkey := emitAt_append [t] (':' :: rest) m ts n blocks (some ⟨required, n, mark⟩) false .key
  obtain ⟨n', hopen⟩ := openBlock_append [t, .key] mark.column (':' :: rest) m ts n blocks
    (some ⟨required, n, mark⟩) false
  refine ⟨n' + 1, ?_⟩
  simp only [value, List.cons_append, List.nil_append, List.length_cons, List.length_nil,
    Nat.zero_add] at hkey hopen ⊢
  rw [hkey, hopen]
  rfl

/-! ### Lines -/

/-- A word in front of a colon is read. -/
theorem Yields.plainKey (h : word.IsWord) (htail : endsToken tail)
    (hblocks : ∀ b ∈ blocks.head?, b ≤ m.column)
    (hbehind : Yields ⟨':' :: tail, m.advance word.length, .scalar .plain word :: ts, n + 1, blocks,
      some (keyHere blocks n m), [], false⟩ r) :
    Yields ⟨word ++ ':' :: tail, m, ts, n, blocks, none, [], true⟩ r := by
  have hlt : (':' :: tail).length < (word ++ ':' :: tail).length := by
    rw [List.length_append]
    exact Nat.lt_add_of_pos_left (List.length_pos_of_ne_nil h.1)
  obtain ⟨c, word, rfl⟩ := List.exists_cons_of_ne_nil h.1
  have hc : isNameChar c := h.2 c List.mem_cons_self
  have hfirst := isFirst_of_isNameChar hc
  apply Yields.of_token (head?_ne_of_isFirst hfirst _) (skipFrom_of_isFirst hfirst _ _ _) rfl
    hblocks _ hlt hbehind
  rw [token_of_isNameChar hc]
  exact plain_of_read fun least _ => Plain.read_key h htail least m

/-- The colon behind a key that is not too long is read. -/
theorem Yields.colon {length : Nat} (hlength : length ≤ maxKey) (htail : endsToken tail)
    (hblocks : ∀ b ∈ blocks.head?, b ≤ m.column)
    (hbehind : ∀ n, Yields ⟨tail, m.advance (length + 1),
      .value :: t :: .key :: (opening m.column blocks ++ ts), n, opened m.column blocks, none, [],
      false⟩ r) :
    Yields ⟨':' :: tail, m.advance length, t :: ts, n + 1, blocks, some (keyHere blocks n m), [],
      false⟩ r := by
  have hnear : ¬ m.index + maxKey < m.index + length :=
    Nat.not_lt.mpr (Nat.add_le_add_left hlength _)
  have hfresh : freshKey (m.advance length) (some (keyHere blocks n m)) =
      some (some (keyHere blocks n m)) := by
    simp [freshKey, keyHere, Mark.advance, hnear]
  obtain ⟨n', hvalue⟩ := value_of_key (blocks.head? == some m.column) m (m.advance length) tail t ts
    n blocks
  have hcolon : isFirst ':' := by decide
  apply Yields.of_token (head?_ne_of_isFirst hcolon _) (skipFrom_of_isFirst hcolon _ _ _) hfresh
    (fun b hb => Nat.le_add_right_of_le (hblocks b hb)) _ _ (hbehind n')
  · rw [token_colon htail]
    exact hvalue
  · simp

/-- A key that is too long is none: either it had to be one, or the colon behind it stands where no
other key begins. -/
theorem yields_of_long {length : Nat} (hlength : maxKey < length) (htail : endsToken tail)
    (hblocks : ∀ b ∈ blocks.head?, b ≤ m.column) :
    Yields ⟨':' :: tail, m.advance length, ts, n, blocks, some (keyHere blocks k m), [], false⟩
      none := by
  have hfar : m.index + maxKey < m.index + length := Nat.add_lt_add_left hlength _
  have hcolon : isFirst ':' := by decide
  have hmark := head?_ne_of_isFirst hcolon tail
  have hskip := skipFrom_of_isFirst hcolon tail (m.advance length) false
  intro steps hsteps
  cases steps with
  | zero => exact absurd hsteps (Nat.not_lt_zero _)
  | succ steps =>
    cases hrequired : blocks.head? == some m.column
    · -- The key is given up, and no other may begin in front of the colon.
      have hfresh : freshKey (m.advance length) (some (keyHere blocks k m)) = some none := by
        simp [freshKey, keyHere, Mark.advance, hfar, hrequired]
      rw [run_succ hmark hskip hfresh fun b hb => Nat.le_add_right_of_le (hblocks b hb),
        token_colon htail]
      rfl
    · -- A key was required in this column, and giving it up is an error.
      rw [run, skip_eq hmark hskip]
      simp [dropStale, freshKey, keyHere, Mark.advance, hfar, hrequired]

/-- Whether a text ends or goes on at the beginning of a line. -/
def StartsLine (rest : Text) : Prop :=
  ∀ c ∈ rest.head?, isBreak c = false ∧ isGap c = false

/-- A word behind a colon is read, with the end of its line. -/
theorem Yields.plainValue (h : word.IsWord) (hblocks : blocks.head? = some 0)
    (hrest : StartsLine rest)
    (hbehind : ∀ m, m.column = 0 →
      Yields ⟨rest, m, .scalar .plain word :: ts, n + 1, blocks, none, [], true⟩ r) :
    Yields ⟨' ' :: (word ++ '\n' :: rest), m, ts, n, blocks, none, [], false⟩ r := by
  have hlt : rest.length < (' ' :: (word ++ '\n' :: rest)).length := by
    simp only [List.length_cons, List.length_append]
    omega
  obtain ⟨c, word, rfl⟩ := List.exists_cons_of_ne_nil h.1
  have hc : isNameChar c := h.2 c List.mem_cons_self
  have hfirst := isFirst_of_isNameChar hc
  apply Yields.of_token (head?_ne_of_ne (by decide) _) (skipFrom_blanks hfirst 1 _ _ _) rfl _ _ hlt
    (hbehind (((m.advance 1).advance (c :: word).length).newline 1) rfl)
  · intro b hb
    obtain rfl := Option.some.inj (hblocks.symm.trans hb)
    exact Nat.zero_le _
  · rw [token_of_isNameChar hc]
    exact plain_of_read fun least hleast =>
      Plain.read_value h (hleast 0 hblocks) (m.advance 1) hrest

/-- A line of two words is read. -/
theorem Yields.wordLine {line : Text × Text} (h : FitsLine line) (hm : m.column = 0)
    (hblocks : Outermost blocks) (hrest : StartsLine rest)
    (hbehind : ∀ n m, m.column = 0 → Yields ⟨rest, m,
      (wordTokens line).reverse ++ (opening 0 blocks ++ ts), n, [0], none, [], true⟩ r) :
    Yields ⟨Settings.yamlLine line.1 line.2 ++ rest, m, ts, n, blocks, none, [], true⟩ r := by
  have hle := hblocks.head?_le m.column
  rw [Settings.yamlLine_append]
  apply Yields.plainKey h.name rfl hle
  apply Yields.colon h.short rfl hle
  intro n
  rw [hm, hblocks.opened_zero]
  exact Yields.plainValue h.value rfl hrest fun m hm => hbehind _ m hm

/-! ### Lines in quotes -/

/-- A text in quotes at the beginning of a line is read. -/
theorem Yields.quotedKey (h : text.IsLegible) (hblocks : ∀ b ∈ blocks.head?, b ≤ indent)
    (hbehind : ∀ m, m.column = indent → Yields ⟨':' :: tail, m.advance (text.length + 2),
      .scalar .doubleQuoted text :: ts, n + 1, blocks, some (keyHere blocks n m), [], false⟩ r) :
    Yields ⟨'\n' :: (List.replicate indent ' ' ++ (Settings.enclosed text ++ ':' :: tail)), m, ts,
      n, blocks, none, [], allowed⟩ r := by
  have hquote : isFirst '\x22' := by decide
  rw [Settings.enclosed_append]
  have hlt : (':' :: tail).length < ('\n' :: (List.replicate indent ' ' ++
      '\x22' :: (text ++ '\x22' :: ':' :: tail))).length := by
    simp only [List.length_cons, List.length_append]
    omega
  have hcolumn : ((m.newline 1).advance indent).column = indent := Nat.zero_add _
  have hread : Double.read (((m.newline 1).advance indent).advance 1)
      (text ++ '\x22' :: ':' :: tail) = some ⟨text, _, ':' :: tail⟩ :=
    Double.read_enclosed h (Nat.succ_pos _) (':' :: tail)
  have hnext := hbehind ((m.newline 1).advance indent) hcolumn
  apply Yields.of_token (head?_ne_of_ne (by decide) _) (skipFrom_line hquote indent _ _ _) rfl _ _
    hlt hnext
  · rwa [hcolumn]
  · rw [token_quote, quoted_of_read hread, advance_advance, Nat.add_comm 1]
    rfl

/-- A text in quotes behind a colon is read. -/
theorem Yields.quotedValue (h : text.IsLegible) (hblocks : ∀ b ∈ blocks.head?, b ≤ m.column)
    (hbehind : ∀ m, Yields ⟨tail, m, .scalar .doubleQuoted text :: ts, n + 1, blocks, none, [],
      false⟩ r) :
    Yields ⟨' ' :: (Settings.enclosed text ++ tail), m, ts, n, blocks, none, [], false⟩ r := by
  have hquote : isFirst '\x22' := by decide
  rw [Settings.enclosed_append]
  have hlt : tail.length < (' ' :: '\x22' :: (text ++ '\x22' :: tail)).length := by
    simp only [List.length_cons, List.length_append]
    omega
  have hread : Double.read ((m.advance 1).advance 1) (text ++ '\x22' :: tail) =
      some ⟨text, _, tail⟩ :=
    Double.read_enclosed h (Nat.succ_pos _) tail
  apply Yields.of_token (head?_ne_of_ne (by decide) _) (skipFrom_blanks hquote 1 _ _ _) rfl _ _ hlt
    (hbehind (((m.advance 1).advance 1).advance (text.length + 1)))
  · exact fun b hb => Nat.le_add_right_of_le (hblocks b hb)
  · rw [token_quote]
    exact quoted_of_read hread

/-- A line of two texts in quotes is read. -/
theorem Yields.quotedLine {line : Text × Text} (h : FitsBlock line) (hindent : 0 < indent)
    (hblocks : blocks = [0] ∨ blocks = [indent, 0])
    (hbehind : ∀ n m, Yields ⟨'\n' :: rest, m,
      (quotedTokens line).reverse ++ (opening indent blocks ++ ts), n, [indent, 0], none, [],
      false⟩ r) :
    Yields ⟨'\n' :: (List.replicate indent ' ' ++
        Settings.yamlLine (Settings.enclosed line.1) (Settings.enclosed line.2) ++ rest), m, ts, n,
      blocks, none, [], allowed⟩ r := by
  have hle : ∀ b ∈ blocks.head?, b ≤ indent := by
    rcases hblocks with rfl | rfl <;> simp
  have hopened : opened indent blocks = [indent, 0] := by
    rcases hblocks with rfl | rfl <;> simp [opened, opens, hindent]
  rw [List.append_assoc, Settings.yamlLine_append]
  apply Yields.quotedKey h.name hle
  intro m hm
  apply Yields.colon h.short rfl (by rwa [hm])
  intro n
  rw [hm, hopened]
  apply Yields.quotedValue h.value _ fun m => hbehind _ m
  simp [Mark.advance, hm]

/-! ### The end -/

/-- Closing blocks adds a token for each. -/
theorem exists_closeAll (blocks : List Nat) (rest : Text) (m : Mark) (ts : List Token) (n : Nat)
    (present : List Nat) (key : Option Key) (allowed : Bool) :
    ∃ n', closeAll blocks ⟨rest, m, ts, n, present, key, [], allowed⟩ =
      ⟨rest, m, List.replicate blocks.length .blockEnd ++ ts, n', [], key, [], allowed⟩ := by
  induction blocks generalizing ts n with
  | nil => exact ⟨n, rfl⟩
  | cons b blocks ih =>
    obtain ⟨n', hclose⟩ := ih (.blockEnd :: ts) (n + 1)
    refine ⟨n', hclose.trans ?_⟩
    rw [List.length_cons, List.replicate_succ', List.append_assoc, List.singleton_append]

/-- A column closes the innermost blocks, as many as there are beyond it. -/
theorem exists_closeBeyond (column : Nat) (blocks : List Nat) (rest : Text) (m : Mark)
    (ts : List Token) (n : Nat) (present : List Nat) (key : Option Key) (allowed : Bool) :
    ∃ k ≤ blocks.length, ∃ n',
      closeBeyond column blocks ⟨rest, m, ts, n, present, key, [], allowed⟩ =
        ⟨rest, m, List.replicate k .blockEnd ++ ts, n', blocks.drop k, key, [], allowed⟩ := by
  induction blocks generalizing ts n with
  | nil => exact ⟨0, Nat.le_refl 0, n, rfl⟩
  | cons b blocks ih =>
    by_cases hbeyond : column < b
    · obtain ⟨k, hk, n', hclose⟩ := ih (.blockEnd :: ts) (n + 1)
      refine ⟨k + 1, Nat.succ_le_succ hk, n', ?_⟩
      rw [closeBeyond, if_pos hbeyond, List.replicate_succ', List.append_assoc,
        List.singleton_append]
      exact hclose
    · exact ⟨0, Nat.zero_le _, n, by rw [closeBeyond, if_neg hbeyond]; rfl⟩

/-- At the end of the text every open block is closed, be it for its column or for the end. -/
theorem yields_of_end {m' : Mark} {allowed' : Bool} (hmark : rest.head? ≠ some byteOrderMark)
    (hskip : skipFrom false false allowed m rest = (allowed', m', [])) :
    Yields ⟨rest, m, ts, n, blocks, none, [], allowed⟩
      (some (ts.reverse ++ List.replicate blocks.length .blockEnd)) := by
  have hstale : dropStale ⟨[], m', ts, n, blocks, none, [], allowed'⟩ =
      some ⟨[], m', ts, n, blocks, none, [], allowed'⟩ := rfl
  -- The column closes some of the blocks, and the end closes the others.
  obtain ⟨k, hk, n', hbeyond⟩ := exists_closeBeyond m'.column blocks [] m' ts n blocks none allowed'
  obtain ⟨n', hall⟩ := exists_closeAll (blocks.drop k) [] m' (List.replicate k .blockEnd ++ ts) n'
    (blocks.drop k) none allowed'
  have hcount : k + (blocks.length - k) = blocks.length := Nat.add_sub_cancel' hk
  intro steps hsteps
  cases steps with
  | zero => exact absurd hsteps (Nat.not_lt_zero _)
  | succ steps =>
    rw [run, skip_eq hmark hskip, hstale]
    simp [closeTo, inFlow, hbeyond, finish, closeBlocks, hall, hcount, dropKey]

/-- Lines in quotes are read, one after the other, up to the end of the text. -/
theorem yields_quotedLines (hvars : ∀ v ∈ vars, FitsBlock v) (hindent : 0 < indent) (m : Mark)
    (ts : List Token) (n : Nat) :
    Yields ⟨'\n' :: vars.flatMap (fun v => List.replicate indent ' ' ++
        Settings.yamlLine (Settings.enclosed v.1) (Settings.enclosed v.2)), m, ts, n, [indent, 0],
      none, [], false⟩
      (some (ts.reverse ++ (vars.flatMap quotedTokens ++ [.blockEnd, .blockEnd]))) := by
  induction vars generalizing m ts n with
  | nil =>
    have hmark : ['\n'].head? ≠ some byteOrderMark := by decide
    exact yields_of_end hmark rfl
  | cons v vars ih =>
    obtain ⟨hv, hvars⟩ := List.forall_mem_cons.mp hvars
    rw [List.flatMap_cons]
    apply Yields.quotedLine hv hindent (.inr rfl)
    intro n m
    have hnext := ih hvars m ((quotedTokens v).reverse ++ ts) n
    simpa [opening, opens] using hnext

/-- Variables are read, with the line that they stand below. -/
theorem yields_block (hvars : ∀ v ∈ vars, FitsBlock v) (hne : vars ≠ []) (hindent : 0 < indent)
    (hblocks : Outermost blocks) (hm : m.column = 0) :
    Yields ⟨Settings.Field.env.name ++ ":\n".toList ++ vars.flatMap (fun v =>
        List.replicate indent ' ' ++
          Settings.yamlLine (Settings.enclosed v.1) (Settings.enclosed v.2)), m, ts, n, blocks,
      none, [], true⟩
      (some (ts.reverse ++ (opening 0 blocks ++ (blockTokens vars ++ [.blockEnd])))) := by
  obtain ⟨v, vars, rfl⟩ := List.exists_cons_of_ne_nil hne
  obtain ⟨hv, hvars⟩ := List.forall_mem_cons.mp hvars
  have hle := hblocks.head?_le m.column
  rw [List.append_assoc]
  apply Yields.plainKey (Settings.isWord_name .env) rfl hle
  apply Yields.colon (by decide) rfl hle
  intro n
  rw [hm, hblocks.opened_zero, List.flatMap_cons]
  apply Yields.quotedLine hv hindent (.inl rfl)
  intro n m
  -- The tokens are kept backward; of those for a block there is one at most.
  have htokens : ((quotedTokens v).reverse ++ (opening indent [0] ++ .value ::
        .scalar .plain Settings.Field.env.name :: .key :: (opening 0 blocks ++ ts))).reverse ++
        (vars.flatMap quotedTokens ++ [.blockEnd, .blockEnd]) =
      ts.reverse ++ (opening 0 blocks ++ (blockTokens (v :: vars) ++ [.blockEnd])) := by
    have hopening : opening indent [0] = [.blockMapping] := by simp [opening, opens, hindent]
    simp [reverse_opening, hopening, blockTokens]
  rw [← htokens]
  exact yields_quotedLines hvars hindent m _ n

/-! ### Documents -/

theorem startsLine_toYaml (hlines : ∀ l ∈ lines, l.1.IsWord) (indent : Nat)
    (vars : List (Text × Text)) : StartsLine (Settings.toYaml indent lines vars) := by
  have hhead {c : Char} (hc : isNameChar c) : isBreak c = false ∧ isGap c = false :=
    ⟨isBreak_of_isLegible (isLegible_of_isNameChar hc), isGap_of_isNameChar hc⟩
  intro d hd
  cases lines with
  | nil =>
    by_cases hne : vars = []
    · simp [Settings.toYaml, hne] at hd
    · rw [Settings.toYaml, if_neg hne] at hd
      obtain rfl : 'e' = d := Option.some.inj hd
      exact hhead rfl
  | cons l lines =>
    obtain ⟨hne, hchars⟩ := hlines l List.mem_cons_self
    obtain ⟨c, word, hl⟩ := List.exists_cons_of_ne_nil hne
    obtain rfl : c = d := by simpa [Settings.toYaml, Settings.yamlLine, hl] using hd
    exact hhead (hchars c (by simp [hl]))

/-- The tokens of lines and variables, where some blocks are open already. -/
def tokensFrom (blocks : List Nat) (lines vars : List (Text × Text)) : List Token :=
  if lines = [] ∧ vars = [] then List.replicate blocks.length .blockEnd
  else opening 0 blocks ++ lines.flatMap wordTokens ++ blockTokens vars ++ [.blockEnd]

theorem tokensFrom_zero (lines vars : List (Text × Text)) :
    tokensFrom [0] lines vars = lines.flatMap wordTokens ++ blockTokens vars ++ [.blockEnd] := by
  rw [tokensFrom]
  split
  next h => simp [h.1, h.2, blockTokens]
  · rfl

/-- Lines and the variables below them are read to the end of the text. -/
theorem yields_toYaml (hlines : ∀ l ∈ lines, FitsLine l) (hvars : ∀ v ∈ vars, FitsBlock v)
    (hindent : 0 < indent) (hblocks : Outermost blocks) (hm : m.column = 0)
    (ts : List Token) (n : Nat) :
    Yields ⟨Settings.toYaml indent lines vars, m, ts, n, blocks, none, [], true⟩
      (some (ts.reverse ++ tokensFrom blocks lines vars)) := by
  -- The first line opens a block, and the lines behind it stand in that block.
  induction lines generalizing blocks m ts n with
  | nil =>
    by_cases hne : vars = []
    · subst hne
      have hmark : ([] : Text).head? ≠ some byteOrderMark := by decide
      exact yields_of_end hmark rfl
    · simp only [Settings.toYaml, tokensFrom, hne, List.flatMap_nil, List.nil_append,
        List.append_nil, List.append_assoc, if_false, and_false]
      exact yields_block hvars hne hindent hblocks hm
  | cons l lines ih =>
    obtain ⟨hl, hlines⟩ := List.forall_mem_cons.mp hlines
    have hnext := startsLine_toYaml (fun l hl => (hlines l hl).name) indent vars
    rw [Settings.toYaml_cons]
    apply Yields.wordLine hl hm hblocks hnext
    intro n m hm
    have htokens : ((wordTokens l).reverse ++ (opening 0 blocks ++ ts)).reverse ++
        tokensFrom [0] lines vars = ts.reverse ++ tokensFrom blocks (l :: lines) vars := by
      rw [tokensFrom_zero, tokensFrom, if_neg (by simp)]
      simp [reverse_opening]
    rw [← htokens]
    exact ih hlines (.inr rfl) hm _ n

/-- A line whose name is too long for a key is not read, whatever lines stand above it. -/
theorem yields_of_longLine {above : List (Text × Text)} {line : Text × Text}
    (habove : ∀ l ∈ above, FitsLine l) (hname : line.1.IsWord) (hlong : maxKey < line.1.length)
    (hlines : ∀ l ∈ lines, l.1.IsWord)
    (hblocks : Outermost blocks) (hm : m.column = 0) (ts : List Token) (n : Nat) :
    Yields ⟨Settings.toYaml indent (above ++ line :: lines) vars, m, ts, n, blocks, none, [], true⟩
      none := by
  induction above generalizing blocks m ts n with
  | nil =>
    have hle := hblocks.head?_le m.column
    rw [List.nil_append, Settings.toYaml_cons, Settings.yamlLine_append]
    exact Yields.plainKey hname rfl hle (yields_of_long hlong rfl hle)
  | cons l above ih =>
    obtain ⟨hl, habove⟩ := List.forall_mem_cons.mp habove
    have hwords : ∀ l ∈ above ++ line :: lines, l.1.IsWord := by
      refine List.forall_mem_append.mpr ⟨fun l hl => (habove l hl).name, ?_⟩
      exact List.forall_mem_cons.mpr ⟨hname, hlines⟩
    rw [List.cons_append, Settings.toYaml_cons]
    apply Yields.wordLine hl hm hblocks (startsLine_toYaml hwords indent vars)
    exact fun n m hm => ih habove (.inr rfl) hm _ n

end State

/-- A text without other characters than those of ASCII is read from its beginning. -/
theorem tokens?_of_yields {r : Option (List Token)} (h : text.IsTyped)
    (hyields : State.Yields (.start text) r) : tokens? text = r := by
  have hmark : after? [byteOrderMark] text = none := after?_eq_none (h.head?_ne (by decide))
  have hadmitted : text.all isAdmitted := by
    rw [List.all_eq_true]
    intro c hc
    have htyped := h c hc
    simp only [isTyped, Bool.or_eq_true, Bool.and_eq_true, beq_iff_eq, decide_eq_true_eq] at htyped
    rcases htyped with rfl | ⟨hleast, hgreatest⟩
    · rfl
    · have hleast : 0x20 ≤ c.toNat := hleast
      have hgreatest : c.toNat ≤ 0x7e := hgreatest
      simp [isAdmitted, hleast, hgreatest]
  rw [tokens?, hmark, Option.getD_none, if_pos hadmitted]
  exact hyields _ (Nat.lt_succ_self _)

/-- The tokens of lines and variables. -/
theorem tokens?_toYaml (hlines : ∀ l ∈ lines, FitsLine l) (hvars : ∀ v ∈ vars, FitsBlock v)
    (hindent : 0 < indent) :
    tokens? (Settings.toYaml indent lines vars) = some (State.tokensFrom [] lines vars) := by
  apply tokens?_of_yields
  · exact Settings.isTyped_toYaml (fun l hl => ⟨(hlines l hl).name, (hlines l hl).value⟩)
      (fun v hv => ⟨(hvars v hv).name, (hvars v hv).value⟩) indent
  · exact State.yields_toYaml hlines hvars hindent (.inl rfl) rfl [] 0

/-- A name that is too long for a key, wherever it stands among the lines, ends the reading. -/
theorem tokens?_eq_none_of_long {above below : List (Text × Text)} {line : Text × Text}
    (habove : ∀ l ∈ above, FitsLine l) (hbelow : ∀ l ∈ below, FitsLine l)
    (hvars : ∀ v ∈ vars, FitsBlock v) (hname : line.1.IsWord) (hvalue : line.2.IsWord)
    (hlong : State.maxKey < line.1.length) (indent : Nat) :
    tokens? (Settings.toYaml indent (above ++ line :: below) vars) = none := by
  apply tokens?_of_yields
  · refine Settings.isTyped_toYaml (List.forall_mem_append.mpr ⟨?_, List.forall_mem_cons.mpr
      ⟨⟨hname, hvalue⟩, ?_⟩⟩) (fun v hv => ⟨(hvars v hv).name, (hvars v hv).value⟩) indent
    · exact fun l hl => ⟨(habove l hl).name, (habove l hl).value⟩
    · exact fun l hl => ⟨(hbelow l hl).name, (hbelow l hl).value⟩
  · exact State.yields_of_longLine habove hname hlong (fun l hl => (hbelow l hl).name) (.inl rfl)
      rfl [] 0

end Golden.Yaml
