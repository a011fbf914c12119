import Golden.Proofs.Naming
import Golden.Settings
import Mathlib.Data.List.Infix

/-!
# The grammar of values

A value that refers to variables is written as texts with references between them. A text may hold
anything but the two characters that open a reference, and a name anything but the brace that
closes it. No value is written in two ways, and a value that is not written in this way is one
that opens a reference behind such a beginning and never closes it. Expansion puts the values of the
names where the references stand and changes nothing else.

## Main definitions

* `Template.Segment` — a text and the reference behind it
* `Template.Phrase` — segments, and the text behind the last of them
* `Template.Phrase.written` — the value that is written so
* `Template.Phrase.filled` — what it says if the names have values
* `Template.IsUnterminated` — a value opens a reference and does not close it
* `Settings.lookup` — what a name means while variables are expanded

## Main results

* `Template.pieces_segments` — the pieces of segments come first, whatever is behind them
* `Template.written_injective` — no value is written in two ways
* `Template.not_isUnterminated_iff` — a value is written in one way, or it is unterminated
* `Settings.expandFrom_follows_grammar` — what a variable expands to
-/

namespace Golden

namespace Template

/-! ### Writing values -/

/-- The two characters that open a reference. -/
def opening : Text := ['$', '\x7b']

/-- A text opens no reference. -/
def IsPlain (text : Text) : Prop :=
  ¬ opening <:+: text

instance (text : Text) : Decidable (IsPlain text) :=
  inferInstanceAs (Decidable (¬ opening <:+: text))

/-- A text that opens no reference, and the name in the reference behind it. -/
@[ext]
structure Segment where
  text : Text
  name : Text
  plain : IsPlain text
  closes : '\x7d' ∉ name

/-- Texts with references between them. -/
@[ext]
structure Phrase where
  segments : List Segment
  /-- The text behind the last reference. -/
  last : Text
  plain : IsPlain last

/-- A text and the reference behind it, as they are written. -/
def Segment.written (s : Segment) : Text :=
  s.text ++ opening ++ s.name ++ ['\x7d']

/-- The value that is written so. -/
def Phrase.written (p : Phrase) : Text :=
  p.segments.flatMap Segment.written ++ p.last

/-- A text and the value of the name behind it. -/
def Segment.filled (v : Text → Text) (s : Segment) : Text :=
  s.text ++ v s.name

/-- The texts with the values of the names between them. -/
def Phrase.filled (v : Text → Text) (p : Phrase) : Text :=
  p.segments.flatMap (Segment.filled v) ++ p.last

/-- A value opens a reference behind texts and references, and no brace behind it closes it. -/
def IsUnterminated (value : Text) : Prop :=
  ∃ (p : Phrase) (rest : Text), '\x7d' ∉ rest ∧ value = p.written ++ opening ++ rest

/-- The pieces of a text and the reference behind it. -/
def Segment.pieces (s : Segment) : List Piece :=
  s.text.map .plain ++ [.reference s.name]

variable {value? : Text → Option Text} {v : Text → Text} {text name after rest more value : Text}
  {c : Char} {s : Segment} {ss ss' : List Segment} {p : Phrase} {ps qs : List Piece}

theorem opening_isPrefix_cons_iff : opening <+: c :: text ↔ c = '$' ∧ text.head? = some '\x7b' := by
  rw [opening, List.cons_prefix_cons, eq_comm]
  cases text with
  | nil => simp
  | cons d text => simp [List.cons_prefix_cons, eq_comm]

theorem isPlain_nil : IsPlain [] := by decide

theorem isPlain_cons_iff : IsPlain (c :: text) ↔ ¬ opening <+: c :: text ∧ IsPlain text := by
  rw [IsPlain, List.infix_cons_iff, not_or, IsPlain]

/-! ### The pieces of what is written -/

/-- A reference is closed by the first brace behind its name. -/
theorem closing_append (h : '\x7d' ∉ name) (after : Text) :
    closing (name ++ '\x7d' :: after) = some (name, after) := by
  induction name with
  | nil => simp [closing]
  | cons c name ih =>
    rw [List.mem_cons, not_or] at h
    obtain ⟨hc, hname⟩ := h
    rw [List.cons_append, closing, if_neg (Ne.symm hc), ih hname, Option.map_some]

theorem eq_append_of_closing (h : closing text = some (name, after)) :
    text = name ++ '\x7d' :: after ∧ '\x7d' ∉ name := by
  induction text generalizing name with
  | nil => simp [closing] at h
  | cons c text ih =>
    rw [closing] at h
    split at h
    next hc =>
      obtain ⟨rfl, rfl⟩ := Prod.mk.inj (Option.some.inj h)
      exact ⟨by rw [hc, List.nil_append], List.not_mem_nil⟩
    next hc =>
      obtain ⟨⟨name', after'⟩, hclosing, heq⟩ := Option.map_eq_some_iff.mp h
      obtain ⟨rfl, rfl⟩ := Prod.mk.inj heq
      obtain ⟨rfl, hname⟩ := ih hclosing
      exact ⟨rfl, List.not_mem_cons_of_ne_of_not_mem (Ne.symm hc) hname⟩

theorem closing_eq_none_iff : closing text = none ↔ '\x7d' ∉ text := by
  induction text with
  | nil => simp [closing]
  | cons c text ih =>
    rw [closing]
    split
    next hc => simp [hc]
    next hc => simp [ih, hc, eq_comm]

theorem pieces_opening_of_none (h : closing text = none) :
    pieces (opening ++ text) = [.unclosed text] := by
  rw [opening, List.cons_append, List.singleton_append, pieces, if_pos ⟨rfl, rfl⟩]
  split
  · rfl
  next hclosing => simp [h] at hclosing

theorem pieces_opening_of_some (h : closing text = some (name, after)) :
    pieces (opening ++ text) = .reference name :: pieces after := by
  rw [opening, List.cons_append, List.singleton_append, pieces, if_pos ⟨rfl, rfl⟩]
  split
  next hclosing => simp [h] at hclosing
  next hclosing =>
    obtain ⟨rfl, rfl⟩ := Prod.mk.inj (Option.some.inj (h.symm.trans hclosing))
    rfl

/-- A character that does not begin the opening of a reference is a piece of its own. -/
theorem pieces_cons (h : ¬ opening <+: c :: text) :
    pieces (c :: text) = .plain c :: pieces text := by
  cases text with
  | nil => simp [pieces]
  | cons d text =>
    rw [opening_isPrefix_cons_iff] at h
    have hopen : ¬ (c = '$' ∧ d = '\x7b') := by simpa using h
    rw [pieces, if_neg hopen]

/-- The pieces of a text that opens no reference are its characters, and what is behind it is read
by itself. The text may end in a dollar sign, so that no brace may stand right behind it. -/
theorem pieces_append_of_isPlain (h : IsPlain text) (hmore : more.head? ≠ some '\x7b') :
    pieces (text ++ more) = text.map .plain ++ pieces more := by
  induction text with
  | nil => rfl
  | cons c text ih =>
    obtain ⟨hopen, htext⟩ := isPlain_cons_iff.mp h
    have hopen' : ¬ opening <+: c :: (text ++ more) := by
      rw [opening_isPrefix_cons_iff] at hopen ⊢
      cases text with
      | nil => exact fun hopen' => hmore hopen'.2
      | cons d text => exact hopen
    rw [List.cons_append, pieces_cons hopen', ih htext]
    rfl

theorem pieces_append_opening (h : IsPlain text) (more : Text) :
    pieces (text ++ (opening ++ more)) = text.map .plain ++ pieces (opening ++ more) :=
  pieces_append_of_isPlain h (by simp [opening])

/-- The pieces of a text that opens no reference are its characters. -/
theorem pieces_of_isPlain (h : IsPlain text) : pieces text = text.map .plain := by
  have hnil : ([] : Text).head? ≠ some '\x7b' := by simp
  simpa [pieces] using pieces_append_of_isPlain h hnil

/-- The pieces of a segment come first, whatever is behind it. -/
theorem pieces_segment (s : Segment) (more : Text) :
    pieces (s.written ++ more) = s.pieces ++ pieces more := by
  have hwritten : s.written ++ more =
      s.text ++ (opening ++ (s.name ++ '\x7d' :: more)) := by
    simp [Segment.written]
  have hreference := pieces_opening_of_some (closing_append s.closes more)
  rw [hwritten, pieces_append_opening s.plain, hreference, Segment.pieces, List.append_assoc,
    List.singleton_append]

/-- The pieces of segments come first, whatever is behind them. -/
theorem pieces_segments (ss : List Segment) (more : Text) :
    pieces (ss.flatMap Segment.written ++ more) = ss.flatMap Segment.pieces ++ pieces more := by
  induction ss with
  | nil => rfl
  | cons s ss ih =>
    rw [List.flatMap_cons, List.append_assoc, pieces_segment, ih, List.flatMap_cons,
      List.append_assoc]

theorem pieces_written (p : Phrase) :
    pieces p.written = p.segments.flatMap Segment.pieces ++ p.last.map .plain := by
  rw [Phrase.written, pieces_segments, pieces_of_isPlain p.plain]

theorem pieces_unterminated (p : Phrase) (h : '\x7d' ∉ rest) :
    pieces (p.written ++ opening ++ rest) =
      p.segments.flatMap Segment.pieces ++ (p.last.map .plain ++ [.unclosed rest]) := by
  have hunclosed := pieces_opening_of_none (closing_eq_none_iff.mpr h)
  rw [Phrase.written, List.append_assoc _ opening, List.append_assoc, pieces_segments,
    pieces_append_opening p.plain, hunclosed]

/-! ### The only way to write a value -/

theorem map_plain_append_reference_inj {text' name' : Text}
    (h : text.map .plain ++ .reference name :: ps = text'.map .plain ++ .reference name' :: qs) :
    text = text' ∧ name = name' ∧ ps = qs := by
  induction text generalizing text' with
  | nil =>
    cases text' with
    | nil => simpa using h
    | cons c text' => simp at h
  | cons c text ih =>
    cases text' with
    | nil => simp at h
    | cons c' text' =>
      simp only [List.map_cons, List.cons_append, List.cons.injEq, Piece.plain.injEq] at h
      obtain ⟨rfl, hrest⟩ := h
      obtain ⟨rfl, hname, hps⟩ := ih hrest
      exact ⟨rfl, hname, hps⟩

/-- Pieces tell the segments and the text behind them. -/
theorem flatMap_pieces_inj {last last' : Text}
    (h : ss.flatMap Segment.pieces ++ last.map .plain =
      ss'.flatMap Segment.pieces ++ last'.map .plain) : ss = ss' ∧ last = last' := by
  induction ss generalizing ss' with
  | nil =>
    cases ss' with
    | nil =>
      refine ⟨rfl, List.map_injective_iff.mpr ?_ h⟩
      intro c d hcd
      exact Piece.plain.inj hcd
    | cons s' ss' =>
      have hmem : .reference s'.name ∈ [].flatMap Segment.pieces ++ last.map Piece.plain := by
        rw [h]
        simp [Segment.pieces]
      simp at hmem
  | cons s ss ih =>
    cases ss' with
    | nil =>
      have hmem : .reference s.name ∈ [].flatMap Segment.pieces ++ last'.map Piece.plain := by
        rw [← h]
        simp [Segment.pieces]
      simp at hmem
    | cons s' ss' =>
      simp only [List.flatMap_cons, Segment.pieces, List.append_assoc, List.singleton_append] at h
      obtain ⟨htext, hname, hrest⟩ := map_plain_append_reference_inj h
      obtain ⟨rfl, hlast⟩ := ih hrest
      have hsegment : s = s' := Segment.ext htext hname
      exact ⟨by rw [hsegment], hlast⟩

/-- No value is written in two ways. -/
theorem written_injective : Function.Injective Phrase.written := by
  intro p q h
  have hpieces := congrArg pieces h
  rw [pieces_written, pieces_written] at hpieces
  obtain ⟨hsegments, hlast⟩ := flatMap_pieces_inj hpieces
  exact Phrase.ext hsegments hlast

theorem unclosed_notMem_pieces_written (p : Phrase) (rest : Text) :
    .unclosed rest ∉ pieces p.written := by
  rw [pieces_written]
  simp [Segment.pieces]

theorem not_isUnterminated_written (p : Phrase) : ¬ IsUnterminated p.written := by
  rintro ⟨q, rest, hrest, h⟩
  apply unclosed_notMem_pieces_written p rest
  rw [h, pieces_unterminated q hrest]
  simp

/-- A character in front of what is written is a part of its first text, unless it opens a reference
with that text. -/
theorem exists_written_cons (p : Phrase) (h : ¬ opening <+: c :: p.written) :
    ∃ q : Phrase, q.written = c :: p.written := by
  obtain ⟨segments, last, plain⟩ := p
  cases segments with
  | nil => exact ⟨⟨[], c :: last, isPlain_cons_iff.mpr ⟨h, plain⟩⟩, rfl⟩
  | cons s segments =>
    have htext : IsPlain (c :: s.text) := by
      refine isPlain_cons_iff.mpr ⟨fun hopen => h (hopen.trans ?_), s.plain⟩
      simp [Phrase.written, Segment.written]
    exact ⟨⟨⟨c :: s.text, s.name, htext, s.closes⟩ :: segments, last, plain⟩, rfl⟩

/-- Every value is written in some way, up to a reference that is not closed. -/
theorem exists_written_append (value : Text) :
    ∃ (p : Phrase) (tail : Text), value = p.written ++ tail ∧
      (tail = [] ∨ ∃ rest, '\x7d' ∉ rest ∧ tail = opening ++ rest) := by
  -- Induction along the pieces: a reference becomes a segment in front, and a character is put in
  -- front of the first text, for which it must not open a reference with what is behind it.
  induction value using pieces.induct with
  | case1 => exact ⟨⟨[], [], isPlain_nil⟩, [], rfl, .inl rfl⟩
  | case2 c =>
    have hc : IsPlain [c] := by simp [isPlain_cons_iff, opening_isPrefix_cons_iff, isPlain_nil]
    exact ⟨⟨[], [c], hc⟩, [], rfl, .inl rfl⟩
  | case3 c d rest hopen hclosing =>
    obtain ⟨rfl, rfl⟩ := hopen
    have hrest := closing_eq_none_iff.mp hclosing
    exact ⟨⟨[], [], isPlain_nil⟩, opening ++ rest, rfl, .inr ⟨rest, hrest, rfl⟩⟩
  | case4 c d rest hopen name after hclosing ih =>
    obtain ⟨rfl, rfl⟩ := hopen
    obtain ⟨rfl, hname⟩ := eq_append_of_closing hclosing
    obtain ⟨⟨segments, last, plain⟩, tail, rfl, htail⟩ := ih
    refine ⟨⟨⟨[], name, isPlain_nil, hname⟩ :: segments, last, plain⟩, tail, ?_, htail⟩
    simp [Phrase.written, Segment.written, opening]
  | case5 c d rest hopen ih =>
    obtain ⟨p, tail, hvalue, htail⟩ := ih
    have hc : ¬ opening <+: c :: p.written := by
      intro hprefix
      have hlonger : opening <+: c :: d :: rest := by
        rw [hvalue]
        exact hprefix.trans (List.prefix_append (c :: p.written) tail)
      obtain ⟨hdollar, hbrace⟩ := opening_isPrefix_cons_iff.mp hlonger
      exact hopen ⟨hdollar, Option.some.inj hbrace⟩
    obtain ⟨q, hq⟩ := exists_written_cons p hc
    exact ⟨q, tail, by rw [hvalue, hq, List.cons_append], htail⟩

/-- **A value is written in exactly one way, or it is unterminated.** -/
theorem not_isUnterminated_iff : ¬ IsUnterminated value ↔ ∃! p : Phrase, p.written = value := by
  constructor
  · intro h
    obtain ⟨p, tail, rfl, rfl | ⟨rest, hrest, rfl⟩⟩ := exists_written_append value
    · rw [List.append_nil]
      exact ⟨p, rfl, fun q hq => written_injective hq⟩
    · exact absurd ⟨p, rest, hrest, (List.append_assoc _ _ _).symm⟩ h
  · rintro ⟨p, rfl, -⟩
    exact not_isUnterminated_written p

/-! ### Putting values in -/

/-- Texts that are put in front one after the other are put in front together. -/
theorem map_append_map_append (x : Except Flaw Text) (a b : Text) :
    (x.map (b ++ ·)).map (a ++ ·) = x.map (a ++ b ++ ·) := by
  cases x with
  | error flaw => rfl
  | ok t => exact congrArg Except.ok (List.append_assoc a b t).symm

theorem map_nil_append (x : Except Flaw Text) : x.map ([] ++ ·) = x := by
  cases x with
  | error flaw => rfl
  | ok t => rfl

theorem fill_map_plain_append (value? : Text → Option Text) (text : Text) (ps : List Piece) :
    fill value? (text.map .plain ++ ps) = (fill value? ps).map (text ++ ·) := by
  induction text with
  | nil => exact (map_nil_append _).symm
  | cons c text ih =>
    rw [List.map_cons, List.cons_append, fill, ih]
    exact map_append_map_append _ [c] text

theorem fill_segment_of_some (h : value? s.name = some (v s.name)) (ps : List Piece) :
    fill value? (s.pieces ++ ps) = (fill value? ps).map (s.filled v ++ ·) := by
  rw [Segment.pieces, List.append_assoc, fill_map_plain_append, List.singleton_append, fill, h]
  exact map_append_map_append _ s.text (v s.name)

theorem fill_segment_of_none (h : value? s.name = none) (ps : List Piece) :
    fill value? (s.pieces ++ ps) = .error (.unset s.name) := by
  rw [Segment.pieces, List.append_assoc, fill_map_plain_append, List.singleton_append, fill, h]
  rfl

theorem fill_segments (h : ∀ s ∈ ss, value? s.name = some (v s.name)) (ps : List Piece) :
    fill value? (ss.flatMap Segment.pieces ++ ps) =
      (fill value? ps).map (ss.flatMap (Segment.filled v) ++ ·) := by
  induction ss with
  | nil => exact (map_nil_append _).symm
  | cons s ss ih =>
    obtain ⟨hs, hss⟩ := List.forall_mem_cons.mp h
    rw [List.flatMap_cons, List.append_assoc, fill_segment_of_some hs, ih hss,
      map_append_map_append, List.flatMap_cons]

/-- If all names have values, expansion puts them in. -/
theorem expand_written (h : ∀ s ∈ p.segments, value? s.name = some (v s.name)) :
    expand value? p.written = .ok (p.filled v) := by
  have hlast : fill value? (p.last.map .plain ++ []) = .ok (p.last ++ []) :=
    fill_map_plain_append value? p.last []
  rw [List.append_nil, List.append_nil] at hlast
  rw [expand, pieces_written, fill_segments h, hlast]
  rfl

/-- If all names have values, a reference that is not closed is the flaw of a value. -/
theorem expand_unterminated (h : ∀ s ∈ p.segments, value? s.name = some (v s.name))
    (hrest : '\x7d' ∉ rest) : expand value? (p.written ++ opening ++ rest) = .error .unclosed := by
  rw [expand, pieces_unterminated p hrest, fill_segments h, fill_map_plain_append]
  rfl

/-- The first name without a value is the flaw of a value, whatever is behind it. -/
theorem expand_unset {before behind : List Segment} (hsplit : p.segments = before ++ s :: behind)
    (hbefore : ∀ t ∈ before, (value? t.name).isSome) (hs : value? s.name = none) (more : Text) :
    expand value? (p.written ++ more) = .error (.unset s.name) := by
  let v (name : Text) : Text := (value? name).getD []
  have hvalues : ∀ t ∈ before, value? t.name = some (v t.name) := by
    intro t ht
    obtain ⟨x, hx⟩ := Option.isSome_iff_exists.mp (hbefore t ht)
    simp only [v, hx, Option.getD_some]
  rw [expand, Phrase.written, List.append_assoc, pieces_segments, hsplit, List.flatMap_append,
    List.append_assoc, fill_segments hvalues, List.flatMap_cons, List.append_assoc,
    fill_segment_of_none hs]
  rfl

end Template

namespace Settings

open Template

variable {environ : Environment} {done : Variables} {value x : Text}

/-- What a name means while variables are expanded: the variable that is expanded already, or else
what the environment says. -/
def lookup (environ : Environment) (done : Variables) (name : Text) : Option Text :=
  (done.value? name).or (environ.text? name)

theorem expandFrom_cons_of_ok (h : expand (lookup environ done) value = .ok x) (key : Text)
    (others : List (Text × Text)) :
    expandFrom environ done ((key, value) :: others) =
      expandFrom environ (done.put key x) others := by
  unfold lookup at h
  rw [expandFrom, h]

theorem expandFrom_cons_of_error {flaw : Flaw}
    (h : expand (lookup environ done) value = .error flaw) (key : Text)
    (others : List (Text × Text)) :
    expandFrom environ done ((key, value) :: others) = .error (problemOf value flaw) := by
  unfold lookup at h
  rw [expandFrom, h]

/-- **Expansion follows the grammar of values.** A variable whose value is written as texts with
references between them, all of whose names mean something, becomes the texts with those meanings
between them, and these are not read again. If a reference behind them is not closed, the problem is
that, and it quotes the whole value. Where a name means nothing, the problem names the first that
does, whatever is behind it. Every value is written in exactly one way, unless it opens a reference
that it does not close. -/
theorem expandFrom_follows_grammar (environ : Environment) (done : Variables) (key : Text)
    (others : List (Text × Text)) :
    (∀ (p : Phrase) (v : Text → Text),
      (∀ s ∈ p.segments, lookup environ done s.name = some (v s.name)) →
        expandFrom environ done ((key, p.written) :: others) =
          expandFrom environ (done.put key (p.filled v)) others ∧
        ∀ rest, '\x7d' ∉ rest →
          expandFrom environ done ((key, p.written ++ opening ++ rest) :: others) =
            .error (.unterminated (p.written ++ opening ++ rest))) ∧
    (∀ (p : Phrase) (before : List Segment) (s : Segment) (behind : List Segment),
      p.segments = before ++ s :: behind →
      (∀ t ∈ before, (lookup environ done t.name).isSome) → lookup environ done s.name = none →
        ∀ more, expandFrom environ done ((key, p.written ++ more) :: others) =
          .error (.unset s.name)) ∧
    ∀ value, ¬ IsUnterminated value ↔ ∃! p : Phrase, p.written = value := by
  refine ⟨fun p v hv => ⟨?_, fun rest hrest => ?_⟩, ?_, fun value => not_isUnterminated_iff⟩
  · exact expandFrom_cons_of_ok (expand_written hv) key others
  · exact expandFrom_cons_of_error (expand_unterminated hv hrest) key others
  · intro p before s behind hsplit hbefore hs more
    exact expandFrom_cons_of_error (expand_unset hsplit hbefore hs more) key others

/-- A reference stands behind a dollar sign, and the value that is put in for it looks like a
reference itself. Behind the same value a reference is opened and not closed, and in another value
the name that means nothing opens a reference. -/
theorem expandFrom_follows_grammar_nested :
    let environ : Environment := [(['B'], [98])]
    let done : Variables := Variables.empty.put ['A'] "$\x7bB\x7d".toList
    expandFrom environ done [(['C'], "$$\x7bA\x7d-$\x7bB\x7d\x7d$".toList)] =
        .ok (done.put ['C'] "$$\x7bB\x7d-b\x7d$".toList) ∧
      expandFrom environ done [(['C'], "$$\x7bA\x7d-$\x7bB\x7d\x7d$$\x7bA".toList)] =
        .error (.unterminated "$$\x7bA\x7d-$\x7bB\x7d\x7d$$\x7bA".toList) ∧
      expandFrom environ done [(['C'], "$\x7bA\x7d$\x7b$\x7b\x7d$\x7b".toList)] =
        .error (.unset "$\x7b".toList) ∧
      ∃! p : Phrase, p.written = "$$\x7bA\x7d-$\x7bB\x7d\x7d$".toList := by
  intro environ done
  obtain ⟨hset, hunset, hunique⟩ := expandFrom_follows_grammar environ done ['C'] []
  let p : Phrase :=
    ⟨[⟨['$'], ['A'], by decide, by decide⟩, ⟨['-'], ['B'], by decide, by decide⟩], ['\x7d', '$'],
      by decide⟩
  let v (name : Text) : Text := if name = ['A'] then "$\x7bB\x7d".toList else ['b']
  have hv : ∀ s ∈ p.segments, lookup environ done s.name = some (v s.name) := by
    simp only [p, List.forall_mem_cons]
    exact ⟨by decide +kernel, by decide +kernel, by simp⟩
  obtain ⟨hwritten, hunterminated⟩ := hset p v hv
  let a : Segment := ⟨[], ['A'], by decide, by decide⟩
  let s : Segment := ⟨[], opening, by decide, by decide⟩
  have ha : ∀ t ∈ [a], (lookup environ done t.name).isSome := by
    simp only [List.forall_mem_singleton]
    decide +kernel
  have hs : lookup environ done s.name = none := by decide +kernel
  refine ⟨hwritten, hunterminated ['A'] (by decide), ?_, ?_⟩
  · exact hunset ⟨[a, s], [], isPlain_nil⟩ [a] s [] rfl ha hs opening
  · exact (hunique _).mp (not_isUnterminated_written p)

end Settings

end Golden
