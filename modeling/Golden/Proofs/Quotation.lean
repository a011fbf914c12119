import Golden.Fault
import Golden.Proofs.Decimal

/-!
# Quoted texts read back

Two wordings quote a text that may hold anything: the payload of a malformed exit line, and a value
that opens a reference and does not close it. What is quoted stays on one line, it ends at the first
quotation mark that no backslash protects, and undoing the escapes gives it back, so that a payload
that looks like an escape itself is not taken for one. None of this depends on which characters are
shown as they are: the wordings are stated for any table of them, and are the faults' own for the
table that is used.

## Main definitions

* `Quoted.enclosed`, `Quoted.malformedWords`, `Quoted.unterminatedWords` — a quoted text, and the
  wordings that hold one, for any table of the characters that are shown
* `Quoted.quotation?` — the quoted part of a wording, with what stands around it
* `Quoted.unescape?` — what an escaped text says

## Main results

* `Numeral.natural?_hexadecimal` — a number that is written in hexadecimal digits is read back
* `Quoted.quotation?_enclosed` — a quoted text is found by its marks
* `Quoted.unescape?_body` — and is what its escapes say
* `Quoted.quotations_read_back` — so the wordings tell all that is in them
-/

namespace Golden

/-! ### Hexadecimal numerals -/

namespace Numeral

theorem accumulate_append {radix acc : Nat} (front back : Text) :
    accumulate radix acc (front ++ back) =
      (accumulate radix acc front).bind (accumulate radix · back) := by
  induction front generalizing acc with
  | nil => rfl
  | cons c rest ih =>
    rw [List.cons_append, accumulate, accumulate]
    cases digit? radix c with
    | none => rfl
    | some d => exact ih

theorem digit?_digitChar (d : Fin 16) : digit? 16 (Nat.digitChar d) = some d.val := by
  decide +revert

theorem accumulate_hexadecimal (n : Nat) : accumulate 16 0 (hexadecimal n) = some n := by
  -- Taking the last digit off divides by sixteen.
  induction n using Nat.strong_induction_on with
  | _ n ih =>
    have hdigit (d : Nat) (hd : d < 16) : digit? 16 (Nat.digitChar d) = some d :=
      digit?_digitChar ⟨d, hd⟩
    by_cases hlt : n < 16
    · rw [hexadecimal, Nat.toDigits_of_lt_base hlt, accumulate, hdigit n hlt]
      exact congrArg some (by omega)
    · have hfront : accumulate 16 0 (Nat.toDigits 16 (n / 16)) = some (n / 16) :=
        ih (n / 16) (by omega)
      have hlast := hdigit (n % 16) (Nat.mod_lt n (by decide))
      rw [hexadecimal, Nat.toDigits_of_base_le (by decide) (Nat.le_of_not_lt hlt),
        accumulate_append, hfront, Option.bind_some, accumulate, hlast]
      exact congrArg some (Nat.div_add_mod' n 16)

theorem natural?_hexadecimal (n : Nat) : natural? 16 (hexadecimal n) = some n := by
  have hne : hexadecimal n ≠ [] := Nat.toDigits_ne_nil
  rw [natural?, if_neg hne, accumulate_hexadecimal]

/-- Whatever has no value as a digit is in no written number. -/
theorem not_mem_hexadecimal {c : Char} (h : digit? 16 c = none) (n : Nat) : c ∉ hexadecimal n := by
  intro hmem
  obtain ⟨front, back, hsplit⟩ := List.append_of_mem hmem
  have hread := accumulate_hexadecimal n
  rw [hsplit, accumulate_append, Option.bind_eq_some_iff] at hread
  obtain ⟨value, -, hback⟩ := hread
  rw [accumulate, h] at hback
  cases hback

end Numeral

namespace Quoted

variable {shown : Char → Bool} {c : Char} {text front payload payload' value value' : Text}
  {line line' : Nat}

/-! ### Wordings -/

/-- A text in quotes. -/
def enclosed (shown : Char → Bool) (text : Text) : Text :=
  mark :: body shown text ++ [mark]

/-- How the payload of a malformed exit line is told. -/
def malformedWords (shown : Char → Bool) (line : Nat) (payload : Text) : Text :=
  "malformed EXIT directive on line ".toList ++ Numeral.decimal line ++ ": ".toList ++
    enclosed shown payload ++ " is not an integer".toList

/-- How a value is told that opens a reference and does not close it. -/
def unterminatedWords (shown : Char → Bool) (value : Text) : Text :=
  "unterminated `$\x7b` in ".toList ++ enclosed shown value

/-! ### Reading -/

/-- What stands in front of the first mark that no backslash protects, and behind it. The first
argument says whether there is a backslash before the text that protects its first character. -/
def closing? : Bool → Text → Option (Text × Text)
  | _, [] => none
  | true, c :: rest => (closing? false rest).map fun r => (c :: r.1, r.2)
  | false, c :: rest =>
    if c = mark then some ([], rest)
    else (closing? (c == '\\') rest).map fun r => (c :: r.1, r.2)

/-- What stands in front of the first mark, between it and the one that closes it, and behind. -/
def quotation? : Text → Option (Text × Text × Text)
  | [] => none
  | c :: rest =>
    if c = mark then (closing? false rest).map fun r => ([], r.1, r.2)
    else (quotation? rest).map fun r => (c :: r.1, r.2)

/-- The character that a backslash and another character stand for. -/
def meaning? (c : Char) : Option Char :=
  if c = '0' then some '\x00'
  else if c = 't' then some '\t'
  else if c = 'r' then some '\r'
  else if c = 'n' then some '\n'
  else if c = mark || c = '\\' then some c
  else none

/-- The character whose code point has the hexadecimal digits. -/
def codePoint? (digits : Text) : Option Char := do
  let n ← Numeral.natural? 16 digits
  if n.isValidChar then some (Char.ofNat n) else none

/-- What has been read of an escape. -/
inductive Pending where
  | nothing
  | backslash
  /-- A backslash and the letter that a number in braces follows. -/
  | letter
  /-- That, an opening brace, and digits. -/
  | digits (digits : Text)

/-- What an escaped text says behind the beginning of an escape. -/
def unescapeFrom? : Pending → Text → Option Text
  | .nothing, [] => some []
  | _, [] => none
  | .nothing, c :: rest =>
    if c = '\\' then unescapeFrom? .backslash rest
    else (unescapeFrom? .nothing rest).map (c :: ·)
  | .backslash, c :: rest =>
    if c = 'u' then unescapeFrom? .letter rest
    else (meaning? c).bind fun d => (unescapeFrom? .nothing rest).map (d :: ·)
  | .letter, c :: rest => if c = '\x7b' then unescapeFrom? (.digits []) rest else none
  | .digits digits, c :: rest =>
    if c = '\x7d' then (codePoint? digits).bind fun d => (unescapeFrom? .nothing rest).map (d :: ·)
    else unescapeFrom? (.digits (digits ++ [c])) rest

/-- What an escaped text says. -/
def unescape? (text : Text) : Option Text :=
  unescapeFrom? .nothing text

/-! ### One character -/

/-- How a character may be written: by a letter behind a backslash, as it is, or by its number. -/
inductive Spells (c : Char) : Text → Prop where
  | letter {letter : Char} (h : meaning? letter = some c) : Spells c ['\\', letter]
  | itself (hmark : c ≠ mark) (hback : c ≠ '\\') (hfeed : c ≠ '\n') (hreturn : c ≠ '\r') :
    Spells c [c]
  | number : Spells c ('\\' :: 'u' :: '\x7b' :: (Numeral.hexadecimal c.toNat ++ ['\x7d']))

/-- Every table of the characters that are shown leads to one of these ways. -/
theorem spells_escape (shown : Char → Bool) (c : Char) : Spells c (escape shown c) := by
  rw [escape]
  split_ifs with hnul htab hreturn hfeed hself hshown
  · exact .letter (by rw [hnul]; decide)
  · exact .letter (by rw [htab]; decide)
  · exact .letter (by rw [hreturn]; decide)
  · exact .letter (by rw [hfeed]; decide)
  · refine .letter ?_
    rw [Bool.or_eq_true, decide_eq_true_eq, decide_eq_true_eq] at hself
    cases hself with
    | inl hmark => rw [hmark]; decide
    | inr hback => rw [hback]; decide
  · rw [Bool.or_eq_true, decide_eq_true_eq, decide_eq_true_eq, not_or] at hself
    exact .itself hself.1 hself.2 hfeed hreturn
  · exact .number

theorem meaning?_eq_none (h : c = 'u' ∨ c = '\n' ∨ c = '\r') : meaning? c = none := by
  rcases h with rfl | rfl | rfl <;> decide

/-- A character is written on one line. -/
theorem Spells.not_mem (h : Spells c text) : '\n' ∉ text ∧ '\r' ∉ text := by
  cases h with
  | @letter letter h =>
    have hfeed : '\n' ≠ letter := by
      intro heq
      rw [meaning?_eq_none (.inr (.inl heq.symm))] at h
      cases h
    have hreturn : '\r' ≠ letter := by
      intro heq
      rw [meaning?_eq_none (.inr (.inr heq.symm))] at h
      cases h
    simp [hfeed, hreturn]
  | itself _ _ hfeed hreturn => simp [hfeed.symm, hreturn.symm]
  | number =>
    have hfeed := Numeral.not_mem_hexadecimal (c := '\n') (by decide) c.toNat
    have hreturn := Numeral.not_mem_hexadecimal (c := '\r') (by decide) c.toNat
    simp [hfeed, hreturn]

/-- Text without marks and backslashes is passed over. -/
theorem closing?_append (h : ∀ c ∈ text, c ≠ mark ∧ c ≠ '\\') (more : Text) :
    closing? false (text ++ more) =
      (closing? false more).map fun r => (text ++ r.1, r.2) := by
  induction text with
  | nil => simp
  | cons c rest ih =>
    obtain ⟨⟨hmark, hback⟩, hrest⟩ := List.forall_mem_cons.mp h
    have hescape : (c == '\\') = false := by simp [hback]
    rw [List.cons_append, closing?, if_neg hmark, hescape, ih hrest, Option.map_map]
    rfl

/-- So is a character behind a backslash. -/
theorem closing?_backslash (c : Char) (more : Text) :
    closing? false ('\\' :: c :: more) =
      (closing? false more).map fun r => ('\\' :: c :: r.1, r.2) := by
  have hback : '\\' ≠ mark := by decide
  have hprotects : ('\\' == '\\') = true := rfl
  rw [closing?, if_neg hback, hprotects, closing?, Option.map_map]
  rfl

/-- No mark in a written character closes the quotation. -/
theorem Spells.closing?_append (h : Spells c text) (more : Text) :
    closing? false (text ++ more) =
      (closing? false more).map fun r => (text ++ r.1, r.2) := by
  cases h with
  | letter => exact closing?_backslash _ more
  | itself hmark hback =>
    refine Quoted.closing?_append ?_ more
    simp [hmark, hback]
  | number =>
    -- Digits are no marks, and they need no protection either.
    have hmark := Numeral.not_mem_hexadecimal (c := mark) (by decide) c.toNat
    have hback := Numeral.not_mem_hexadecimal (c := '\\') (by decide) c.toNat
    have hplain : ∀ d ∈ '\x7b' :: (Numeral.hexadecimal c.toNat ++ ['\x7d']),
        d ≠ mark ∧ d ≠ '\\' := by
      rw [List.forall_mem_cons, List.forall_mem_append, List.forall_mem_singleton]
      refine ⟨by decide, fun d hd => ⟨?_, ?_⟩, by decide⟩
      · intro heq
        exact hmark (heq ▸ hd)
      · intro heq
        exact hback (heq ▸ hd)
    rw [List.cons_append, List.cons_append, closing?_backslash, Quoted.closing?_append hplain,
      Option.map_map]
    rfl

theorem unescapeFrom?_digits {digits : Text} (h : '\x7d' ∉ text) (more : Text) :
    unescapeFrom? (.digits digits) (text ++ '\x7d' :: more) =
      (codePoint? (digits ++ text)).bind fun c => (unescapeFrom? .nothing more).map (c :: ·) := by
  induction text generalizing digits with
  | nil =>
    rw [List.nil_append, unescapeFrom?, if_pos rfl, List.append_nil]
  | cons c rest ih =>
    obtain ⟨hc, hrest⟩ := not_or.mp (List.mem_cons.not.mp h)
    rw [List.cons_append, unescapeFrom?, if_neg (Ne.symm hc), ih hrest, List.append_assoc]
    rfl

theorem codePoint?_hexadecimal (c : Char) :
    codePoint? (Numeral.hexadecimal c.toNat) = some c := by
  have hvalid : c.toNat.isValidChar := c.valid
  rw [codePoint?, Numeral.natural?_hexadecimal]
  simp [hvalid]

/-- A written character says that character. -/
theorem Spells.unescapeFrom?_append (h : Spells c text) (more : Text) :
    unescapeFrom? .nothing (text ++ more) = (unescapeFrom? .nothing more).map (c :: ·) := by
  cases h with
  | @letter letter h =>
    have hnumber : letter ≠ 'u' := by
      intro heq
      rw [meaning?_eq_none (.inl heq)] at h
      cases h
    rw [List.cons_append, List.cons_append, List.nil_append, unescapeFrom?, if_pos rfl,
      unescapeFrom?, if_neg hnumber, h]
    rfl
  | itself hmark hback =>
    rw [List.cons_append, unescapeFrom?, if_neg hback]
    rfl
  | number =>
    have hbrace := Numeral.not_mem_hexadecimal (c := '\x7d') (by decide) c.toNat
    rw [List.cons_append, List.cons_append, List.cons_append, List.append_assoc, unescapeFrom?,
      if_pos rfl, unescapeFrom?, if_pos rfl, unescapeFrom?, if_pos rfl, List.cons_append,
      unescapeFrom?_digits hbrace, List.nil_append, List.nil_append, codePoint?_hexadecimal]
    rfl

/-! ### Texts -/

theorem body_cons (shown : Char → Bool) (c : Char) (rest : Text) :
    body shown (c :: rest) = escape shown c ++ body shown rest := rfl

/-- What is between the quotes is on one line. -/
theorem not_mem_body (shown : Char → Bool) (text : Text) :
    '\n' ∉ body shown text ∧ '\r' ∉ body shown text := by
  induction text with
  | nil => exact ⟨List.not_mem_nil, List.not_mem_nil⟩
  | cons c rest ih =>
    obtain ⟨hfeed, hreturn⟩ := (spells_escape shown c).not_mem
    exact ⟨List.not_mem_append hfeed ih.1, List.not_mem_append hreturn ih.2⟩

/-- No mark between the quotes closes the quotation, and the one behind them does. -/
theorem closing?_body (shown : Char → Bool) (text more : Text) :
    closing? false (body shown text ++ mark :: more) = some (body shown text, more) := by
  induction text with
  | nil => rfl
  | cons c rest ih =>
    rw [body_cons, List.append_assoc, (spells_escape shown c).closing?_append, ih]
    rfl

/-- Undoing the escapes gives back what was quoted. -/
theorem unescape?_body (shown : Char → Bool) (text : Text) :
    unescape? (body shown text) = some text := by
  induction text with
  | nil => rfl
  | cons c rest ih =>
    rw [unescape?] at ih ⊢
    rw [body_cons, (spells_escape shown c).unescapeFrom?_append, ih]
    rfl

/-- A quoted text is found by its marks, if there is none in front of it. -/
theorem quotation?_enclosed (hfront : mark ∉ front) (shown : Char → Bool) (text more : Text) :
    quotation? (front ++ (enclosed shown text ++ more)) = some (front, body shown text, more) := by
  induction front with
  | nil =>
    rw [List.nil_append, enclosed, List.append_assoc, List.cons_append, quotation?, if_pos rfl,
      List.cons_append, List.nil_append, closing?_body]
    rfl
  | cons c rest ih =>
    obtain ⟨hc, hrest⟩ := not_or.mp (List.mem_cons.not.mp hfront)
    rw [List.cons_append, quotation?, if_neg (Ne.symm hc), ih hrest]
    rfl

/-- A quoted text is told from what stands around it. -/
theorem enclosed_inj {front' text' more more' : Text} (hfront : mark ∉ front)
    (hfront' : mark ∉ front')
    (h : front ++ (enclosed shown text ++ more) = front' ++ (enclosed shown text' ++ more')) :
    front = front' ∧ text = text' := by
  have hparts := congrArg quotation? h
  rw [quotation?_enclosed hfront, quotation?_enclosed hfront', Option.some.injEq,
    Prod.mk.injEq, Prod.mk.injEq] at hparts
  obtain ⟨hsame, hbody, -⟩ := hparts
  have hread := unescape?_body shown text
  rw [hbody, unescape?_body] at hread
  exact ⟨hsame, (Option.some.inj hread).symm⟩

theorem not_mem_enclosed (shown : Char → Bool) (text : Text) :
    '\n' ∉ enclosed shown text ∧ '\r' ∉ enclosed shown text := by
  obtain ⟨hfeed, hreturn⟩ := not_mem_body shown text
  have hmark : '\n' ≠ mark ∧ '\r' ≠ mark := by decide
  simp [enclosed, hfeed, hreturn, hmark]

/-! ### Messages -/

/-- What the wording of a malformed exit line begins with. -/
def malformedFront (line : Nat) : Text :=
  "malformed EXIT directive on line ".toList ++ Numeral.decimal line ++ ": ".toList

theorem malformedWords_eq (shown : Char → Bool) (line : Nat) (payload : Text) :
    malformedWords shown line payload =
      malformedFront line ++ (enclosed shown payload ++ " is not an integer".toList) :=
  List.append_assoc ..

theorem unterminatedWords_eq (shown : Char → Bool) (value : Text) :
    unterminatedWords shown value =
      "unterminated `$\x7b` in ".toList ++ (enclosed shown value ++ []) :=
  congrArg ("unterminated `$\x7b` in ".toList ++ ·) (List.append_nil _).symm

theorem not_mem_malformedFront (hdigit : c.isDigit = false)
    (hfront : c ∉ "malformed EXIT directive on line ".toList) (hback : c ∉ ": ".toList) (line : Nat) :
    c ∉ malformedFront line := by
  refine List.not_mem_append (List.not_mem_append hfront ?_) hback
  intro hmem
  rw [Numeral.isDigit_of_mem_decimal hmem] at hdigit
  cases hdigit

theorem mark_not_mem_malformedFront (line : Nat) : mark ∉ malformedFront line :=
  not_mem_malformedFront (by decide) (by decide) (by decide) line

/-- The wording of a malformed exit line is one line. -/
theorem not_mem_malformedWords (shown : Char → Bool) (line : Nat) (payload : Text) :
    '\n' ∉ malformedWords shown line payload ∧ '\r' ∉ malformedWords shown line payload := by
  obtain ⟨hfeed, hreturn⟩ := not_mem_enclosed shown payload
  rw [malformedWords_eq]
  constructor
  · exact List.not_mem_append
      (not_mem_malformedFront (by decide) (by decide) (by decide) line)
      (List.not_mem_append hfeed (by decide))
  · exact List.not_mem_append
      (not_mem_malformedFront (by decide) (by decide) (by decide) line)
      (List.not_mem_append hreturn (by decide))

theorem not_mem_unterminatedWords (shown : Char → Bool) (value : Text) :
    '\n' ∉ unterminatedWords shown value ∧ '\r' ∉ unterminatedWords shown value := by
  obtain ⟨hfeed, hreturn⟩ := not_mem_enclosed shown value
  exact ⟨List.not_mem_append (by decide) hfeed, List.not_mem_append (by decide) hreturn⟩

/-- The wording of a malformed exit line tells which line it is and what stands on it. -/
theorem malformedWords_inj (h : malformedWords shown line payload = malformedWords shown line' payload') :
    line = line' ∧ payload = payload' := by
  rw [malformedWords_eq, malformedWords_eq] at h
  obtain ⟨hfront, hpayload⟩ := enclosed_inj (mark_not_mem_malformedFront line)
    (mark_not_mem_malformedFront line') h
  have hline := List.append_cancel_left (List.append_cancel_right hfront)
  exact ⟨Numeral.decimal_injective hline, hpayload⟩

theorem unterminatedWords_inj (h : unterminatedWords shown value = unterminatedWords shown value') :
    value = value' := by
  rw [unterminatedWords_eq, unterminatedWords_eq] at h
  exact (enclosed_inj (by decide) (by decide) h).2

/-- **What a wording quotes is on one line and is all there.** Whatever table says which characters
are shown, the wording of a malformed exit line holds no line feed and no carriage return; its first
quotation mark opens the payload, and the first one behind it that no backslash protects closes it;
and undoing the escapes between them gives the payload. So line and payload are known by the
wording. The same holds of a value that opens a reference and does not close it. With the table that
is used, these are the wordings of the faults. -/
theorem quotations_read_back (shown : Char → Bool) :
    (∀ line payload,
      '\n' ∉ malformedWords shown line payload ∧ '\r' ∉ malformedWords shown line payload ∧
      ∃ quoted, quotation? (malformedWords shown line payload) =
          some ("malformed EXIT directive on line ".toList ++ Numeral.decimal line ++ ": ".toList,
            quoted, " is not an integer".toList) ∧
        unescape? quoted = some payload) ∧
    (∀ line payload line' payload',
      malformedWords shown line payload = malformedWords shown line' payload' →
        line = line' ∧ payload = payload') ∧
    (∀ value,
      '\n' ∉ unterminatedWords shown value ∧ '\r' ∉ unterminatedWords shown value ∧
      ∃ quoted, quotation? (unterminatedWords shown value) =
          some ("unterminated `$\x7b` in ".toList, quoted, []) ∧
        unescape? quoted = some value) ∧
    (∀ value value', unterminatedWords shown value = unterminatedWords shown value' →
      value = value') ∧
    (∀ line payload,
      (Fault.malformedDirective line payload).message = malformedWords Text.isShown line payload) ∧
    ∀ path value, (Fault.config path (.unterminated value)).message =
      "failed to load config ".toList ++ path ++ ": ".toList ++
        unterminatedWords Text.isShown value := by
  refine ⟨?_, fun line payload line' payload' h => malformedWords_inj h, ?_,
    fun value value' h => unterminatedWords_inj h, fun line payload => rfl, fun path value => rfl⟩
  · intro line payload
    obtain ⟨hfeed, hreturn⟩ := not_mem_malformedWords shown line payload
    refine ⟨hfeed, hreturn, body shown payload, ?_, unescape?_body shown payload⟩
    rw [malformedWords_eq]
    exact quotation?_enclosed (mark_not_mem_malformedFront line) shown payload _
  · intro value
    obtain ⟨hfeed, hreturn⟩ := not_mem_unterminatedWords shown value
    refine ⟨hfeed, hreturn, body shown value, ?_, unescape?_body shown value⟩
    rw [unterminatedWords_eq]
    exact quotation?_enclosed (by decide) shown value []

/-- A payload that looks like an escape, closes a quotation, ends a line, and has an accent without
a letter in front of a letter that could be a digit of its number. -/
def lookalike : Text :=
  "\\n\x22\n\u0301f".toList

/-- No other fault is worded like the one about that payload. -/
theorem quotations_read_back_lookalike :
    (Fault.malformedDirective 4 lookalike).message =
      ("malformed EXIT directive on line 4: ".toList ++
        "\x22\\\\n\\\x22\\n\\u\x7b301\x7df\x22 is not an integer".toList) ∧
    unescape? "\\\\n\\\x22\\n\\u\x7b301\x7df".toList = some lookalike ∧
    ∀ line payload, (Fault.malformedDirective line payload).message =
      (Fault.malformedDirective 4 lookalike).message → line = 4 ∧ payload = lookalike := by
  have hmessage : (Fault.malformedDirective 4 lookalike).message =
      ("malformed EXIT directive on line 4: ".toList ++
        "\x22\\\\n\\\x22\\n\\u\x7b301\x7df\x22 is not an integer".toList) := by
    decide +kernel
  obtain ⟨hquoted, hsame, -⟩ := quotations_read_back Text.isShown
  obtain ⟨-, -, quoted, hparts, hread⟩ := hquoted 4 lookalike
  have hpart : some quoted = some "\\\\n\\\x22\\n\\u\x7b301\x7df".toList := by
    have hfound := congrArg (Option.map fun r => r.2.1) hparts
    rw [Option.map_some] at hfound
    rw [← hfound]
    decide +kernel
  rw [Option.some.inj hpart] at hread
  exact ⟨hmessage, hread, fun line payload h => hsame line payload 4 lookalike h⟩

end Quoted

end Golden
