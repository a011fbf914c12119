import Golden.Text.Blank
import Golden.Text.Numeral
import Mathlib.Data.List.Basic
import Mathlib.Data.Nat.Digits.Defs

/-!
# Decimal numerals

What is written in decimal digits is read back: a natural number, an integer with a minus sign in
front of it if it is negative, and an integer of thirty-two bits up to both ends of its range. A
numeral holds no blank characters, so that trimming leaves it as it is.

## Main definitions

* `Numeral.worth` — the number that decimal digits make

## Main results

* `Numeral.natural?_of_isDigit` — a run of digits is read as the number that the digits make
* `Numeral.natural?_eq_some_iff` — and nothing else is read as a number
* `Numeral.ofDigitChars_eq_worth` — counting from the front comes to the number that the digits make
* `Numeral.int32?_eq_some_iff` — which numerals are integers of thirty-two bits
* `Numeral.int32?_decimalInt` — an integer of thirty-two bits that is written is read back
* `Numeral.decimal_injective`, `Numeral.decimalInt_injective` — so numbers are written in one way
* `Text.trimmed_append_append` — trimming takes off the blanks around a text that holds none
* `Numeral.trimmed_decimalInt` — and leaves a written integer alone
-/

namespace Golden

namespace Numeral

variable {text : Text} {c : Char} {n : Nat} {i : Int}

theorem toNat_of_isDigit (h : c.isDigit) : 48 ≤ c.toNat ∧ c.toNat ≤ 57 := by
  simpa [Char.isDigit, UInt32.le_iff_toNat_le] using h

theorem digit?_of_isDigit (h : c.isDigit) : digit? 10 c = some (c.toNat - 48) := by
  obtain ⟨hlow, hhigh⟩ := toNat_of_isDigit h
  have hvalue : c.toNat - 48 < 10 := by omega
  simp [digit?, hlow, hhigh, hvalue]

/-- Digits are read as the number that they make, each counting ten times what comes behind it. -/
theorem accumulate_of_isDigit (h : ∀ c ∈ text, c.isDigit) (acc : Nat) :
    accumulate 10 acc text = some (Nat.ofDigitChars 10 text acc) := by
  induction text generalizing acc with
  | nil => simp [accumulate]
  | cons c rest ih =>
    have hrest := ih fun d hd => h d (List.mem_cons_of_mem c hd)
    have hacc : acc * 10 + (c.toNat - 48) = 10 * acc + (c.toNat - 48) := by omega
    rw [accumulate, digit?_of_isDigit (h c List.mem_cons_self), Nat.ofDigitChars_cons]
    exact (congrArg (accumulate 10 · rest) hacc).trans (hrest _)

theorem natural?_of_isDigit (hne : text ≠ []) (h : ∀ c ∈ text, c.isDigit) :
    natural? 10 text = some (Nat.ofDigitChars 10 text 0) := by
  rw [natural?, if_neg hne, accumulate_of_isDigit h]

/-- Only the ten digits have a value in decimal numerals. -/
theorem isDigit_of_digit? {d : Nat} (h : digit? 10 c = some d) : c.isDigit := by
  have hrange : 48 ≤ c.toNat ∧ c.toNat ≤ 57 := by
    simp only [digit?, Option.ite_none_right_eq_some] at h
    obtain ⟨hvalue, -⟩ := h
    repeat' split at hvalue
    all_goals omega
  simpa [Char.isDigit, UInt32.le_iff_toNat_le] using hrange

/-- Nothing but digits is read as digits. -/
theorem isDigit_of_accumulate {acc : Nat} (h : accumulate 10 acc text = some n) :
    ∀ c ∈ text, c.isDigit := by
  induction text generalizing acc with
  | nil => simp
  | cons c rest ih =>
    obtain ⟨d, hd, hrest⟩ := Option.bind_eq_some_iff.mp h
    exact List.forall_mem_cons.mpr ⟨isDigit_of_digit? hd, ih hrest⟩

/-- A number is read off digits, at least one, and off nothing else. -/
theorem natural?_eq_some_iff :
    natural? 10 text = some n ↔
      text ≠ [] ∧ (∀ c ∈ text, c.isDigit) ∧ Nat.ofDigitChars 10 text 0 = n := by
  constructor
  · intro h
    have hne : text ≠ [] := by
      rintro rfl
      simp [natural?] at h
    have hdigits : ∀ c ∈ text, c.isDigit := by
      rw [natural?, if_neg hne] at h
      exact isDigit_of_accumulate h
    rw [natural?_of_isDigit hne hdigits] at h
    exact ⟨hne, hdigits, Option.some.inj h⟩
  · rintro ⟨hne, hdigits, rfl⟩
    exact natural?_of_isDigit hne hdigits

/-- The number that decimal digits make: the last one counts once, and each one ten times as much as
the one behind it. -/
def worth (digits : Text) : Nat :=
  Nat.ofDigits 10 (digits.reverse.map fun c => c.toNat - '0'.toNat)

/-- In front of other digits, a digit counts ten times for each of them. -/
theorem worth_cons (c : Char) (rest : Text) :
    worth (c :: rest) = worth rest + 10 ^ rest.length * (c.toNat - '0'.toNat) := by
  rw [worth, List.reverse_cons, List.map_append, Nat.ofDigits_append, List.length_map,
    List.length_reverse, List.map_singleton, Nat.ofDigits_singleton, worth]

/-- Counting from the front, ten times what was there for each digit, comes to the same number. -/
theorem ofDigitChars_eq_worth (digits : Text) : Nat.ofDigitChars 10 digits 0 = worth digits := by
  induction digits with
  | nil => rfl
  | cons c rest ih =>
    have hfirst : Nat.ofDigitChars 10 (c :: rest) 0 =
        10 ^ rest.length * (c.toNat - '0'.toNat) + Nat.ofDigitChars 10 rest 0 := by
      rw [Nat.ofDigitChars_cons, Nat.ofDigitChars_eq_ofDigitChars_zero, Nat.mul_zero, Nat.zero_add]
    rw [hfirst, worth_cons, ih, Nat.add_comm]

theorem natural?_eq_some_worth (hne : text ≠ []) (h : ∀ c ∈ text, c.isDigit) :
    natural? 10 text = some (worth text) := by
  rw [natural?_of_isDigit hne h, ofDigitChars_eq_worth]

theorem isDigit_of_mem_decimal (h : c ∈ decimal n) : c.isDigit :=
  Nat.isDigit_of_mem_toDigits (by decide) (by decide) h

theorem decimal_ne_nil (n : Nat) : decimal n ≠ [] :=
  Nat.toDigits_ne_nil

/-- A natural number that is written is read back. -/
theorem natural?_decimal (n : Nat) : natural? 10 (decimal n) = some n := by
  rw [natural?_of_isDigit (decimal_ne_nil n) fun _ => isDigit_of_mem_decimal, decimal,
    Nat.ofDigitChars_ten_toDigits]

theorem not_mem_decimal (h : c.isDigit = false) (n : Nat) : c ∉ decimal n := by
  intro hc
  rw [isDigit_of_mem_decimal hc] at h
  exact Bool.noConfusion h

/-- A number of more than one digit does not begin with a zero. -/
theorem head?_decimal (h : 1 < (decimal n).length) : (decimal n).head? ≠ some '0' := by
  -- Taking the last digit off leaves the first one, unless there is no other.
  induction n using Nat.strong_induction_on with
  | _ n ih =>
    by_cases hlt : n < 10
    · rw [decimal, Nat.toDigits_of_lt_base hlt] at h
      exact absurd h (by simp)
    · have hsplit : decimal n = decimal (n / 10) ++ [Nat.digitChar (n % 10)] :=
        Nat.toDigits_of_base_le (by decide) (Nat.le_of_not_lt hlt)
      rw [hsplit, List.head?_append_of_ne_nil _ (decimal_ne_nil _)]
      by_cases hone : n / 10 < 10
      · rw [decimal, Nat.toDigits_of_lt_base hone, List.head?_cons]
        have hdigit (d : Fin 10) (hd : 0 < d.val) : some (Nat.digitChar d) ≠ some '0' := by
          revert hd
          decide +revert
        exact hdigit ⟨n / 10, hone⟩ (by simp; omega)
      · apply ih (n / 10) (by omega)
        rw [decimal, Nat.toDigits_of_base_le (by decide) (Nat.le_of_not_lt hone),
          List.length_append]
        have hpositive := List.length_pos_of_ne_nil (decimal_ne_nil (n / 10 / 10))
        rw [decimal] at hpositive
        simp
        omega

/-- The digits in which a number is written make that number. -/
theorem worth_decimal (n : Nat) : worth (decimal n) = n := by
  rw [← ofDigitChars_eq_worth, decimal, Nat.ofDigitChars_ten_toDigits]

/-- A digit in front is no sign. -/
theorem signed?_of_isDigit {rest : Text} (h : c.isDigit) :
    signed? (c :: rest) = (natural? 10 (c :: rest)).map Int.ofNat := by
  have hminus : c ≠ '-' := by
    rintro rfl
    exact absurd h (by decide)
  have hplus : c ≠ '+' := by
    rintro rfl
    exact absurd h (by decide)
  rw [signed?]
  · exact fun digits heq => hminus (List.cons.inj heq).1
  · exact fun digits heq => hplus (List.cons.inj heq).1

/-- An integer that is written is read back. -/
theorem signed?_decimalInt (i : Int) : signed? (decimalInt i) = some i := by
  cases i with
  | ofNat n =>
    -- No sign is written, and the first digit is not taken for one.
    cases hdigits : decimal n with
    | nil => exact absurd hdigits (decimal_ne_nil n)
    | cons c rest =>
      have hc : c.isDigit := isDigit_of_mem_decimal (by rw [hdigits]; exact List.mem_cons_self)
      rw [decimalInt, hdigits, signed?_of_isDigit hc, ← hdigits, natural?_decimal]
      rfl
  | negSucc n =>
    rw [decimalInt, signed?, natural?_decimal]
    rfl

/-- A numeral is an integer of thirty-two bits if its value lies in their range. -/
theorem int32?_eq_some_iff :
    int32? text = some i ↔ signed? text = some i ∧ int32Min ≤ i ∧ i ≤ int32Max := by
  rw [int32?, Option.filter_eq_some_iff]
  simp

/-- An integer of thirty-two bits that is written is read back. -/
theorem int32?_decimalInt (hlow : int32Min ≤ i) (hhigh : i ≤ int32Max) :
    int32? (decimalInt i) = some i :=
  int32?_eq_some_iff.mpr ⟨signed?_decimalInt i, hlow, hhigh⟩

/-- Different numbers are written differently. -/
theorem decimal_injective : Function.Injective decimal := by
  intro m n h
  have hread := natural?_decimal m
  rw [h, natural?_decimal] at hread
  exact (Option.some.inj hread).symm

theorem decimalInt_injective : Function.Injective decimalInt := by
  intro i j h
  have hread := signed?_decimalInt i
  rw [h, signed?_decimalInt] at hread
  exact (Option.some.inj hread).symm

theorem mem_decimalInt (h : c ∈ decimalInt i) : c = '-' ∨ c.isDigit := by
  cases i with
  | ofNat n => exact .inr (isDigit_of_mem_decimal h)
  | negSucc n =>
    rcases List.mem_cons.mp h with rfl | h
    · exact .inl rfl
    · exact .inr (isDigit_of_mem_decimal h)

/-- What is neither a digit nor a minus sign is in no written integer. -/
theorem not_mem_decimalInt (hdigit : c.isDigit = false) (hminus : c ≠ '-') (i : Int) :
    c ∉ decimalInt i := by
  intro hmem
  rcases mem_decimalInt hmem with heq | heq
  · exact hminus heq
  · simp [hdigit] at heq

end Numeral

/-- No blanks are dropped in front of a text that holds none. -/
theorem Text.dropWhile_isBlank_of_forall {text : Text} (h : ∀ c ∈ text, isBlank c = false) :
    text.dropWhile isBlank = text := by
  cases text with
  | nil => rfl
  | cons c rest => rw [List.dropWhile_cons, h c List.mem_cons_self]; rfl

/-- Trimming takes off the blanks around a text that holds none. -/
theorem Text.trimmed_append_append {front text back : Text} (hfront : ∀ c ∈ front, isBlank c)
    (htext : ∀ c ∈ text, isBlank c = false) (hback : ∀ c ∈ back, isBlank c) :
    trimmed (front ++ text ++ back) = text := by
  rw [trimmed, List.append_assoc, List.dropWhile_append_of_pos hfront]
  cases text with
  | nil =>
    -- Everything is blank, and nothing is left after the first step.
    have hblank : (back ++ []).dropWhile isBlank = [].dropWhile isBlank :=
      List.dropWhile_append_of_pos hback
    have hnone : back.dropWhile isBlank = [] := by simpa using hblank
    rw [List.nil_append, hnone]
    rfl
  | cons c rest =>
    have hfirst : (c :: rest ++ back).dropWhile isBlank = c :: rest ++ back := by
      rw [List.cons_append, List.dropWhile_cons, htext c List.mem_cons_self]
      rfl
    rw [hfirst, List.reverse_append,
      List.dropWhile_append_of_pos fun c hc => hback c (List.mem_reverse.mp hc),
      dropWhile_isBlank_of_forall fun c hc => htext c (List.mem_reverse.mp hc),
      List.reverse_reverse]

/-- Trimming leaves a text alone that holds no blank character. -/
theorem Text.trimmed_of_forall {text : Text} (h : ∀ c ∈ text, isBlank c = false) :
    trimmed text = text := by
  have hnone : ∀ c ∈ ([] : Text), isBlank c := by simp
  simpa using trimmed_append_append hnone h hnone

theorem Text.isBlank_of_isDigit {c : Char} (h : c.isDigit) : isBlank c = false := by
  obtain ⟨hlow, hhigh⟩ := Numeral.toNat_of_isDigit h
  simp [isBlank]
  omega

/-- A written integer is not changed by trimming. -/
theorem Numeral.trimmed_decimalInt (i : Int) : Text.trimmed (decimalInt i) = decimalInt i := by
  apply Text.trimmed_of_forall
  intro c hc
  rcases mem_decimalInt hc with rfl | hdigit
  · decide
  · exact Text.isBlank_of_isDigit hdigit

end Golden
