import Golden.Fault
import Golden.Proofs.Decimal
import Golden.Settings
import Mathlib.Algebra.Order.Field.Rat
import Mathlib.Order.Bounds.Basic
import Mathlib.Tactic.FieldSimp
import Mathlib.Tactic.Linarith
import Mathlib.Tactic.Ring

/-!
# Durations read back

A duration is shown as a decimal amount of a unit, and nothing is rounded off: the text is the only
way to write one amount, and that amount is the duration to the nanosecond. The unit is the largest
one in which the duration is at least one, and the fraction ends where only zeros would follow. So
different durations are shown differently.

## Main definitions

* `Duration.Scale` — the units, how they are written and what they are worth
* `Duration.Amount` — a decimal amount of a unit, how it is written and how many seconds it is
* `Duration.shown` — the amount that is shown for a duration

## Main results

* `Duration.Amount.written_injective` — an amount is known by its text
* `Duration.worth_places` — decimal places are worth the fraction that they are of
* `Duration.written_shown`, `Duration.seconds_shown` — the text writes an amount of the same length
* `Duration.text_is_exact` — what the text of a duration says
-/

namespace Golden

namespace Duration

open Numeral (worth)

variable {width part n : Nat} {c : Char} {d d' : Duration}

/-! ### Units -/

/-- The units in which durations are shown. -/
inductive Scale where
  | seconds
  | millis
  | micros
  | nanos
  deriving DecidableEq

namespace Scale

/-- How a unit is written. -/
def symbol : Scale → Text
  | seconds => ['s']
  | millis => ['m', 's']
  | micros => ['µ', 's']
  | nanos => ['n', 's']

/-- How many decimal places a unit has down to the nanosecond. -/
def depth : Scale → Nat
  | seconds => 9
  | millis => 6
  | micros => 3
  | nanos => 0

/-- A unit in seconds. -/
def worth : Scale → ℚ
  | seconds => 1
  | millis => 1 / 10 ^ 3
  | micros => 1 / 10 ^ 6
  | nanos => 1 / 10 ^ 9

/-- A unit has as many nanoseconds as its decimal places can count. -/
theorem worth_eq (u : Scale) : u.worth = 10 ^ u.depth / 10 ^ 9 := by
  cases u <;> norm_num [worth, depth]

theorem symbol_injective : Function.Injective symbol := by
  intro u v h
  cases u <;> cases v <;> first | rfl | exact absurd h (by decide)

/-- No unit begins like a number or its decimal point. -/
theorem head?_symbol (u : Scale) : ∀ c ∈ u.symbol.head?, c.isDigit = false ∧ c ≠ '.' := by
  cases u <;> simp [symbol]

end Scale

/-! ### Amounts -/

/-- A decimal amount of a unit: the digits of a whole number, and those behind a decimal point, if
there is one. -/
@[ext]
structure Amount where
  whole : Text
  fraction : Option Text
  scale : Scale
  whole_ne_nil : whole ≠ []
  isDigit_whole : ∀ c ∈ whole, c.isDigit
  isDigit_fraction : ∀ digits ∈ fraction, ∀ c ∈ digits, c.isDigit

namespace Amount

/-- How an amount is written behind its whole number. -/
def behind (a : Amount) : Text :=
  a.fraction.elim [] ('.' :: ·) ++ a.scale.symbol

/-- How an amount is written. -/
def written (a : Amount) : Text :=
  a.whole ++ a.behind

/-- The number of an amount. A digit behind the point counts a tenth of what it would count in front
of it, or a tenth of that, and so on. -/
def number (a : Amount) : ℚ :=
  worth a.whole + a.fraction.elim 0 fun digits => (worth digits : ℚ) / 10 ^ digits.length

/-- An amount in seconds. -/
def seconds (a : Amount) : ℚ :=
  a.number * a.scale.worth

/-- Digits are told from what is behind them if that begins with something else. -/
theorem digits_append_inj {digits digits' rest rest' : Text} (hdigits : ∀ c ∈ digits, c.isDigit)
    (hdigits' : ∀ c ∈ digits', c.isDigit) (hrest : ∀ c ∈ rest.head?, c.isDigit = false)
    (hrest' : ∀ c ∈ rest'.head?, c.isDigit = false) (h : digits ++ rest = digits' ++ rest') :
    digits = digits' ∧ rest = rest' := by
  have hnone (rest : Text) (hrest : ∀ c ∈ rest.head?, c.isDigit = false) :
      rest.takeWhile Char.isDigit = [] := by
    cases rest with
    | nil => rfl
    | cons c rest => rw [List.takeWhile_cons, hrest c rfl]; rfl
  have hsame := congrArg (List.takeWhile Char.isDigit) h
  rw [List.takeWhile_append_of_pos hdigits, List.takeWhile_append_of_pos hdigits',
    hnone rest hrest, hnone rest' hrest', List.append_nil, List.append_nil] at hsame
  rw [hsame] at h
  exact ⟨hsame, List.append_cancel_left h⟩

theorem head?_behind (a : Amount) : ∀ c ∈ a.behind.head?, c.isDigit = false := by
  intro c hc
  rw [behind] at hc
  cases hfraction : a.fraction with
  | none =>
    rw [hfraction] at hc
    exact (a.scale.head?_symbol c hc).1
  | some digits =>
    rw [hfraction] at hc
    cases hc
    decide

/-- What stands behind a whole number tells whether there is a fraction, and everything else. -/
theorem eq_of_behind_eq {a b : Amount} (h : a.behind = b.behind) :
    a.fraction = b.fraction ∧ a.scale = b.scale := by
  -- No unit begins with a point, so that both have a fraction or none has.
  have hpoint (u v : Scale) (digits : Text) : u.symbol ≠ '.' :: (digits ++ v.symbol) := by
    intro heq
    exact (u.head?_symbol '.' (by rw [heq]; rfl)).2 rfl
  have hunit (u : Scale) : ∀ c ∈ u.symbol.head?, c.isDigit = false :=
    fun c hc => (u.head?_symbol c hc).1
  rw [behind, behind] at h
  cases ha : a.fraction with
  | none =>
    cases hb : b.fraction with
    | none =>
      rw [ha, hb] at h
      exact ⟨rfl, Scale.symbol_injective h⟩
    | some digits' =>
      rw [ha, hb] at h
      exact absurd h (hpoint a.scale b.scale digits')
  | some digits =>
    cases hb : b.fraction with
    | none =>
      rw [ha, hb] at h
      exact absurd h.symm (hpoint b.scale a.scale digits)
    | some digits' =>
      rw [ha, hb] at h
      obtain ⟨hdigits, hsymbol⟩ := digits_append_inj (a.isDigit_fraction digits ha)
        (b.isDigit_fraction digits' hb) (hunit a.scale) (hunit b.scale) (List.cons.inj h).2
      exact ⟨congrArg some hdigits, Scale.symbol_injective hsymbol⟩

/-- An amount is known by its text. -/
theorem written_injective : Function.Injective written := by
  intro a b h
  obtain ⟨hwhole, hbehind⟩ := digits_append_inj a.isDigit_whole b.isDigit_whole a.head?_behind
    b.head?_behind h
  obtain ⟨hfraction, hscale⟩ := eq_of_behind_eq hbehind
  exact Amount.ext hwhole hfraction hscale

end Amount

/-! ### Decimal places -/

theorem isDigit_digitChar (h : n < 10) : n.digitChar.isDigit := by
  rw [Nat.isDigit_digitChar, decide_eq_true h]

/-- The first of the places that are left is a digit. -/
theorem div_lt_ten (h : part < 10 ^ (width + 1)) : part / 10 ^ width < 10 := by
  rw [Nat.div_lt_iff_lt_mul (Nat.pow_pos (by decide)), ← Nat.pow_succ']
  exact h

theorem mod_lt_pow (part width : Nat) : part % 10 ^ width < 10 ^ width :=
  Nat.mod_lt _ (Nat.pow_pos (by decide))

theorem places_zero (part : Nat) : places 0 part = [] := rfl

theorem places_zero_right (width : Nat) : places width 0 = [] := by
  cases width with
  | zero => rfl
  | succ width => exact if_pos rfl

theorem places_succ (h : part ≠ 0) :
    places (width + 1) part =
      Nat.digitChar (part / 10 ^ width) :: places width (part % 10 ^ width) :=
  if_neg h

/-- Places are missing only for a fraction that is nothing. -/
theorem places_ne_nil (h : part < 10 ^ width) (hpart : part ≠ 0) : places width part ≠ [] := by
  cases width with
  | zero => exact absurd (Nat.lt_one_iff.mp h) hpart
  | succ width =>
    rw [places_succ hpart]
    exact List.cons_ne_nil _ _

theorem isDigit_of_mem_places (h : part < 10 ^ width) :
    ∀ c ∈ places width part, c.isDigit := by
  induction width generalizing part with
  | zero => simp [places_zero]
  | succ width ih =>
    by_cases hpart : part = 0
    · simp [hpart, places_zero_right]
    · rw [places_succ hpart, List.forall_mem_cons]
      exact ⟨isDigit_digitChar (div_lt_ten h), ih (mod_lt_pow part width)⟩

theorem length_places_le (width part : Nat) : (places width part).length ≤ width := by
  induction width generalizing part with
  | zero => simp [places_zero]
  | succ width ih =>
    by_cases hpart : part = 0
    · simp [hpart, places_zero_right]
    · rw [places_succ hpart, List.length_cons]
      exact Nat.succ_le_succ (ih _)

/-- The last place is not zero. -/
theorem getLast?_places_ne (h : part < 10 ^ width) : (places width part).getLast? ≠ some '0' := by
  induction width generalizing part with
  | zero => simp [places_zero]
  | succ width ih =>
    by_cases hpart : part = 0
    · simp [hpart, places_zero_right]
    rw [places_succ hpart]
    by_cases hrest : part % 10 ^ width = 0
    · -- No place follows, and the whole fraction is in the one that is there.
      rw [hrest, places_zero_right, List.getLast?_singleton, ne_eq, Option.some.injEq,
        Nat.digitChar_eq_zero]
      intro hdigit
      have hsum := Nat.div_add_mod part (10 ^ width)
      rw [hdigit, hrest] at hsum
      exact hpart (by omega)
    · have hmore := places_ne_nil (mod_lt_pow part width) hrest
      rw [List.getLast?_cons_of_ne_nil hmore]
      exact ih (mod_lt_pow part width)

/-- Places are worth the fraction that they are of, although zeros at their end are left out. -/
theorem worth_places (h : part < 10 ^ width) :
    (worth (places width part) : ℚ) / 10 ^ (places width part).length = part / 10 ^ width := by
  -- The first place counts tenths, and the others are worth a tenth of what they are worth alone.
  induction width generalizing part with
  | zero =>
    obtain rfl : part = 0 := Nat.lt_one_iff.mp h
    simp [places_zero, worth]
  | succ width ih =>
    by_cases hpart : part = 0
    · simp [hpart, places_zero_right, worth]
    have hdigit : (Nat.digitChar (part / 10 ^ width)).toNat - '0'.toNat = part / 10 ^ width := by
      rw [Nat.toNat_digitChar_of_lt_ten (div_lt_ten h)]
      exact Nat.add_sub_cancel_left ..
    have hsum : (10 : ℚ) ^ width * (part / 10 ^ width : Nat) + (part % 10 ^ width : Nat) = part := by
      exact_mod_cast Nat.div_add_mod part (10 ^ width)
    have hrest := ih (mod_lt_pow part width)
    rw [places_succ hpart, Numeral.worth_cons, hdigit, List.length_cons, ← hsum]
    push_cast
    rw [div_eq_iff (by positivity)] at hrest
    rw [hrest]
    field_simp
    ring

/-! ### What is shown -/

/-- A whole number of a unit and a part of it, counted in the smallest decimal places that it has. -/
def Amount.ofParts (whole part : Nat) (u : Scale) (h : part < 10 ^ u.depth) : Amount where
  whole := Numeral.decimal whole
  fraction := if part = 0 then none else some (places u.depth part)
  scale := u
  whole_ne_nil := Numeral.decimal_ne_nil whole
  isDigit_whole := fun _ => Numeral.isDigit_of_mem_decimal
  isDigit_fraction := by
    intro digits hdigits
    split at hdigits
    · cases hdigits
    · cases hdigits
      exact isDigit_of_mem_places h

theorem Amount.written_ofParts {whole : Nat} {u : Scale} (h : part < 10 ^ u.depth) :
    (ofParts whole part u h).written = amount whole u.depth part u.symbol := by
  by_cases hpart : part = 0 <;> simp [written, behind, ofParts, amount, hpart]

theorem Amount.seconds_ofParts {whole : Nat} {u : Scale} (h : part < 10 ^ u.depth) :
    (ofParts whole part u h).seconds = (whole + part / 10 ^ u.depth) * u.worth := by
  have hwhole : worth (Numeral.decimal whole) = whole := Numeral.worth_decimal whole
  by_cases hpart : part = 0
  · simp [seconds, number, ofParts, hpart, hwhole]
  · simp [seconds, number, ofParts, hpart, hwhole, worth_places h]

/-- A duration in seconds. -/
def seconds (d : Duration) : ℚ :=
  d.secs + d.nanos / 10 ^ 9

/-- A duration in nanoseconds. -/
def total (d : Duration) : Nat :=
  d.secs * 10 ^ 9 + d.nanos

/-- The unit in which a duration is shown. -/
def scale (d : Duration) : Scale :=
  if 0 < d.secs then .seconds
  else if 1000000 ≤ d.nanos then .millis
  else if 1000 ≤ d.nanos then .micros
  else .nanos

/-- The amount that is shown for a duration: its nanoseconds, divided by those of the unit. -/
def shown (d : Duration) : Amount :=
  .ofParts (d.total / 10 ^ d.scale.depth) (d.total % 10 ^ d.scale.depth) d.scale (mod_lt_pow ..)

theorem seconds_eq (d : Duration) : d.seconds = d.total / 10 ^ 9 := by
  rw [seconds, total]
  push_cast
  ring

theorem seconds_injective : Function.Injective seconds := by
  intro d d' h
  obtain ⟨secs, nanos, hlt⟩ := d
  obtain ⟨secs', nanos', hlt'⟩ := d'
  -- Nanoseconds do not fill a second, so that both numbers can be told from their sum.
  rw [seconds_eq, seconds_eq, div_left_inj' (by norm_num), Nat.cast_inj] at h
  simp only [total] at h
  simp only [Duration.mk.injEq]
  omega

theorem written_shown (d : Duration) : (shown d).written = d.text := by
  have hlt := d.nanos_lt
  rw [shown, Amount.written_ofParts, total, text, scale]
  -- From one second on, dividing gives back the seconds; for less, there are only nanoseconds.
  split_ifs with hsecs hmillis hmicros
  · have hwhole : (d.secs * 10 ^ 9 + d.nanos) / 10 ^ 9 = d.secs := by omega
    have hpart : (d.secs * 10 ^ 9 + d.nanos) % 10 ^ 9 = d.nanos := by omega
    rw [Scale.depth, hwhole, hpart]
    rfl
  all_goals
    have hzero : d.secs = 0 := by omega
    rw [hzero, Nat.zero_mul, Nat.zero_add]
  · rfl
  · rfl
  · rw [Scale.depth, Nat.pow_zero, Nat.div_one, Nat.mod_one]
    rfl

theorem seconds_shown (d : Duration) : (shown d).seconds = d.seconds := by
  have hsum := Nat.div_add_mod d.total (10 ^ d.scale.depth)
  rw [shown, Amount.seconds_ofParts, Scale.worth_eq, seconds_eq]
  -- What is left is that quotient and remainder make up the whole.
  generalize d.total / 10 ^ d.scale.depth = whole at hsum
  generalize d.total % 10 ^ d.scale.depth = part at hsum
  rw [← hsum]
  push_cast
  field_simp

/-! ### The unit -/

theorem worth_le_seconds_iff {u : Scale} : u.worth ≤ d.seconds ↔ 10 ^ u.depth ≤ d.total := by
  rw [Scale.worth_eq, seconds_eq, div_le_div_iff_of_pos_right (by norm_num)]
  exact_mod_cast Iff.rfl

theorem worth_le_worth {u v : Scale} (h : u.depth ≤ v.depth) : u.worth ≤ v.worth := by
  rw [Scale.worth_eq, Scale.worth_eq, div_le_div_iff_of_pos_right (by norm_num)]
  exact pow_le_pow_right₀ (by norm_num) h

theorem scale_eq_seconds_iff : d.scale = .seconds ↔ 0 < d.secs := by
  rw [scale]
  split_ifs with hsecs <;> simp [hsecs]

/-- A duration is at least one in the unit in which it is shown, if it is any time at all. -/
theorem pow_depth_scale_le (h : 0 < d.total) : 10 ^ d.scale.depth ≤ d.total := by
  rw [total] at h ⊢
  rw [scale]
  split_ifs <;> simp only [Scale.depth] <;> omega

/-- It is less than one in every larger unit. -/
theorem depth_le_depth_scale {u : Scale} (h : 10 ^ u.depth ≤ d.total) : u.depth ≤ d.scale.depth := by
  have hlt := d.nanos_lt
  rw [total] at h
  rw [scale]
  split_ifs <;> cases u <;> simp only [Scale.depth] at h ⊢ <;> omega

/-! ### The text -/

/-- Different durations are shown differently. -/
theorem text_injective : Function.Injective text := by
  intro d d' h
  rw [← written_shown, ← written_shown] at h
  have hseconds := congrArg Amount.seconds (Amount.written_injective h)
  rw [seconds_shown, seconds_shown] at hseconds
  exact seconds_injective hseconds

/-- The wording of a fault leads to the duration in it. -/
theorem message_injective (h : (Fault.timeout d').message = (Fault.timeout d).message) : d' = d :=
  text_injective (List.append_cancel_left h)

/-- A limit is set unless it is zero seconds, and it is the number of seconds in the settings. -/
theorem limit_runOptions_eq_some_iff {e : Effective} :
    e.runOptions.limit = some d ↔ e.timeoutSecs ≠ 0 ∧ d = ofSecs e.timeoutSecs := by
  rw [Effective.runOptions, Option.ite_none_left_eq_some, Option.some.injEq, eq_comm (a := d)]

/-- A fraction is written only if it is not nothing, and it does not end with a zero. -/
theorem fraction_ofParts {whole : Nat} {u : Scale} (h : part < 10 ^ u.depth) {digits : Text}
    (hfraction : (Amount.ofParts whole part u h).fraction = some digits) :
    digits ≠ [] ∧ digits.length ≤ u.depth ∧ digits.getLast? ≠ some '0' := by
  by_cases hpart : part = 0
  · simp [Amount.ofParts, hpart] at hfraction
  · simp only [Amount.ofParts, if_neg hpart, Option.some.injEq] at hfraction
    rw [← hfraction]
    exact ⟨places_ne_nil h hpart, length_places_le u.depth part, getLast?_places_ne h⟩

/-- **The text of a duration says exactly how long it is.** The text is the only way to write some
amount of a unit, and that amount, in seconds, is the duration. The unit is seconds from one second
on; for less, it is the largest unit in which the duration is at least one, and nanoseconds if it is
nothing at all. A fraction keeps to the decimal places that the unit has down to the nanosecond,
does not end with a zero, and is there only with a decimal point and digits. So a duration is known
by its text, and by the wording of the fault that a subject was given that long; the limit of a run
is as many seconds as its settings say. -/
theorem text_is_exact (d : Duration) :
    (∃ a : Amount, (∀ b : Amount, b.written = d.text ↔ b = a) ∧
      a.seconds = d.secs + d.nanos / 10 ^ 9 ∧
      (a.scale = .seconds ↔ 0 < d.secs) ∧
      (0 < d.secs ∨ 0 < d.nanos →
        a.scale.worth ≤ d.seconds ∧ ∀ u : Scale, u.worth ≤ d.seconds → u.worth ≤ a.scale.worth) ∧
      (d.secs = 0 → d.nanos = 0 → a.scale = .nanos) ∧
      ∀ digits, a.fraction = some digits →
        digits ≠ [] ∧ digits.length ≤ a.scale.depth ∧ digits.getLast? ≠ some '0') ∧
    (∀ d', d'.text = d.text → d' = d) ∧
    (Fault.timeout d).message = "process timed out after ".toList ++ d.text ∧
    (∀ d', (Fault.timeout d').message = (Fault.timeout d).message → d' = d) ∧
    ∀ e : Effective, e.runOptions.limit = some d ↔ e.timeoutSecs ≠ 0 ∧ d = ofSecs e.timeoutSecs := by
  refine ⟨⟨shown d, ?_, seconds_shown d, scale_eq_seconds_iff, ?_, ?_, ?_⟩,
    fun d' h => text_injective h, rfl, fun d' h => message_injective h,
    fun e => limit_runOptions_eq_some_iff⟩
  · intro b
    rw [← written_shown]
    exact Amount.written_injective.eq_iff
  · intro h
    have htotal : 0 < d.total := by
      rw [total]
      omega
    refine ⟨worth_le_seconds_iff.mpr (pow_depth_scale_le htotal), ?_⟩
    intro u hu
    exact worth_le_worth (depth_le_depth_scale (worth_le_seconds_iff.mp hu))
  · intro hsecs hnanos
    have hscale : d.scale = .nanos := by
      rw [scale, hsecs, hnanos]
      rfl
    exact hscale
  · intro digits hdigits
    exact fraction_ofParts (mod_lt_pow ..) hdigits

/-- A millisecond and a nanosecond. -/
def narrow : Duration := ⟨0, 1000001, by decide⟩

/-- The zeros in front of the last digit are kept, and the unit is not the second. -/
theorem text_is_exact_narrow :
    narrow.text = "1.000001ms".toList ∧ 0 < narrow.nanos ∧
      (∃ a : Amount, a.written = "1.000001ms".toList ∧ a.whole = ['1'] ∧
        a.fraction = some "000001".toList ∧ a.scale = .millis ∧
        a.seconds = (0 : Nat) + (1000001 : Nat) / 10 ^ 9 ∧
        a.scale.worth ≤ narrow.seconds ∧ ¬ Scale.seconds.worth ≤ narrow.seconds) ∧
      ∀ d : Duration, d.text = "1.000001ms".toList → d = narrow := by
  have htext : narrow.text = "1.000001ms".toList := by decide +kernel
  obtain ⟨⟨a, hunique, hseconds, -, hgreatest, -, -⟩, hsame, -⟩ := text_is_exact narrow
  rw [htext] at hunique hsame
  -- The amount that is shown writes the text, and so it is the only one that does.
  obtain rfl : shown narrow = a := (hunique _).mp ((written_shown narrow).trans htext)
  have hunit : (shown narrow).scale = .millis := rfl
  have hparts : (shown narrow).whole = ['1'] ∧ (shown narrow).fraction = some "000001".toList := by
    decide +kernel
  obtain ⟨hleast, hmost⟩ := hgreatest (.inr (by decide))
  refine ⟨htext, by decide, ⟨shown narrow, (hunique _).mpr rfl, hparts.1, hparts.2, hunit, hseconds,
    hleast, ?_⟩, hsame⟩
  intro hlong
  have hle := hmost .seconds hlong
  rw [hunit] at hle
  norm_num [Scale.worth] at hle

end Duration

end Golden
