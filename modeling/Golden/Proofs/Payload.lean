import Golden.Proofs.Decimal
import Golden.Proofs.Lines
import Golden.Proofs.Provenance
import Mathlib.Data.List.DropRight

/-!
# Payloads of exit lines

What may stand behind the mark of an exit line, said without reading it: blanks, an optional sign,
decimal digits, and blanks again. Such a payload is read exactly if the number that its digits make,
however many there are, keeps to thirty-two bits with its sign; a payload of any other form is
malformed. The carriage return of a line's ending is a blank too, so that it makes no difference
whether it is taken for a part of the payload.

## Main definitions

* `Numeral.Spelling` — digits with an optional sign, how they are written and what they mean
* `Directive.Writes` — a payload spells a code of thirty-two bits

## Main results

* `Numeral.signed?_eq_some_iff` — what is read as an integer is a spelling of it
* `Text.exists_trimmed` — trimming takes off blanks and nothing else
* `Directive.codeOf?_eq_some_iff` — a payload is read as the code that it spells
* `Directive.parse_exitMark_of_writes` — so is a line that ends in either way, or does not end
* `Directive.exit_line_reads_int32` — which exit lines are read, and what they say
-/

namespace Golden

namespace Numeral

variable {text : Text} {i : Int} {s : Spelling}

/-- A sign in front of digits. -/
inductive Sign where
  | plus
  | minus
  deriving DecidableEq

/-- How a sign is written. -/
def Sign.char : Sign → Char
  | plus => '+'
  | minus => '-'

/-- Digits, at least one, with an optional sign in front of them. -/
structure Spelling where
  sign : Option Sign
  digits : Text
  nonempty : digits ≠ []
  decimal : ∀ c ∈ digits, c.isDigit

/-- How the integer is written. -/
def Spelling.written (s : Spelling) : Text :=
  (s.sign.map Sign.char).toList ++ s.digits

/-- The integer that is written so, whatever its size. -/
def Spelling.value (s : Spelling) : Int :=
  if s.sign = some .minus then -(worth s.digits : Int) else worth s.digits

/-- A spelling is read as the integer that it spells. -/
theorem signed?_written (s : Spelling) : signed? s.written = some s.value := by
  obtain ⟨sign, digits, hne, hdigits⟩ := s
  have hworth := natural?_eq_some_worth hne hdigits
  cases sign with
  | none =>
    cases digits with
    | nil => exact absurd rfl hne
    | cons c rest =>
      rw [Spelling.written, Option.map_none, Option.toList_none, List.nil_append,
        signed?_of_isDigit (hdigits c List.mem_cons_self), hworth]
      rfl
  | some sign =>
    cases sign <;> simp [Spelling.written, Spelling.value, Sign.char, signed?, hworth]

/-- Exactly the spellings of an integer are read as it. -/
theorem signed?_eq_some_iff :
    signed? text = some i ↔ ∃ s : Spelling, s.written = text ∧ s.value = i := by
  constructor
  · intro h
    -- Whatever sign is taken off, the digits behind it are read as a natural number.
    have hspelled : ∃ (sign : Option Sign) (digits : Text) (n : Nat),
        (sign.map Sign.char).toList ++ digits = text ∧ natural? 10 digits = some n ∧
          (if sign = some .minus then -(n : Int) else n) = i := by
      unfold signed? at h
      split at h
      next digits =>
        obtain ⟨n, hn, rfl⟩ := Option.map_eq_some_iff.mp h
        exact ⟨some .minus, digits, n, rfl, hn, rfl⟩
      next digits =>
        obtain ⟨n, hn, rfl⟩ := Option.map_eq_some_iff.mp h
        exact ⟨some .plus, digits, n, rfl, hn, rfl⟩
      next =>
        obtain ⟨n, hn, rfl⟩ := Option.map_eq_some_iff.mp h
        exact ⟨none, text, n, rfl, hn, rfl⟩
    obtain ⟨sign, digits, n, rfl, hn, rfl⟩ := hspelled
    obtain ⟨hne, hdigits, rfl⟩ := natural?_eq_some_iff.mp hn
    exact ⟨⟨sign, digits, hne, hdigits⟩, rfl, by rw [ofDigitChars_eq_worth]; rfl⟩
  · rintro ⟨s, rfl, rfl⟩
    exact signed?_written s

/-- Every integer is spelled by the decimal digits in which it is written. -/
theorem exists_spelling (i : Int) : ∃ s : Spelling, s.written = decimalInt i ∧ s.value = i :=
  signed?_eq_some_iff.mp (signed?_decimalInt i)

theorem Spelling.isBlank_of_mem_written {c : Char} (h : c ∈ s.written) :
    Text.isBlank c = false := by
  rcases List.mem_append.mp h with hsign | hdigit
  · obtain ⟨sign, -, rfl⟩ := Option.map_eq_some_iff.mp (Option.mem_toList.mp hsign)
    cases sign <;> decide
  · exact Text.isBlank_of_isDigit (s.decimal c hdigit)

theorem Spelling.written_ne_nil (s : Spelling) : s.written ≠ [] :=
  List.append_ne_nil_of_right_ne_nil _ s.nonempty

end Numeral

/-- Trimming takes off blanks and nothing else. -/
theorem Text.exists_trimmed (text : Text) :
    ∃ front back : Text, (∀ c ∈ front, isBlank c) ∧ (∀ c ∈ back, isBlank c) ∧
      text = front ++ trimmed text ++ back := by
  refine ⟨text.takeWhile isBlank, (text.dropWhile isBlank).rtakeWhile isBlank,
    fun c => List.mem_takeWhile_imp, fun c => List.mem_rtakeWhile_imp, ?_⟩
  have htrimmed : trimmed text = (text.dropWhile isBlank).rdropWhile isBlank := rfl
  rw [htrimmed, List.append_assoc, List.rdropWhile_append_rtakeWhile,
    List.takeWhile_append_dropWhile]

namespace Directive

open Numeral

variable {payload : Text} {code : Int}

/-- A payload spells a code of thirty-two bits, with blanks around it. -/
def Writes (payload : Text) (code : Int) : Prop :=
  ∃ (front : Text) (s : Spelling) (back : Text),
    (∀ c ∈ front, Text.isBlank c) ∧ (∀ c ∈ back, Text.isBlank c) ∧
      payload = front ++ s.written ++ back ∧ s.value = code ∧ -2 ^ 31 ≤ code ∧ code ≤ 2 ^ 31 - 1

/-- A payload is read as the code that it spells. -/
theorem codeOf?_eq_some_iff : codeOf? payload = some code ↔ Writes payload code := by
  have hrange : (int32Min ≤ code ∧ code ≤ int32Max) ↔ (-2 ^ 31 ≤ code ∧ code ≤ 2 ^ 31 - 1) := by
    norm_num [int32Min, int32Max]
  rw [codeOf?, int32?_eq_some_iff, hrange, signed?_eq_some_iff]
  constructor
  · rintro ⟨⟨s, hwritten, hvalue⟩, hcode⟩
    obtain ⟨front, back, hfront, hback, hpayload⟩ := Text.exists_trimmed payload
    rw [← hwritten] at hpayload
    exact ⟨front, s, back, hfront, hback, hpayload, hvalue, hcode⟩
  · rintro ⟨front, s, back, hfront, hback, rfl, hvalue, hcode⟩
    refine ⟨⟨s, ?_, hvalue⟩, hcode⟩
    exact (Text.trimmed_append_append hfront (fun c => Spelling.isBlank_of_mem_written) hback).symm

theorem codeOf?_eq_none_iff : codeOf? payload = none ↔ ∀ code, ¬ Writes payload code := by
  rw [Option.eq_none_iff_forall_ne_some]
  exact forall_congr' fun code => codeOf?_eq_some_iff.not

/-! ### Lines -/

/-- A carriage return at the end of a payload is one of the blanks around the code. -/
theorem Writes.withoutReturn (h : Writes payload code) :
    Writes (Lines.withoutReturn '\r' payload) code := by
  by_cases hlast : payload.getLast? = some '\r'
  · obtain ⟨init, rfl⟩ := List.getLast?_eq_some_iff.mp hlast
    obtain ⟨front, s, back, hfront, hback, hpayload, hvalue, hcode⟩ := h
    rw [Lines.withoutReturn_concat]
    rcases List.eq_nil_or_concat back with rfl | ⟨rest, c, rfl⟩
    · -- Without blanks behind it, the code would end in the carriage return.
      rw [List.append_nil] at hpayload
      have hend : s.written.getLast? = some '\r' := by
        rw [← List.getLast?_append_of_ne_nil front s.written_ne_nil, ← hpayload,
          List.getLast?_concat]
      have hblank := Spelling.isBlank_of_mem_written (List.mem_of_getLast? hend)
      exact absurd hblank (by decide)
    · rw [List.concat_eq_append, ← List.append_assoc] at hpayload
      obtain ⟨rfl, -⟩ := List.append_inj' hpayload rfl
      exact ⟨front, s, rest, hfront, fun c hc => hback c (by simp [hc]), rfl, hvalue, hcode⟩
  · rwa [Lines.withoutReturn, if_neg hlast]

theorem Writes.ne_nil (h : Writes payload code) : payload ≠ [] := by
  obtain ⟨front, s, back, -, -, rfl, -⟩ := h
  exact List.append_ne_nil_of_left_ne_nil
    (List.append_ne_nil_of_right_ne_nil _ s.written_ne_nil) _

theorem ofLines_exitMark_of_writes (h : Writes payload code) :
    ofLines 1 [exitMark ++ payload] = .ok [exit code 1] := by
  have hline : ofLine 1 (exitMark ++ payload) = .ok (some (exit code 1)) := by
    rw [ofLine_exitMark, codeOf?_eq_some_iff.mpr h]
  exact ofLines_cons_eq_ok_iff.mpr ⟨some (exit code 1), [], hline, rfl, rfl⟩

/-- An exit line is read as the code that it spells, however it ends. -/
theorem parse_exitMark_of_writes (h : Writes payload code) (hfeed : '\n' ∉ payload)
    {ending : Text} (hending : ending ∈ [[], ['\n'], ['\r', '\n']]) :
    parse (exitMark ++ payload ++ ending) = .ok [exit code 1] := by
  have hline : '\n' ∉ exitMark ++ payload := by
    rw [List.mem_append, not_or]
    exact ⟨by decide, hfeed⟩
  simp only [List.mem_cons, List.not_mem_nil, or_false] at hending
  rw [parse, Text.lines]
  rcases hending with rfl | rfl | rfl
  · have hne : exitMark ++ payload ≠ [] := List.append_ne_nil_of_right_ne_nil _ h.ne_nil
    rw [List.append_nil, Lines.split_of_not_mem hline hne]
    exact ofLines_exitMark_of_writes h
  · rw [Lines.split_concat hline, Lines.withoutReturn_append h.ne_nil]
    exact ofLines_exitMark_of_writes h.withoutReturn
  · have hreturn : '\n' ∉ exitMark ++ payload ++ ['\r'] := by simpa using hline
    have hsplit : exitMark ++ payload ++ ['\r', '\n'] =
        exitMark ++ payload ++ ['\r'] ++ ['\n'] := by simp
    rw [hsplit, Lines.split_concat hreturn, Lines.withoutReturn_concat]
    exact ofLines_exitMark_of_writes h

/-- The exit line at a position has the directive with its code. -/
theorem exit_mem_iff_writes {content : Text} {n : Nat} {ds : List Directive}
    (hline : content.lines[n]? = some (exitMark ++ payload)) (h : parse content = .ok ds) :
    exit code (1 + n) ∈ ds ↔ Writes payload code := by
  rw [mem_ofLines_iff h, ← codeOf?_eq_some_iff]
  constructor
  · rintro ⟨k, line, hnumber, hown, own, rfl, hcode⟩
    obtain rfl : n = k := Nat.add_left_cancel hnumber
    obtain rfl := List.append_cancel_left (Option.some.inj (hline.symm.trans hown))
    exact hcode
  · intro hcode
    exact ⟨n, exitMark ++ payload, rfl, hline, payload, rfl, hcode⟩

/-- The first payload that spells no code is blamed. -/
theorem parse_eq_error_of_not_writes {content : Text} {n : Nat}
    (hline : content.lines[n]? = some (exitMark ++ payload))
    (habove : ∀ k < n, ¬ MalformedAt content.lines k) (h : ∀ code, ¬ Writes payload code) :
    parse content = .error ⟨1 + n, payload⟩ := by
  refine ofLines_eq_error_iff.mpr ⟨n, rfl, hline, ⟨payload, hline, codeOf?_eq_none_iff.mpr h⟩, ?_⟩
  exact fun k hk => Nat.le_of_not_lt fun hlt => habove k hlt hk

/-- **An exit line holds a decimal integer of thirty-two bits.** It says a code exactly if its
payload spells that code with blanks around it, and is malformed if its payload spells none. So it
is with every exit line of a content: it has the directive with the code that it spells, and the
first that spells none is blamed. In particular every integer of thirty-two bits that is written in
decimal digits is read back, whatever blanks are around it and however the line ends. -/
theorem exit_line_reads_int32 :
    (∀ payload number code,
      ofLine number (exitMark ++ payload) = .ok (some (exit code number)) ↔ Writes payload code) ∧
    (∀ payload number, ofLine number (exitMark ++ payload) = .error ⟨number, payload⟩ ↔
      ∀ code, ¬ Writes payload code) ∧
    (∀ (content : Text) n payload, content.lines[n]? = some (exitMark ++ payload) →
      (∀ ds, parse content = .ok ds →
        ∀ code, exit code (1 + n) ∈ ds ↔ Writes payload code) ∧
      ((∀ k < n, ¬ MalformedAt content.lines k) → (∀ code, ¬ Writes payload code) →
        parse content = .error ⟨1 + n, payload⟩)) ∧
    ∀ code, -2 ^ 31 ≤ code → code ≤ 2 ^ 31 - 1 → ∀ front back : Text,
      (∀ c ∈ front, Text.isBlank c ∧ c ≠ '\n') → (∀ c ∈ back, Text.isBlank c ∧ c ≠ '\n') →
        ∀ ending ∈ [[], ['\n'], ['\r', '\n']],
          parse (exitMark ++ (front ++ decimalInt code ++ back) ++ ending) =
            .ok [exit code 1] := by
  refine ⟨fun payload number code => ?_, fun payload number => ?_,
    fun content n payload hline => ⟨fun ds h code => exit_mem_iff_writes hline h,
      parse_eq_error_of_not_writes hline⟩, ?_⟩
  · rw [ofLine_exitMark, ← codeOf?_eq_some_iff]
    cases codeOf? payload <;> simp
  · rw [ofLine_exitMark, ← codeOf?_eq_none_iff]
    cases codeOf? payload <;> simp
  · intro code hlow hhigh front back hfront hback ending hending
    obtain ⟨s, hwritten, hvalue⟩ := exists_spelling code
    have hwrites : Writes (front ++ decimalInt code ++ back) code :=
      ⟨front, s, back, fun c hc => (hfront c hc).1, fun c hc => (hback c hc).1,
        by rw [hwritten], hvalue, hlow, hhigh⟩
    refine parse_exitMark_of_writes hwrites ?_ hending
    simp only [List.mem_append, not_or]
    exact ⟨⟨fun hc => (hfront _ hc).2 rfl, not_mem_decimalInt (by decide) (by decide) code⟩,
      fun hc => (hback _ hc).2 rfl⟩

/-- The greatest code and, written at length between blanks, the least one; the last line lacks the
end of the mark. -/
def outermost : Text :=
  "# EXIT +2147483647\n# EXIT \u2003-0002147483648\t\r\n# EXIT".toList

/-- Both codes are read, and one more than the greatest is malformed behind a line that is read. -/
theorem exit_line_reads_int32_outermost :
    parse outermost = .ok [.exit 2147483647 1, .exit (-2147483648) 2] ∧
      Writes "\u2003-0002147483648\t".toList (-2147483648) ∧
      (∀ code, ¬ Writes "2147483648".toList code) ∧
      parse "# EXIT 0\n# EXIT 2147483648".toList = .error ⟨2, "2147483648".toList⟩ ∧
      parse (exitMark ++ (['\u0085'] ++ decimalInt (-2147483648) ++ ['\u3000', '\r']) ++
        ['\n']) = .ok [.exit (-2147483648) 1] := by
  obtain ⟨-, herror, hcontent, hdecimal⟩ := exit_line_reads_int32
  have hparse : parse outermost = .ok [.exit 2147483647 1, .exit (-2147483648) 2] := rfl
  have hbeyond : ∀ code, ¬ Writes "2147483648".toList code :=
    (herror "2147483648".toList 2).mp rfl
  have habove : ∀ k < 1, ¬ MalformedAt (Text.lines "# EXIT 0\n# EXIT 2147483648".toList) k := by
    intro k hk
    obtain rfl : k = 0 := Nat.lt_one_iff.mp hk
    have hfirst : ∃ first, ofLine 1 "# EXIT 0".toList = .ok first := ⟨some (.exit 0 1), rfl⟩
    exact exists_ofLine_iff_not_malformedAt.mp hfirst
  have hline : outermost.lines[1]? = some (exitMark ++ "\u2003-0002147483648\t".toList) := by
    decide +kernel
  refine ⟨hparse, ?_, hbeyond, (hcontent _ 1 _ rfl).2 habove hbeyond, ?_⟩
  · exact ((hcontent outermost 1 _ hline).1 _ hparse (-2147483648)).mp (by decide)
  · have hfront : ∀ c ∈ ['\u0085'], Text.isBlank c ∧ c ≠ '\n' :=
      List.forall_mem_singleton.mpr (by decide)
    have hback : ∀ c ∈ ['\u3000', '\r'], Text.isBlank c ∧ c ≠ '\n' :=
      List.forall_mem_cons.mpr ⟨by decide, List.forall_mem_singleton.mpr (by decide)⟩
    exact hdecimal (-2147483648) (by norm_num) (by norm_num) _ _ hfront hback ['\n'] (by decide)

end Directive

end Golden
