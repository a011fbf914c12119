import Golden.Proofs.Decoding

/-!
# Decoding line by line

A character of more than one byte has a value above those of the characters of one byte, and the
replacement character has one too. So a character of one byte is in a decoded text exactly where its
byte was read, and lossy decoding moves neither the line feeds nor the carriage returns in front of
them. The lines of a stream are therefore those into which its bytes are split, each decoded by
itself: what is faulty in one line does no harm to another.

## Main definitions

* `Utf8.IsAscii`, `Utf8.ascii` — a byte that is a character by itself, and that character
* `Utf8.Pieces` — bytes as pieces that line feeds end, what they make up, and their lines

## Main results

* `Utf8.next_cases` — a character of one byte is read off that byte alone
* `Utf8.mem_of_ascii_mem_decodeLossy`, `Utf8.getLast?_decodeLossy_eq_ascii_iff` — where it stands
* `Utf8.cut_decodeLossy` — the pieces of a decoded text are those of the bytes, decoded
* `Outcome.linesOf_eq_map` — and so are the lines of a stream
* `Utf8.Pieces.existsUnique_joined_eq` — bytes are made up of pieces in one way
* `Outcome.linesOf_is_local` — a stream has the lines of its pieces, whatever is in them
-/

namespace Golden

variable {bytes rest line : Bytes} {first b d : UInt8} {c : Char}

namespace Utf8

/-- A byte is a character by itself. -/
def IsAscii (b : UInt8) : Prop :=
  b.toNat < 0x80

instance (b : UInt8) : Decidable (IsAscii b) :=
  inferInstanceAs (Decidable (_ < _))

/-- The character that such a byte is. -/
def ascii (b : UInt8) : Char :=
  Char.ofNat b.toNat

/-- The byte of a carriage return. -/
def back : UInt8 := 0x0d

theorem toNat_ofNat {n : Nat} (h : n.isValidChar) : (Char.ofNat n).toNat = n := by
  rw [Char.ofNat, dif_pos h]
  rfl

theorem toNat_ascii (h : IsAscii b) : (ascii b).toNat = b.toNat :=
  toNat_ofNat (.inl (Nat.lt_trans h (by decide)))

theorem payload_lt (b : UInt8) : payload b < 0x40 :=
  Nat.mod_lt _ (by decide)

/-! ### The values of the characters -/

/-- A character of two bytes has a value that no character of one byte has. -/
theorem le_toNat_of_nextTwo (hfirst : within 0xc2 0xdf first = true)
    (h : (nextTwo first rest).1 = some c) : 0x80 ≤ c.toNat := by
  simp only [within, Bool.and_eq_true, decide_eq_true_eq] at hfirst
  cases rest with
  | nil => simp [nextTwo] at h
  | cons b rest =>
    rw [nextTwo] at h
    split at h
    · obtain rfl := Option.some.inj h
      have hb := payload_lt b
      rw [toNat_ofNat (.inl (by omega))]
      omega
    · simp at h

/-- The second byte of a character of three bytes rules out the values of two bytes and the
surrogates. -/
theorem value_of_opensThree (hfirst : within 0xe0 0xef first = true)
    (h : opensThree first b = true) (hd : payload d < 0x40) :
    0x800 ≤ (first.toNat % 0x10 * 0x40 + payload b) * 0x40 + payload d ∧
      ((first.toNat % 0x10 * 0x40 + payload b) * 0x40 + payload d).isValidChar := by
  have hlow : first = 0xe0 ↔ first.toNat = 0xe0 := UInt8.toNat_inj.symm
  have hsurrogate : first = 0xed ↔ first.toNat = 0xed := UInt8.toNat_inj.symm
  simp only [opensThree, continues, hlow, hsurrogate] at h
  simp only [payload, Nat.isValidChar] at hd ⊢
  split_ifs at h <;> simp only [within, Bool.and_eq_true, decide_eq_true_eq] at h hfirst <;> omega

theorem le_toNat_of_nextThree (hfirst : within 0xe0 0xef first = true)
    (h : (nextThree first rest).1 = some c) : 0x80 ≤ c.toNat := by
  cases rest with
  | nil => simp [nextThree] at h
  | cons b rest =>
    by_cases hopens : opensThree first b = true
    · cases rest with
      | nil => simp [nextThree, hopens] at h
      | cons d rest =>
        simp only [nextThree, if_pos hopens] at h
        split at h
        · obtain rfl := Option.some.inj h
          obtain ⟨hlow, hvalid⟩ := value_of_opensThree hfirst hopens (payload_lt d)
          rw [toNat_ofNat hvalid]
          omega
        · simp at h
    · simp [nextThree, hopens] at h

/-- The second byte of a character of four bytes rules out the values of three bytes and those above
the last character. -/
theorem value_of_opensFour {e : UInt8} (hfirst : within 0xf0 0xf4 first = true)
    (h : opensFour first b = true) (hd : payload d < 0x40) (he : payload e < 0x40) :
    0x10000 ≤ ((first.toNat % 0x08 * 0x40 + payload b) * 0x40 + payload d) * 0x40 + payload e ∧
      (((first.toNat % 0x08 * 0x40 + payload b) * 0x40 + payload d) * 0x40 +
        payload e).isValidChar := by
  have hlow : first = 0xf0 ↔ first.toNat = 0xf0 := UInt8.toNat_inj.symm
  have hhigh : first = 0xf4 ↔ first.toNat = 0xf4 := UInt8.toNat_inj.symm
  simp only [opensFour, continues, hlow, hhigh] at h
  simp only [payload, Nat.isValidChar] at hd he ⊢
  split_ifs at h <;> simp only [within, Bool.and_eq_true, decide_eq_true_eq] at h hfirst <;> omega

theorem le_toNat_of_nextFour (hfirst : within 0xf0 0xf4 first = true)
    (h : (nextFour first rest).1 = some c) : 0x80 ≤ c.toNat := by
  cases rest with
  | nil => simp [nextFour] at h
  | cons b rest =>
    by_cases hopens : opensFour first b = true
    · rcases rest with _ | ⟨d, _ | ⟨e, rest⟩⟩
      · simp [nextFour, hopens] at h
      · simp only [nextFour, if_pos hopens] at h
        split at h <;> simp at h
      · simp only [nextFour, if_pos hopens] at h
        split at h
        · split at h
          · obtain rfl := Option.some.inj h
            obtain ⟨hlow, hvalid⟩ :=
              value_of_opensFour hfirst hopens (payload_lt d) (payload_lt e)
            rw [toNat_ofNat hvalid]
            omega
          · simp at h
        · simp at h
    · simp [nextFour, hopens] at h

/-- A byte that is a character by itself is read as that character, and nothing behind it is. -/
theorem next_ascii (h : IsAscii b) (rest : Bytes) : next b rest = (some (ascii b), rest) := by
  have hwithin : within 0x00 0x7f b = true := by
    simp only [within, Bool.and_eq_true, decide_eq_true_eq]
    exact ⟨Nat.zero_le _, Nat.le_of_lt_succ h⟩
  rw [next, if_pos hwithin, ascii]

/-- A character of one byte is read off that byte alone, and every other one is above those. -/
theorem next_cases (first : UInt8) (rest : Bytes) :
    IsAscii first ∧ next first rest = (some (ascii first), rest) ∨
      0x80 ≤ ((next first rest).1.getD replacement).toNat := by
  by_cases hascii : IsAscii first
  · exact .inl ⟨hascii, next_ascii hascii rest⟩
  · right
    have hnot : ¬ within 0x00 0x7f first = true := by
      simp only [within, Bool.and_eq_true, decide_eq_true_eq]
      exact fun h => hascii (Nat.lt_succ_of_le h.2)
    have hreplaced : 0x80 ≤ replacement.toNat := by decide
    cases hread : (next first rest).1 with
    | none => exact hreplaced
    | some c =>
      rw [next, if_neg hnot] at hread
      split at hread
      next htwo => exact le_toNat_of_nextTwo htwo hread
      next =>
        split at hread
        next hthree => exact le_toNat_of_nextThree hthree hread
        next =>
          split at hread
          next hfour => exact le_toNat_of_nextFour hfour hread
          next => simp at hread

/-! ### Where a character of one byte stands -/

theorem isSuffix_nextTwo (first : UInt8) (rest : Bytes) : (nextTwo first rest).2 <:+ rest := by
  unfold nextTwo
  repeat' split
  all_goals simp

theorem isSuffix_nextThree (first : UInt8) (rest : Bytes) : (nextThree first rest).2 <:+ rest := by
  unfold nextThree
  repeat' split
  all_goals simp [List.suffix_cons_iff]

theorem isSuffix_nextFour (first : UInt8) (rest : Bytes) : (nextFour first rest).2 <:+ rest := by
  unfold nextFour
  repeat' split
  all_goals simp [List.suffix_cons_iff]

/-- What is left behind a character or a faulty piece is the end of the bytes. -/
theorem isSuffix_next (first : UInt8) (rest : Bytes) : (next first rest).2 <:+ rest := by
  unfold next
  repeat' split
  · exact List.suffix_rfl
  · exact isSuffix_nextTwo first rest
  · exact isSuffix_nextThree first rest
  · exact isSuffix_nextFour first rest
  · exact List.suffix_rfl

theorem ascii_injective {b' : UInt8} (h : IsAscii b) (h' : IsAscii b') (heq : ascii b = ascii b') :
    b = b' := by
  have hvalue := congrArg Char.toNat heq
  rw [toNat_ascii h, toNat_ascii h'] at hvalue
  exact UInt8.toNat_inj.mp hvalue

/-- If a character of one byte is what is read first, the byte of it is what is there first. -/
theorem next_of_getD_eq_ascii (h : IsAscii b)
    (hread : (next first rest).1.getD replacement = ascii b) :
    first = b ∧ (next first rest).2 = rest := by
  obtain ⟨hfirst, hnext⟩ | habove := next_cases first rest
  · rw [hnext, Option.getD_some] at hread
    exact ⟨ascii_injective hfirst h hread, by rw [hnext]⟩
  · rw [hread, toNat_ascii h] at habove
    exact absurd h (Nat.not_lt.mpr habove)

theorem decodeLossy_ascii (h : IsAscii b) (rest : Bytes) :
    decodeLossy (b :: rest) = ascii b :: decodeLossy rest := by
  rw [decodeLossy, next_ascii h, Option.getD_some]

theorem decodeLossy_eq_nil_iff : decodeLossy bytes = [] ↔ bytes = [] := by
  cases bytes <;> simp [decodeLossy]

/-- A character of one byte in a decoded text was read off its byte. -/
theorem mem_of_ascii_mem_decodeLossy (h : IsAscii b) (hmem : ascii b ∈ decodeLossy bytes) :
    b ∈ bytes := by
  induction bytes using decodeLossy.induct with
  | case1 => simp [decodeLossy] at hmem
  | case2 first rest ih =>
    rw [decodeLossy] at hmem
    rcases List.mem_cons.mp hmem with hfirst | hlater
    · obtain ⟨rfl, -⟩ := next_of_getD_eq_ascii h hfirst.symm
      exact List.mem_cons_self
    · exact List.mem_cons_of_mem first ((isSuffix_next first rest).subset (ih hlater))

theorem isFresh_ascii (h : IsAscii b) (rest : Bytes) : IsFresh (b :: rest) := by
  rw [isFresh_cons, continues, within, Bool.and_eq_false_iff, decide_eq_false_iff_not]
  exact .inl (Nat.not_le.mpr h)

theorem decodeLossy_concat (h : IsAscii b) (front : Bytes) :
    decodeLossy (front ++ [b]) = decodeLossy front ++ [ascii b] := by
  rw [decodeLossy_append (isFresh_ascii h []), decodeLossy_ascii h, decodeLossy]

/-- A decoded text ends in a character of one byte exactly if the bytes end in its byte. -/
theorem getLast?_decodeLossy_eq_ascii_iff (h : IsAscii b) :
    (decodeLossy bytes).getLast? = some (ascii b) ↔ bytes.getLast? = some b := by
  constructor
  · intro hlast
    induction bytes using decodeLossy.induct with
    | case1 => simp [decodeLossy] at hlast
    | case2 first rest ih =>
      rw [decodeLossy] at hlast
      by_cases hleft : (next first rest).2 = []
      · -- What is read first is all there is, and so it is the one byte.
        rw [hleft, decodeLossy] at hlast
        obtain ⟨rfl, hrest⟩ := next_of_getD_eq_ascii h (Option.some.inj hlast)
        rw [← hrest, hleft]
        rfl
      · -- The bytes that are left behind it end as the whole does.
        have hmore : decodeLossy (next first rest).2 ≠ [] := decodeLossy_eq_nil_iff.not.mpr hleft
        obtain ⟨front, hfront⟩ := isSuffix_next first rest
        have htail := ih (by rwa [← List.singleton_append,
          List.getLast?_append_of_ne_nil _ hmore] at hlast)
        rwa [← hfront, ← List.cons_append, List.getLast?_append_of_ne_nil _ hleft]
  · intro hlast
    obtain ⟨front, rfl⟩ := List.getLast?_eq_some_iff.mp hlast
    rw [decodeLossy_concat h, List.getLast?_concat]

/-! ### Lines -/

theorem isAscii_feed : IsAscii feed := by decide

theorem isAscii_back : IsAscii back := by decide

/-- Pieces that are each ended by a line feed are decoded one by one. -/
theorem decodeLossy_flatMap (pieces : List Bytes) (last : Bytes) :
    decodeLossy (pieces.flatMap (· ++ [feed]) ++ last) =
      (pieces.map decodeLossy).flatMap (· ++ ['\n']) ++ decodeLossy last := by
  induction pieces with
  | nil => rfl
  | cons piece pieces ih =>
    have hsplit : (piece :: pieces).flatMap (· ++ [feed]) ++ last =
        piece ++ feed :: (pieces.flatMap (· ++ [feed]) ++ last) := by simp
    rw [hsplit, decodeLossy_append (isFresh_feed _), decodeLossy_feed, ih]
    simp

/-- The pieces of a decoded text are the pieces of the bytes, decoded. -/
theorem cut_decodeLossy (bytes : Bytes) :
    Lines.cut '\n' (decodeLossy bytes) =
      ((Lines.cut feed bytes).1.map decodeLossy, decodeLossy (Lines.cut feed bytes).2) := by
  have hfree (line : Bytes) (h : feed ∉ line) : '\n' ∉ decodeLossy line :=
    fun hmem => h (mem_of_ascii_mem_decodeLossy isAscii_feed hmem)
  have hpieces : ∀ piece ∈ (Lines.cut feed bytes).1.map decodeLossy, '\n' ∉ piece := by
    intro piece hpiece
    obtain ⟨line, hline, rfl⟩ := List.mem_map.mp hpiece
    exact hfree line (Lines.not_mem_of_mem_cut hline)
  rw [← Lines.cut_flatMap hpieces (hfree _ (Lines.not_mem_last_cut feed bytes)),
    ← decodeLossy_flatMap, Lines.flatMap_cut]

/-- A line is decoded without its carriage return by decoding it and taking the return off. -/
theorem withoutReturn_decodeLossy (line : Bytes) :
    Lines.withoutReturn '\r' (decodeLossy line) = decodeLossy (Lines.withoutReturn back line) := by
  have hiff : (decodeLossy line).getLast? = some '\r' ↔ line.getLast? = some back :=
    getLast?_decodeLossy_eq_ascii_iff isAscii_back
  by_cases hback : line.getLast? = some back
  · obtain ⟨front, rfl⟩ := List.getLast?_eq_some_iff.mp hback
    have hdecode : decodeLossy (front ++ [back]) = decodeLossy front ++ ['\r'] :=
      decodeLossy_concat isAscii_back front
    rw [Lines.withoutReturn_concat, hdecode, Lines.withoutReturn_concat]
  · rw [Lines.withoutReturn, if_neg (hiff.not.mpr hback), Lines.withoutReturn, if_neg hback]

end Utf8

/-- The lines of a stream are those into which its bytes are split, each decoded by itself. -/
theorem Outcome.linesOf_eq_map (bytes : Bytes) :
    linesOf bytes = (Lines.split Utf8.feed Utf8.back bytes).map Utf8.decodeLossy := by
  have hlast : Utf8.decodeLossy (Lines.cut Utf8.feed bytes).2 = [] ↔
      (Lines.cut Utf8.feed bytes).2 = [] := Utf8.decodeLossy_eq_nil_iff
  rw [linesOf, Text.lines, Lines.split, Utf8.cut_decodeLossy, Lines.split, List.map_append]
  congr 1
  · simp [Utf8.withoutReturn_decodeLossy]
  · by_cases hnil : (Lines.cut Utf8.feed bytes).2 = []
    · simp [hnil, Utf8.decodeLossy]
    · simp [hnil, hlast]

/-! ### Pieces -/

namespace Utf8

/-- Bytes as the pieces that line feeds end, and what is behind the last line feed. -/
@[ext]
structure Pieces where
  ended : List Bytes
  last : Bytes
  ended_free : ∀ piece ∈ ended, feed ∉ piece
  last_free : feed ∉ last

namespace Pieces

/-- The bytes that pieces make up. -/
def joined (p : Pieces) : Bytes :=
  p.ended.flatMap (· ++ [feed]) ++ p.last

/-- The lines of pieces, each decoded by itself. An ended piece gives up one carriage return at its
end, and an empty rest is no line. -/
def lines (p : Pieces) : List Text :=
  p.ended.map (fun piece =>
    decodeLossy (if piece.getLast? = some back then piece.dropLast else piece)) ++
    if p.last = [] then [] else [decodeLossy p.last]

/-- Cutting undoes putting pieces together. -/
theorem cut_joined (p : Pieces) : Lines.cut feed p.joined = (p.ended, p.last) :=
  Lines.cut_flatMap p.ended_free p.last_free

theorem joined_injective : Function.Injective joined := by
  intro p q h
  have hcut : (p.ended, p.last) = (q.ended, q.last) := by
    rw [← p.cut_joined, h, q.cut_joined]
  exact Pieces.ext (congrArg Prod.fst hcut) (congrArg Prod.snd hcut)

/-- Bytes are made up of pieces in one way. -/
theorem existsUnique_joined_eq (stream : Bytes) : ∃! p : Pieces, p.joined = stream := by
  obtain ⟨p, rfl⟩ : ∃ p : Pieces, p.joined = stream :=
    ⟨⟨(Lines.cut feed stream).1, (Lines.cut feed stream).2,
      fun piece => Lines.not_mem_of_mem_cut, Lines.not_mem_last_cut feed stream⟩,
      Lines.flatMap_cut feed stream⟩
  exact ⟨p, rfl, fun q hq => joined_injective hq⟩

end Pieces

end Utf8

namespace Outcome

open Utf8

/-- A stream has the lines of its pieces. -/
theorem linesOf_joined (p : Pieces) : linesOf p.joined = p.lines := by
  rw [linesOf_eq_map, Lines.split, p.cut_joined, Pieces.lines, List.map_append, List.map_map]
  congr 1
  by_cases hlast : p.last = []
  · simp [hlast]
  · simp [hlast]

theorem feed_not_mem_of_mem_linesOf {line : Text} (h : line ∈ linesOf bytes) : '\n' ∉ line :=
  Lines.not_mem_of_mem_split h

/-- What stands between two line feeds is one line, whatever it is and whatever is around it. -/
theorem linesOf_append_cons (habove : EndsLine bytes) (hline : feed ∉ line) (below : Bytes) :
    linesOf (bytes ++ line ++ feed :: below) =
      linesOf bytes ++ decodeLossy (Lines.withoutReturn back line) :: linesOf below := by
  have hone : linesOf (line ++ [feed]) = [decodeLossy (Lines.withoutReturn back line)] := by
    rw [linesOf_eq_map, Lines.split_concat hline]
    rfl
  have hsplit : bytes ++ line ++ feed :: below = bytes ++ (line ++ [feed] ++ below) := by simp
  rw [hsplit, linesOf_append habove, linesOf_append (endsLine_concat line), hone]
  rfl

/-- **Output is decoded line by line.** A stream is made up in one way of pieces that line feeds
end and a rest, and its lines are these pieces, each decoded by itself: without one carriage return
at the end of an ended piece, and without the rest if that is empty. So no line holds a line feed,
bytes that are no text make up one line as any others do and leave the lines around them as they
are, and a stream that leaves no line unfinished keeps its lines in front of those of another. -/
theorem linesOf_is_local :
    (∀ p : Pieces, linesOf p.joined = p.lines) ∧
    (∀ stream, ∃! p : Pieces, p.joined = stream) ∧
    (∀ stream, ∀ line ∈ linesOf stream, '\n' ∉ line) ∧
    (∀ above piece below : Bytes, EndsLine above → feed ∉ piece →
      linesOf (above ++ piece ++ feed :: below) =
        linesOf above ++ decodeLossy (Lines.withoutReturn back piece) :: linesOf below) ∧
    ∀ above below : Bytes, EndsLine above →
      linesOf (above ++ below) = linesOf above ++ linesOf below := by
  refine ⟨linesOf_joined, Pieces.existsUnique_joined_eq, fun stream line => ?_,
    fun above piece below habove hpiece => linesOf_append_cons habove hpiece below,
    fun above below habove => linesOf_append habove below⟩
  exact feed_not_mem_of_mem_linesOf

/-- A character that is broken off in front of a line feed, and one that is broken off at the end:
neither takes anything of the line between them, which keeps one of its two carriage returns. -/
theorem linesOf_is_local_truncated :
    let above : Bytes := [0xe2, 0x82, 0x0a]
    let piece : Bytes := [0x61, 0xf0, 0x9f, 0x0d, 0x0d]
    let below : Bytes := [0xc3]
    EndsLine above ∧ feed ∉ piece ∧
      linesOf (above ++ piece ++ feed :: below) =
        [[replacement], ['a', replacement, '\r'], [replacement]] ∧
      linesOf (above ++ piece) = linesOf above ++ linesOf piece ∧
      ∃ line ∈ linesOf (above ++ piece), line ≠ [] ∧ '\n' ∉ line := by
  intro above piece below
  obtain ⟨-, -, hfeed, hpiece, happend⟩ := linesOf_is_local
  have habove : EndsLine above := by decide
  have hfree : feed ∉ piece := by decide
  have hfirst : [replacement] ∈ linesOf (above ++ piece) := by decide +kernel
  refine ⟨habove, hfree, ?_, happend above piece habove,
    [replacement], hfirst, List.cons_ne_nil _ _, hfeed _ _ hfirst⟩
  rw [hpiece above piece below habove hfree]
  decide +kernel

end Outcome

end Golden
