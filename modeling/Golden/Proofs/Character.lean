import Golden.Proofs.LineByLine

/-!
# What a character looks like

A first byte tells how many bytes continue it, and together they spell a value, six bits of it in
each byte that continues. Bytes spell a character if no fewer would do and the value is that of a
character, which rules out the surrogates and all above the last one. Where no character stands
first, one of a few faults does: a byte that continues nothing, a byte that begins nothing, a
beginning that is broken off, or a value that is no character's or is spelled in too many bytes.

The decoders ask for none of this. They look at the range of the second byte, which depends on the
first one, and this comes to the same.

## Main definitions

* `Utf8.Spells` — bytes spell a value, in a length that is needed from a least value on
* `Utf8.IsCharacter` — a value is that of a character and is large enough for its length
* `Utf8.Flawed` — the faults that bytes can begin with

## Main results

* `Utf8.isCharacter_or_flawed` — what bytes can begin with
* `Utf8.next_of_isCharacter`, `Utf8.next_of_flawed` — and how it is read
* `Utf8.next_eq_some_iff` — a character is read where its bytes are
* `Utf8.decode?_eq_some_iff` — bytes are text exactly if a text has these bytes
* `Utf8.decode?_eq_none_iff` — and otherwise a text is followed by a fault
-/

namespace Golden.Utf8

/-- Bytes spell a value, and fewer bytes would do for every value below a least one. -/
inductive Spells : Bytes → Nat → Nat → Prop where
  | one {a : UInt8} (ha : within 0x00 0x7f a = true) : Spells [a] a.toNat 0
  | two {a b : UInt8} (ha : within 0xc0 0xdf a = true) (hb : continues b = true) :
      Spells [a, b] (a.toNat % 0x20 * 0x40 + payload b) 0x80
  | three {a b d : UInt8} (ha : within 0xe0 0xef a = true) (hb : continues b = true)
      (hd : continues d = true) :
      Spells [a, b, d] ((a.toNat % 0x10 * 0x40 + payload b) * 0x40 + payload d) 0x800
  | four {a b d e : UInt8} (ha : within 0xf0 0xf7 a = true) (hb : continues b = true)
      (hd : continues d = true) (he : continues e = true) :
      Spells [a, b, d, e]
        (((a.toNat % 0x08 * 0x40 + payload b) * 0x40 + payload d) * 0x40 + payload e) 0x10000

/-- A value is that of a character, and it is not below the least one of its length. -/
def IsCharacter (value least : Nat) : Prop :=
  least ≤ value ∧ value.isValidChar

/-- Bytes begin with what is no character. -/
inductive Flawed : Bytes → Prop where
  /-- A byte that continues a character stands where none was begun. -/
  | stray {b : UInt8} (behind : Bytes) (hb : continues b = true) : Flawed (b :: behind)
  /-- A byte begins no character, and continues none. -/
  | alien {b : UInt8} (behind : Bytes) (hb : within 0xf8 0xff b = true) : Flawed (b :: behind)
  /-- Some bytes of a character are there, and the next one does not go on with it. -/
  | truncated {a : UInt8} {value least : Nat} (tail missing : Bytes) {behind : Bytes}
      (hspells : Spells (a :: (tail ++ missing)) value least) (hmissing : missing ≠ [])
      (hfresh : IsFresh behind) : Flawed (a :: (tail ++ behind))
  /-- Fewer bytes would do. -/
  | overlong {a : UInt8} {tail : Bytes} {value least : Nat} (behind : Bytes)
      (hspells : Spells (a :: tail) value least) (hvalue : value < least) :
      Flawed (a :: (tail ++ behind))
  | surrogate {a : UInt8} {tail : Bytes} {value least : Nat} (behind : Bytes)
      (hspells : Spells (a :: tail) value least) (hvalue : 0xd800 ≤ value ∧ value ≤ 0xdfff) :
      Flawed (a :: (tail ++ behind))
  /-- The value is above that of the last character. -/
  | beyond {a : UInt8} {tail : Bytes} {value least : Nat} (behind : Bytes)
      (hspells : Spells (a :: tail) value least) (hvalue : 0x10ffff < value) :
      Flawed (a :: (tail ++ behind))

variable {a b d e : UInt8} {c : Char} {tail piece behind bytes rest : Bytes} {text : Text}
  {value least low high : Nat}

theorem within_iff : within low high b = true ↔ low ≤ b.toNat ∧ b.toNat ≤ high := by
  simp [within]

/-- A byte does not lie in two ranges that are apart. -/
theorem not_within_of_within {low' high' : Nat} (h : within low high b = true)
    (hapart : high < low' ∨ high' < low) : ¬ within low' high' b = true := by
  rw [within_iff] at h ⊢
  omega

/-- A value is not that of a character in its length for one of three reasons. -/
theorem not_isCharacter_iff : ¬ IsCharacter value least ↔
    value < least ∨ (0xd800 ≤ value ∧ value ≤ 0xdfff) ∨ 0x10ffff < value := by
  rw [IsCharacter, Nat.isValidChar]
  omega

/-! ### What bytes can begin with -/

/-- A value that is spelled is that of a character, unless it is spelled in too many bytes, is a
surrogate or is above that of the last character. -/
theorem Spells.isCharacter_or_flawed (h : Spells (a :: tail) value least) (behind : Bytes) :
    IsCharacter value least ∨ Flawed (a :: (tail ++ behind)) := by
  by_cases hvalue : IsCharacter value least
  · exact .inl hvalue
  · obtain hlong | hsurrogate | hbeyond := not_isCharacter_iff.mp hvalue
    · exact .inr (.overlong behind h hlong)
    · exact .inr (.surrogate behind h hsurrogate)
    · exact .inr (.beyond behind h hbeyond)

/-- Bytes are fresh, or the first of them continues a character. -/
theorem isFresh_or_exists_continues (bytes : Bytes) :
    IsFresh bytes ∨ ∃ b behind, bytes = b :: behind ∧ continues b = true := by
  cases bytes with
  | nil => exact .inl (by simp [IsFresh])
  | cons b behind =>
    cases hb : continues b with
    | false => exact .inl (isFresh_cons.mpr hb)
    | true => exact .inr ⟨b, behind, rfl, hb⟩

/-- Some of the bytes spell a value, or else they begin with a fault. -/
theorem spells_or_flawed (a : UInt8) (rest : Bytes) :
    (∃ tail behind value least, rest = tail ++ behind ∧ Spells (a :: tail) value least) ∨
      Flawed (a :: rest) := by
  -- Some byte that continues a character, to complete what is broken off.
  have hmore : continues 0x80 = true := rfl
  have hbyte := a.toNat_lt
  by_cases hone : a.toNat < 0x80
  · exact .inl ⟨[], rest, _, _, rfl, .one (within_iff.mpr (by omega))⟩
  by_cases hstray : a.toNat < 0xc0
  · exact .inr (.stray rest (within_iff.mpr (by omega)))
  by_cases htwo : a.toNat < 0xe0
  · have ha : within 0xc0 0xdf a = true := within_iff.mpr (by omega)
    obtain hfresh | ⟨b, rest, rfl, hb⟩ := isFresh_or_exists_continues rest
    · exact .inr (.truncated [] [0x80] (.two ha hmore) (by simp) hfresh)
    · exact .inl ⟨[b], rest, _, _, rfl, .two ha hb⟩
  by_cases hthree : a.toNat < 0xf0
  · have ha : within 0xe0 0xef a = true := within_iff.mpr (by omega)
    obtain hfresh | ⟨b, rest, rfl, hb⟩ := isFresh_or_exists_continues rest
    · exact .inr (.truncated [] [0x80, 0x80] (.three ha hmore hmore) (by simp) hfresh)
    obtain hfresh | ⟨d, rest, rfl, hd⟩ := isFresh_or_exists_continues rest
    · exact .inr (.truncated [b] [0x80] (.three ha hb hmore) (by simp) hfresh)
    · exact .inl ⟨[b, d], rest, _, _, rfl, .three ha hb hd⟩
  by_cases hfour : a.toNat < 0xf8
  · have ha : within 0xf0 0xf7 a = true := within_iff.mpr (by omega)
    obtain hfresh | ⟨b, rest, rfl, hb⟩ := isFresh_or_exists_continues rest
    · exact .inr (.truncated [] [0x80, 0x80, 0x80] (.four ha hmore hmore hmore) (by simp) hfresh)
    obtain hfresh | ⟨d, rest, rfl, hd⟩ := isFresh_or_exists_continues rest
    · exact .inr (.truncated [b] [0x80, 0x80] (.four ha hb hmore hmore) (by simp) hfresh)
    obtain hfresh | ⟨e, rest, rfl, he⟩ := isFresh_or_exists_continues rest
    · exact .inr (.truncated [b, d] [0x80] (.four ha hb hd hmore) (by simp) hfresh)
    · exact .inl ⟨[b, d, e], rest, _, _, rfl, .four ha hb hd he⟩
  · exact .inr (.alien rest (within_iff.mpr (by omega)))

/-- Bytes begin with a character or with a fault. -/
theorem isCharacter_or_flawed (a : UInt8) (rest : Bytes) :
    (∃ tail behind value least, rest = tail ++ behind ∧ Spells (a :: tail) value least ∧
      IsCharacter value least) ∨ Flawed (a :: rest) := by
  obtain ⟨tail, behind, value, least, rfl, hspells⟩ | hflawed := spells_or_flawed a rest
  · exact (hspells.isCharacter_or_flawed behind).imp_left
      fun h => ⟨tail, behind, value, least, rfl, hspells, h⟩
  · exact .inr hflawed

/-! ### How it is read -/

theorem next_eq_nextTwo (ha : within 0xc2 0xdf a = true) (rest : Bytes) :
    next a rest = nextTwo a rest := by
  rw [next, if_neg (not_within_of_within ha (by decide)), if_pos ha]

theorem next_eq_nextThree (ha : within 0xe0 0xef a = true) (rest : Bytes) :
    next a rest = nextThree a rest := by
  rw [next, if_neg (not_within_of_within ha (by decide)),
    if_neg (not_within_of_within ha (by decide)), if_pos ha]

theorem next_eq_nextFour (ha : within 0xf0 0xf4 a = true) (rest : Bytes) :
    next a rest = nextFour a rest := by
  rw [next, if_neg (not_within_of_within ha (by decide)),
    if_neg (not_within_of_within ha (by decide)), if_neg (not_within_of_within ha (by decide)),
    if_pos ha]

/-- A byte that begins no character is a faulty piece by itself. -/
theorem next_of_alien (ha : within 0x80 0xc1 a = true ∨ within 0xf5 0xff a = true) (rest : Bytes) :
    next a rest = (none, rest) := by
  have hapart {low high : Nat} (h : (0xc1 < low ∨ high < 0x80) ∧ (0xff < low ∨ high < 0xf5)) :
      ¬ within low high a = true :=
    ha.elim (fun ha => not_within_of_within ha h.1) fun ha => not_within_of_within ha h.2
  rw [next, if_neg (hapart (by decide)), if_neg (hapart (by decide)), if_neg (hapart (by decide)),
    if_neg (hapart (by decide))]

/-- The second byte of three is in its range exactly if the value is that of a character. -/
theorem opensThree_iff (ha : within 0xe0 0xef a = true) (hb : continues b = true) (d : UInt8) :
    opensThree a b = true ↔
      IsCharacter ((a.toNat % 0x10 * 0x40 + payload b) * 0x40 + payload d) 0x800 := by
  have hd := payload_lt d
  constructor
  · exact fun h => value_of_opensThree ha h hd
  · rintro ⟨hleast, hvalid⟩
    have hlow : a = 0xe0 ↔ a.toNat = 0xe0 := UInt8.toNat_inj.symm
    have hsurrogate : a = 0xed ↔ a.toNat = 0xed := UInt8.toNat_inj.symm
    simp only [continues, payload, within_iff, Nat.isValidChar] at ha hb hd hleast hvalid
    simp only [opensThree, hlow, hsurrogate, continues]
    split_ifs <;> rw [within_iff] <;> omega

/-- The second byte of four is in its range, and the first one too, exactly if the value is that of
a character. -/
theorem opensFour_iff (ha : within 0xf0 0xf7 a = true) (hb : continues b = true) (d e : UInt8) :
    within 0xf0 0xf4 a = true ∧ opensFour a b = true ↔
      IsCharacter (((a.toNat % 0x08 * 0x40 + payload b) * 0x40 + payload d) * 0x40 + payload e)
        0x10000 := by
  have hd := payload_lt d
  have he := payload_lt e
  constructor
  · exact fun h => value_of_opensFour h.1 h.2 hd he
  · rintro ⟨hleast, hvalid⟩
    have hlow : a = 0xf0 ↔ a.toNat = 0xf0 := UInt8.toNat_inj.symm
    have hhigh : a = 0xf4 ↔ a.toNat = 0xf4 := UInt8.toNat_inj.symm
    simp only [continues, payload, within_iff, Nat.isValidChar] at ha hb hd he hleast hvalid
    refine ⟨within_iff.mpr (by omega), ?_⟩
    simp only [opensFour, hlow, hhigh, continues]
    split_ifs <;> rw [within_iff] <;> omega

/-- A first byte of two is in its range exactly if the value is that of a character. -/
theorem within_two_iff (ha : within 0xc0 0xdf a = true) (b : UInt8) :
    within 0xc2 0xdf a = true ↔ IsCharacter (a.toNat % 0x20 * 0x40 + payload b) 0x80 := by
  have hb := payload_lt b
  simp only [within_iff, IsCharacter, Nat.isValidChar] at ha ⊢
  omega

/-- A character that stands first is read. -/
theorem next_of_isCharacter (h : Spells (a :: tail) value least) (hvalue : IsCharacter value least)
    (behind : Bytes) : next a (tail ++ behind) = (some (Char.ofNat value), behind) := by
  cases h with
  | one ha => rw [next, if_pos ha, List.nil_append]
  | two ha hb =>
    rw [next_eq_nextTwo ((within_two_iff ha _).mpr hvalue), List.singleton_append, nextTwo,
      if_pos hb]
  | three ha hb hd =>
    have hopens := (opensThree_iff ha hb _).mpr hvalue
    rw [next_eq_nextThree ha]
    simp [nextThree, hopens, hd]
  | four ha hb hd he =>
    obtain ⟨hrange, hopens⟩ := (opensFour_iff ha hb _ _).mpr hvalue
    rw [next_eq_nextFour hrange]
    simp [nextFour, hopens, hd, he]

/-- A value that is no character's, or that is spelled in too many bytes, is not read. -/
theorem next_of_not_isCharacter (h : Spells (a :: tail) value least)
    (hvalue : ¬ IsCharacter value least) (behind : Bytes) :
    (next a (tail ++ behind)).1 = none := by
  cases h with
  | one ha =>
    refine absurd ⟨Nat.zero_le _, ?_⟩ hvalue
    rw [within_iff] at ha
    exact .inl (by omega)
  | two ha hb =>
    have hrange := (within_two_iff ha _).not.mpr hvalue
    rw [within_iff] at ha hrange
    rw [next_of_alien (.inl (within_iff.mpr (by omega)))]
  | three ha hb hd =>
    have hopens := (opensThree_iff ha hb _).not.mpr hvalue
    rw [next_eq_nextThree ha]
    simp [nextThree, hopens]
  | four ha hb hd he =>
    have hopens := (opensFour_iff ha hb _ _).not.mpr hvalue
    by_cases hrange : within 0xf0 0xf4 a = true
    · have hclosed : ¬ opensFour a _ = true := fun h => hopens ⟨hrange, h⟩
      rw [next_eq_nextFour hrange]
      simp [nextFour, hclosed]
    · rw [within_iff] at ha hrange
      rw [next_of_alien (.inr (within_iff.mpr (by omega)))]

theorem next_nil (ha : within 0xc0 0xf7 a = true) : (next a []).1 = none := by
  rw [next, if_neg (not_within_of_within ha (by decide))]
  split_ifs <;> rfl

/-- A character that is broken off at the end of the bytes is not read. -/
theorem next_of_missing {missing : Bytes} (h : Spells (a :: (tail ++ missing)) value least)
    (hmissing : missing ≠ []) : (next a tail).1 = none := by
  -- Wherever the bytes end, the reader for this first byte runs out of them.
  generalize hpiece : a :: (tail ++ missing) = piece at h
  cases h with
  | one ha =>
    obtain ⟨-, hnil⟩ := List.cons.inj hpiece
    exact absurd (List.append_eq_nil_iff.mp hnil).2 hmissing
  | two ha hb =>
    obtain ⟨rfl, hpiece⟩ := List.cons.inj hpiece
    rcases tail with _ | ⟨b, tail⟩
    · rw [within_iff] at ha
      exact next_nil (within_iff.mpr (by omega))
    · simp [hmissing] at hpiece
  | three ha hb hd =>
    obtain ⟨rfl, hpiece⟩ := List.cons.inj hpiece
    rw [next_eq_nextThree ha]
    rcases tail with _ | ⟨b, _ | ⟨d, tail⟩⟩
    · rfl
    · rw [nextThree]
      split <;> rfl
    · simp [hmissing] at hpiece
  | four ha hb hd he =>
    obtain ⟨rfl, hpiece⟩ := List.cons.inj hpiece
    -- The last of these first bytes are refused at once, since no character goes so high.
    by_cases hrange : within 0xf0 0xf4 a = true
    · rw [next_eq_nextFour hrange]
      rcases tail with _ | ⟨b, _ | ⟨d, _ | ⟨e, tail⟩⟩⟩
      · rfl
      · rw [nextFour]
        split <;> rfl
      · rw [nextFour]
        repeat' split
        all_goals rfl
      · simp [hmissing] at hpiece
    · rw [within_iff] at ha hrange
      rw [next_of_alien (.inr (within_iff.mpr (by omega)))]

/-- A fault that stands first is no character for the decoders. -/
theorem next_of_flawed (h : Flawed (a :: rest)) : (next a rest).1 = none := by
  cases h with
  | stray _ hb =>
    simp only [continues, within_iff] at hb
    rw [next_of_alien (.inl (within_iff.mpr (by omega)))]
  | alien _ hb =>
    rw [within_iff] at hb
    rw [next_of_alien (.inr (within_iff.mpr (by omega)))]
  | truncated tail missing hspells hmissing hfresh =>
    rw [keepsBehind_next a tail _ hfresh]
    exact next_of_missing hspells hmissing
  | overlong behind hspells hvalue =>
    exact next_of_not_isCharacter hspells (not_isCharacter_iff.mpr (.inl hvalue)) behind
  | surrogate behind hspells hvalue =>
    exact next_of_not_isCharacter hspells (not_isCharacter_iff.mpr (.inr (.inl hvalue))) behind
  | beyond behind hspells hvalue =>
    exact next_of_not_isCharacter hspells (not_isCharacter_iff.mpr (.inr (.inr hvalue))) behind

/-- What stands first is not read as a character exactly if it is a fault. -/
theorem next_eq_none_iff : (next a rest).1 = none ↔ Flawed (a :: rest) := by
  constructor
  · intro h
    obtain ⟨tail, behind, value, least, rfl, hspells, hvalue⟩ | hflawed :=
      isCharacter_or_flawed a rest
    · simp [next_of_isCharacter hspells hvalue behind] at h
    · exact hflawed
  · exact next_of_flawed

/-! ### The bytes of a character -/

/-- A byte that continues a character is its six bits and the mark of such a byte. -/
theorem toNat_of_continues (h : continues b = true) :
    b.toNat = payload b + 0x80 ∧ payload b < 0x40 := by
  rw [continues, within_iff] at h
  rw [payload]
  omega

theorem eq_ofNat_iff {n : Nat} (hn : n < 0x100) : b = UInt8.ofNat n ↔ b.toNat = n := by
  rw [← UInt8.toNat_inj, UInt8.toNat_ofNat_of_lt' hn]

/-- A first byte is made of a mark and of the bits that are put behind it. -/
theorem toNat_ofNat_add {n mark : Nat} (k : Nat) (hmark : mark + n ≤ 0x100) (hn : 0 < n) :
    (UInt8.ofNat (k % n + mark)).toNat = k % n + mark := by
  have hk := Nat.mod_lt k hn
  exact UInt8.toNat_ofNat_of_lt' (Nat.lt_of_lt_of_le (by omega) hmark)

/-- A byte that is made of the mark of those that continue and of six bits carries these. -/
theorem continues_ofNat (k : Nat) :
    continues (UInt8.ofNat (k % 0x40 + 0x80)) = true ∧
      payload (UInt8.ofNat (k % 0x40 + 0x80)) = k % 0x40 := by
  rw [continues, payload, within_iff, toNat_ofNat_add k (by decide) (by decide)]
  omega

/-- The bytes of a character spell its value, and no fewer would do. -/
theorem spells_utf8EncodeChar (c : Char) :
    ∃ least, Spells (String.utf8EncodeChar c) c.toNat least ∧ IsCharacter c.toNat least := by
  have hvalid : c.toNat.isValidChar := c.valid
  have hlast : c.toNat < 0x110000 := by
    rw [Nat.isValidChar] at hvalid
    omega
  rw [String.utf8EncodeChar, Char.toNat_val]
  generalize c.toNat = v at hvalid hlast
  -- In each length, the bits that the bytes carry are put together to the value again.
  split_ifs with hone htwo hthree
  · have ha : (UInt8.ofNat v).toNat = v :=
      UInt8.toNat_ofNat_of_lt' (Nat.lt_of_le_of_lt hone (by decide))
    have hspells := Spells.one (within_iff.mpr (by rw [ha]; omega))
    rw [ha] at hspells
    exact ⟨0, hspells, Nat.zero_le _, hvalid⟩
  · have ha := toNat_ofNat_add (v / 0x40) (show 0xc0 + 0x20 ≤ 0x100 by decide) (by decide)
    obtain ⟨hb, hbits⟩ := continues_ofNat v
    have hspells := Spells.two (within_iff.mpr (by rw [ha]; omega)) hb
    have hv : (v / 0x40 % 0x20 + 0xc0) % 0x20 * 0x40 + v % 0x40 = v := by omega
    rw [ha, hbits, hv] at hspells
    exact ⟨0x80, hspells, by omega, hvalid⟩
  · have ha := toNat_ofNat_add (v / 0x1000) (show 0xe0 + 0x10 ≤ 0x100 by decide) (by decide)
    obtain ⟨hb, hbits⟩ := continues_ofNat (v / 0x40)
    obtain ⟨hd, hbits'⟩ := continues_ofNat v
    have hspells := Spells.three (within_iff.mpr (by rw [ha]; omega)) hb hd
    have hv : ((v / 0x1000 % 0x10 + 0xe0) % 0x10 * 0x40 + v / 0x40 % 0x40) * 0x40 + v % 0x40 =
        v := by omega
    rw [ha, hbits, hbits', hv] at hspells
    exact ⟨0x800, hspells, by omega, hvalid⟩
  · have ha := toNat_ofNat_add (v / 0x40000) (show 0xf0 + 0x08 ≤ 0x100 by decide) (by decide)
    obtain ⟨hb, hbits⟩ := continues_ofNat (v / 0x1000)
    obtain ⟨hd, hbits'⟩ := continues_ofNat (v / 0x40)
    obtain ⟨he, hbits''⟩ := continues_ofNat v
    have hspells := Spells.four (within_iff.mpr (by rw [ha]; omega)) hb hd he
    have hv : (((v / 0x40000 % 0x08 + 0xf0) % 0x08 * 0x40 + v / 0x1000 % 0x40) * 0x40 +
        v / 0x40 % 0x40) * 0x40 + v % 0x40 = v := by omega
    rw [ha, hbits, hbits', hbits'', hv] at hspells
    exact ⟨0x10000, hspells, by omega, hvalid⟩

/-- A character is spelled in no other way. -/
theorem Spells.eq_utf8EncodeChar (h : Spells piece value least) (hvalue : IsCharacter value least) :
    piece = String.utf8EncodeChar (Char.ofNat value) := by
  obtain ⟨hleast, hvalid⟩ := hvalue
  rw [String.utf8EncodeChar, Char.toNat_val, toNat_ofNat hvalid]
  -- The least value of its length rules the shorter lengths out.
  cases h with
  | one ha =>
    rw [within_iff] at ha
    rw [if_pos ha.2, UInt8.ofNat_toNat]
  | two ha hb =>
    obtain ⟨hb, hbits⟩ := toNat_of_continues hb
    rw [within_iff] at ha
    rw [if_neg (by omega), if_pos (by omega)]
    simp only [List.cons.injEq, and_true]
    exact ⟨(eq_ofNat_iff (by omega)).mpr (by omega), (eq_ofNat_iff (by omega)).mpr (by omega)⟩
  | three ha hb hd =>
    obtain ⟨hb, hbits⟩ := toNat_of_continues hb
    obtain ⟨hd, hbits'⟩ := toNat_of_continues hd
    rw [within_iff] at ha
    rw [if_neg (by omega), if_neg (by omega), if_pos (by omega)]
    simp only [List.cons.injEq, and_true]
    exact ⟨(eq_ofNat_iff (by omega)).mpr (by omega), (eq_ofNat_iff (by omega)).mpr (by omega),
      (eq_ofNat_iff (by omega)).mpr (by omega)⟩
  | four ha hb hd he =>
    obtain ⟨hb, hbits⟩ := toNat_of_continues hb
    obtain ⟨hd, hbits'⟩ := toNat_of_continues hd
    obtain ⟨he, hbits''⟩ := toNat_of_continues he
    rw [within_iff] at ha
    rw [if_neg (by omega), if_neg (by omega), if_neg (by omega)]
    simp only [List.cons.injEq, and_true]
    exact ⟨(eq_ofNat_iff (by omega)).mpr (by omega), (eq_ofNat_iff (by omega)).mpr (by omega),
      (eq_ofNat_iff (by omega)).mpr (by omega), (eq_ofNat_iff (by omega)).mpr (by omega)⟩

/-! ### Decoding -/

/-- The bytes of a character are read as that character, whatever is behind them. -/
theorem exists_next_utf8EncodeChar (c : Char) (behind : Bytes) :
    ∃ a rest, String.utf8EncodeChar c ++ behind = a :: rest ∧ next a rest = (some c, behind) := by
  obtain ⟨least, hspells, hvalue⟩ := spells_utf8EncodeChar c
  generalize String.utf8EncodeChar c = piece at hspells
  cases piece with
  | nil => cases hspells
  | cons a tail =>
    refine ⟨a, tail ++ behind, rfl, ?_⟩
    rw [next_of_isCharacter hspells hvalue behind, Char.ofNat_toNat]

/-- A character is read where its bytes are, and nowhere else. -/
theorem next_eq_some_iff :
    next a rest = (some c, behind) ↔ a :: rest = String.utf8EncodeChar c ++ behind := by
  constructor
  · intro h
    obtain ⟨tail, behind', value, least, rfl, hspells, hvalue⟩ | hflawed :=
      isCharacter_or_flawed a rest
    · rw [next_of_isCharacter hspells hvalue behind', Prod.mk.injEq, Option.some.injEq] at h
      obtain ⟨rfl, rfl⟩ := h
      rw [← hspells.eq_utf8EncodeChar hvalue, List.cons_append]
    · have hnone := next_of_flawed hflawed
      simp [h] at hnone
  · intro h
    obtain ⟨first, behind', hpiece, hread⟩ := exists_next_utf8EncodeChar c behind
    obtain ⟨rfl, rfl⟩ := List.cons.inj (h.trans hpiece)
    exact hread

theorem encode_cons (c : Char) (text : Text) :
    encode (c :: text) = String.utf8EncodeChar c ++ encode text :=
  List.flatMap_cons

/-- The text in front of some bytes is decoded by itself. -/
theorem decode?_encode_append (text : Text) (rest : Bytes) :
    decode? (encode text ++ rest) = (decode? rest).map (text ++ ·) := by
  induction text with
  | nil => simp [encode]
  | cons c text ih =>
    obtain ⟨a, behind, hpiece, hread⟩ := exists_next_utf8EncodeChar c (encode text ++ rest)
    rw [encode_cons, List.append_assoc, hpiece, decode?, hread]
    simp [ih, Function.comp_def]

/-- Bytes are read as a text exactly if they are the bytes of the text. -/
theorem decode?_eq_some_iff : decode? bytes = some text ↔ encode text = bytes := by
  constructor
  · intro h
    induction bytes using decodeLossy.induct generalizing text with
    | case1 =>
      rw [decode?] at h
      rw [← Option.some.inj h]
      rfl
    | case2 first rest ih =>
      obtain ⟨c, behind, hfirst, hbehind, rfl⟩ := decode?_cons_eq_some_iff.mp h
      have hread : next first rest = (some c, (next first rest).2) := by rw [← hfirst]
      rw [next_eq_some_iff.mp hread, ← ih hbehind, encode_cons]
  · rintro rfl
    have hread := decode?_encode_append text []
    rw [List.append_nil, decode?] at hread
    simpa using hread

/-- Bytes are no text exactly if, behind the text that they begin with, there is a fault. -/
theorem decode?_eq_none_iff :
    decode? bytes = none ↔ ∃ text rest, bytes = encode text ++ rest ∧ Flawed rest := by
  constructor
  · intro h
    induction bytes using decodeLossy.induct with
    | case1 => simp [decode?] at h
    | case2 first rest ih =>
      cases hread : (next first rest).1 with
      | none => exact ⟨[], first :: rest, rfl, next_eq_none_iff.mp hread⟩
      | some c =>
        -- The first character belongs to the text, and the fault is behind it.
        rw [decode?, hread, Option.map_eq_none_iff] at h
        obtain ⟨text, flawed, hbehind, hflawed⟩ := ih h
        have hsome : next first rest = (some c, (next first rest).2) := by rw [← hread]
        refine ⟨c :: text, flawed, ?_, hflawed⟩
        rw [next_eq_some_iff.mp hsome, hbehind, encode_cons, List.append_assoc]
  · rintro ⟨text, rest, rfl, hflawed⟩
    rw [decode?_encode_append, Option.map_eq_none_iff]
    cases rest with
    | nil => cases hflawed
    | cons first rest => rw [decode?, next_of_flawed hflawed]

end Golden.Utf8
