import Golden.Proofs.Character

/-!
# Chunks of a stream

Lossy decoding takes bytes apart into chunks: characters, and faults where no character stands. A
fault is the longest piece with which a character could have begun, or one byte if there is none. So
it is told by the bytes of the characters alone, and bytes are taken apart in one way, which leaves
out no byte and takes none twice. The decoded text has one character for each chunk.

Bytes can be cut and decoded apart exactly where no chunk lies across the cut. In front of a byte
that does not continue a character none does, and behind a text none does either.

## Main definitions

* `Utf8.Begins` — a character can begin with some bytes
* `Utf8.IsFault` — a longest piece in front of others where no character stands
* `Utf8.Chunk` — a character or a fault, with its bytes and the character that is shown for it
* `Utf8.IsDivision` — chunks, each of which stands where it is

## Main results

* `Utf8.isFault_cons_iff` — what one step takes if it reads no character
* `Utf8.isPatient_next` — and why no byte could have made it longer
* `Utf8.existsUnique_isDivision` — bytes are divided into chunks in one way
* `Utf8.decodeLossy_joined` — and decoded chunk by chunk
* `Utf8.decodeLossy_append_iff` — where bytes can be cut
* `Utf8.decodeLossy_eq_append_ascii_iff` — where a character of one byte stands
* `Utf8.decodeLossy_follows_chunks` — lossy decoding as a whole
-/

namespace Golden.Utf8

/-- A character can begin with some bytes: they are the first of its bytes, or all of them. -/
def Begins (piece : Bytes) : Prop :=
  ∃ c, piece <+: String.utf8EncodeChar c

/-- No character stands first, and a piece is the longest with which one could have begun, or a
single byte if there is no such piece. -/
structure IsFault (piece behind : Bytes) : Prop where
  ne_nil : piece ≠ []
  not_character : ∀ c, ¬ String.utf8EncodeChar c <+: piece ++ behind
  begins : 1 < piece.length → Begins piece
  longest : ∀ other, other <+: piece ++ behind → Begins other → other.length ≤ piece.length

/-- What lossy decoding reads at a time. -/
inductive Chunk where
  | character (c : Char)
  | fault (piece : Bytes)
  deriving DecidableEq

namespace Chunk

/-- The bytes of a chunk. -/
def bytes : Chunk → Bytes
  | character c => String.utf8EncodeChar c
  | fault piece => piece

/-- The character of a chunk, if it is one. -/
def character? : Chunk → Option Char
  | character c => some c
  | fault _ => none

/-- The character that is shown for a chunk. -/
def shown (chunk : Chunk) : Char :=
  chunk.character?.getD replacement

/-- A chunk is what is read in front of some bytes. -/
def StandsBefore (behind : Bytes) : Chunk → Prop
  | character _ => True
  | fault piece => IsFault piece behind

end Chunk

/-- The bytes that chunks make up. -/
def joined (chunks : List Chunk) : Bytes :=
  chunks.flatMap Chunk.bytes

/-- Every chunk is what is read in front of those that follow. -/
def IsDivision : List Chunk → Prop
  | [] => True
  | chunk :: chunks => chunk.StandsBefore (joined chunks) ∧ IsDivision chunks

variable {a b : UInt8} {c : Char} {piece piece' tail behind behind' bytes rest taken : Bytes}
  {above below : Bytes} {chunk chunk' : Chunk} {chunks chunks' front more : List Chunk}

/-! ### Giving up -/

/-- A reading goes on to a character behind some bytes, if the right ones follow. -/
def GoesOn (read : Bytes → Option Char × Bytes) (taken : Bytes) : Prop :=
  ∃ missing c, read (taken ++ missing) = (some c, [])

/-- A reading gives up behind some bytes: it went on as far as these, if there are any, and the
first byte that follows rules a character out, whatever comes later. -/
structure GivesUp (read : Bytes → Option Char × Bytes) (taken behind : Bytes) : Prop where
  goes_on : taken ≠ [] → GoesOn read taken
  refuses : ∀ other, other.head? = behind.head? → read (taken ++ other) = (none, other)

/-- A reading that finds no character has given up in front of what it leaves. -/
def IsPatient (read : Bytes → Option Char × Bytes) : Prop :=
  ∀ bytes behind, read bytes = (none, behind) →
    ∃ taken, bytes = taken ++ behind ∧ GivesUp read taken behind

theorem isPatient_some (c : Char) : IsPatient fun rest => (some c, rest) := by
  intro bytes behind h
  cases h

theorem goesOn_some (c : Char) : GoesOn (fun rest => (some c, rest)) [] :=
  ⟨[], c, rfl⟩

section Expecting

variable {kind : UInt8 → Bool} {reads : UInt8 → Bytes → Option Char × Bytes}

theorem expecting_cons (hb : kind b = true) (rest : Bytes) :
    expecting kind reads (b :: rest) = reads b rest :=
  if_pos hb

/-- A byte of the expected kind brings a reading as far as the one behind it goes. -/
theorem GoesOn.cons (hb : kind b = true) (h : GoesOn (reads b) taken) :
    GoesOn (expecting kind reads) (b :: taken) := by
  obtain ⟨missing, c, hread⟩ := h
  exact ⟨missing, c, (expecting_cons hb _).trans hread⟩

theorem GoesOn.expecting (hb : kind b = true) (h : GoesOn (reads b) []) :
    GoesOn (expecting kind reads) [] := by
  obtain ⟨missing, c, hread⟩ := h.cons hb
  exact ⟨b :: missing, c, hread⟩

/-- A reading gives up at a byte that is not of the expected kind, or where the one behind an
expected byte does. -/
theorem IsPatient.expecting (hgoes : ∀ b, kind b = true → GoesOn (reads b) [])
    (hreads : ∀ b, IsPatient (reads b)) : IsPatient (expecting kind reads) := by
  intro bytes behind h
  rcases bytes with _ | ⟨b, rest⟩
  · -- The bytes run out, and nothing may follow them.
    obtain rfl := (Prod.mk.inj h).2
    refine ⟨[], rfl, by simp, fun other hother => ?_⟩
    rw [List.head?_nil, List.head?_eq_none_iff] at hother
    rw [hother]
    rfl
  by_cases hb : kind b = true
  · rw [expecting_cons hb] at h
    obtain ⟨taken, rfl, hgives⟩ := hreads b rest behind h
    refine ⟨b :: taken, rfl, fun _ => ?_, fun other hother => ?_⟩
    · -- If nothing more is taken, the expected byte itself must have been worth taking.
      by_cases htaken : taken = []
      · exact htaken ▸ (hgoes b hb).cons hb
      · exact (hgives.goes_on htaken).cons hb
    · rw [List.cons_append, expecting_cons hb, hgives.refuses other hother]
  · have hrefuses (other : Bytes) :
        Utf8.expecting kind reads (b :: other) = (none, b :: other) := if_neg hb
    obtain rfl : b :: rest = behind := by simpa [hrefuses] using h
    refine ⟨[], rfl, by simp, fun other hother => ?_⟩
    obtain ⟨other, rfl⟩ := List.head?_eq_some_iff.mp hother
    exact hrefuses other

end Expecting

theorem isPatient_nextTwo (a : UInt8) : IsPatient (nextTwo a) := by
  rw [nextTwo_eq_expecting]
  exact .expecting (fun _ _ => goesOn_some _) fun _ => isPatient_some _

theorem isPatient_nextThree (a : UInt8) : IsPatient (nextThree a) := by
  have hmore : continues 0x80 = true := rfl
  rw [nextThree_eq_expecting]
  exact .expecting (fun _ _ => .expecting hmore (goesOn_some _)) fun _ =>
    .expecting (fun _ _ => goesOn_some _) fun _ => isPatient_some _

theorem isPatient_nextFour (a : UInt8) : IsPatient (nextFour a) := by
  have hmore : continues 0x80 = true := rfl
  rw [nextFour_eq_expecting]
  exact .expecting (fun _ _ => .expecting hmore (.expecting hmore (goesOn_some _))) fun _ =>
    .expecting (fun _ _ => .expecting hmore (goesOn_some _)) fun _ =>
      .expecting (fun _ _ => goesOn_some _) fun _ => isPatient_some _

/-- A step that reads no character takes a piece that no byte could have made longer. -/
theorem isPatient_next (a : UInt8) : IsPatient (next a) := by
  by_cases hone : within 0x00 0x7f a = true
  · intro rest behind h
    rw [next, if_pos hone] at h
    cases h
  by_cases htwo : within 0xc2 0xdf a = true
  · rw [funext (next_eq_nextTwo htwo)]
    exact isPatient_nextTwo a
  by_cases hthree : within 0xe0 0xef a = true
  · rw [funext (next_eq_nextThree hthree)]
    exact isPatient_nextThree a
  by_cases hfour : within 0xf0 0xf4 a = true
  · rw [funext (next_eq_nextFour hfour)]
    exact isPatient_nextFour a
  -- A byte that begins nothing is a piece by itself, and nothing behind it matters.
  have hnext (other : Bytes) : next a other = (none, other) := by
    rw [next, if_neg hone, if_neg htwo, if_neg hthree, if_neg hfour]
  intro rest behind h
  obtain rfl : rest = behind := by simpa [hnext] using h
  exact ⟨[], rfl, by simp, fun other _ => hnext other⟩

/-! ### Faults -/

/-- What is taken where no character is read is a fault. -/
theorem isFault_of_next (h : next a (tail ++ behind) = (none, behind)) :
    IsFault (a :: tail) behind := by
  obtain ⟨taken, htaken, hgives⟩ := isPatient_next _ _ _ h
  obtain rfl := List.append_cancel_right htaken
  refine ⟨List.cons_ne_nil a tail, ?_, fun hlength => ?_, ?_⟩
  · rintro c ⟨other, hother⟩
    have hread : next a (tail ++ behind) = (some c, other) := next_eq_some_iff.mpr hother.symm
    cases h.symm.trans hread
  · have htail : tail ≠ [] := by
      rintro rfl
      simp at hlength
    obtain ⟨missing, c, hread⟩ := hgives.goes_on htail
    rw [next_eq_some_iff, List.append_nil] at hread
    exact ⟨c, missing, hread⟩
  · -- A longer piece would go on with the byte that rules every character out.
    rintro other hother ⟨c, missing, hmissing⟩
    refine Nat.le_of_not_lt fun hlonger => ?_
    obtain ⟨later, rfl⟩ :=
      List.prefix_of_prefix_length_le (List.prefix_append _ _) hother (Nat.le_of_lt hlonger)
    have hlater : later <+: behind := (List.prefix_append_right_inj _).mp hother
    have hne : later ≠ [] := by
      rintro rfl
      simp at hlonger
    have hhead : (later ++ missing).head? = behind.head? := by
      obtain ⟨last, rfl⟩ := hlater
      rw [List.head?_append_of_ne_nil _ hne, List.head?_append_of_ne_nil _ hne]
    have hread : next a (tail ++ (later ++ missing)) = (some c, []) :=
      next_eq_some_iff.mpr (by simpa using hmissing)
    cases (hgives.refuses _ hhead).symm.trans hread

/-- Of two faults in front of the same bytes neither is shorter. -/
theorem IsFault.length_le (h : IsFault piece behind) (h' : IsFault piece' behind')
    (heq : piece ++ behind = piece' ++ behind') : piece.length ≤ piece'.length := by
  by_cases hlong : 1 < piece.length
  · exact h'.longest piece (heq ▸ List.prefix_append piece behind) (h.begins hlong)
  · have hpos := List.length_pos_iff.mpr h'.ne_nil
    omega

/-- What is taken as a fault is told by the bytes. -/
theorem IsFault.unique (h : IsFault piece behind) (h' : IsFault piece' behind')
    (heq : piece ++ behind = piece' ++ behind') : piece = piece' ∧ behind = behind' :=
  List.append_inj heq (Nat.le_antisymm (h.length_le h' heq) (h'.length_le h heq.symm))

/-- **A step that reads no character takes a fault.** It takes the longest piece with which one
could have begun, and where there is a fault it takes it. -/
theorem isFault_cons_iff :
    IsFault (a :: tail) behind ↔ next a (tail ++ behind) = (none, behind) := by
  refine ⟨fun h => ?_, isFault_of_next⟩
  -- What the step takes is a fault too, and there is only one.
  rcases hread : next a (tail ++ behind) with ⟨_ | c, behind'⟩
  · obtain ⟨tail', htail, -⟩ := isPatient_next _ _ _ hread
    rw [htail] at hread
    have heq : a :: tail ++ behind = a :: tail' ++ behind' := by
      rw [List.cons_append, htail, List.cons_append]
    rw [(h.unique (isFault_of_next hread) heq).2]
  · rw [next_eq_some_iff] at hread
    exact absurd ⟨behind', hread.symm⟩ (h.not_character c)

instance : ∀ piece behind, Decidable (IsFault piece behind)
  | [], _ => .isFalse fun h => h.ne_nil rfl
  | _ :: _, _ => decidable_of_iff _ isFault_cons_iff.symm

/-- A fault is of three bytes at most: it lacks at least one byte of a character. -/
theorem IsFault.length_le_three (h : IsFault piece behind) : piece.length ≤ 3 := by
  by_cases hlong : 1 < piece.length
  · obtain ⟨c, missing, hmissing⟩ := h.begins hlong
    have hne : missing ≠ [] := by
      rintro rfl
      rw [List.append_nil] at hmissing
      exact h.not_character c (hmissing ▸ List.prefix_append piece behind)
    have hpos := List.length_pos_iff.mpr hne
    have hfour := c.utf8Size_le_four
    rw [← String.length_utf8EncodeChar, ← hmissing, List.length_append] at hfour
    omega
  · omega

/-- A fault is one whatever is taken away from the end of the bytes behind it. -/
theorem IsFault.of_isPrefix (h : IsFault piece behind) (hbehind : behind' <+: behind) :
    IsFault piece behind' := by
  have hless : piece ++ behind' <+: piece ++ behind := (List.prefix_append_right_inj _).mpr hbehind
  exact ⟨h.ne_nil, fun c hc => h.not_character c (hc.trans hless), h.begins,
    fun other hother => h.longest other (hother.trans hless)⟩

/-- All bytes of a character but the first one continue it. -/
theorem Spells.continues_of_mem {value least : Nat} (h : Spells (a :: tail) value least)
    (hb : b ∈ tail) : continues b = true := by
  cases h with
  | one ha => simp at hb
  | two ha hd =>
    obtain rfl := List.mem_singleton.mp hb
    exact hd
  | three ha hd he =>
    obtain rfl | rfl : b = _ ∨ b = _ := by simpa using hb
    exacts [hd, he]
  | four ha hd he hf =>
    obtain rfl | rfl | rfl : b = _ ∨ b = _ ∨ b = _ := by simpa using hb
    exacts [hd, he, hf]

theorem continues_of_mem_utf8EncodeChar (h : String.utf8EncodeChar c = a :: tail) (hb : b ∈ tail) :
    continues b = true := by
  obtain ⟨least, hspells, -⟩ := spells_utf8EncodeChar c
  exact (h ▸ hspells).continues_of_mem hb

/-! ### One chunk -/

namespace Chunk

/-- A chunk is told by its bytes and by whether they are a character. -/
theorem eq_of_bytes_eq (hcharacter : chunk.character? = chunk'.character?)
    (hbytes : chunk.bytes = chunk'.bytes) : chunk = chunk' := by
  cases chunk <;> cases chunk' <;> simp_all [character?, bytes]

/-- A chunk that stands in front of some bytes is what the step takes there. -/
theorem StandsBefore.exists_next (h : chunk.StandsBefore behind) :
    ∃ a rest, chunk.bytes ++ behind = a :: rest ∧ next a rest = (chunk.character?, behind) := by
  cases chunk with
  | character c => exact exists_next_utf8EncodeChar c behind
  | fault piece =>
    obtain ⟨a, tail, rfl⟩ := List.exists_cons_of_ne_nil h.ne_nil
    exact ⟨a, tail ++ behind, rfl, isFault_cons_iff.mp h⟩

/-- What a step takes is a chunk. -/
theorem exists_standsBefore (a : UInt8) (rest : Bytes) :
    ∃ chunk : Chunk, chunk.StandsBefore (next a rest).2 ∧
      chunk.bytes ++ (next a rest).2 = a :: rest := by
  rcases hread : next a rest with ⟨_ | c, behind⟩
  · obtain ⟨tail, rfl, -⟩ := isPatient_next _ _ _ hread
    exact ⟨.fault (a :: tail), isFault_of_next hread, rfl⟩
  · exact ⟨.character c, trivial, (next_eq_some_iff.mp hread).symm⟩

theorem StandsBefore.of_isPrefix (h : chunk.StandsBefore behind) (hbehind : behind' <+: behind) :
    chunk.StandsBefore behind' := by
  cases chunk with
  | character c => trivial
  | fault piece => exact IsFault.of_isPrefix h hbehind

instance (behind : Bytes) : ∀ chunk : Chunk, Decidable (chunk.StandsBefore behind)
  | character _ => inferInstanceAs (Decidable True)
  | fault piece => inferInstanceAs (Decidable (IsFault piece behind))

/-- No byte of a chunk but the first one begins anything. -/
theorem StandsBefore.continues_of_mem (h : chunk.StandsBefore behind)
    (hbytes : chunk.bytes = a :: tail) (hb : b ∈ tail) : continues b = true := by
  cases chunk with
  | character c => exact continues_of_mem_utf8EncodeChar hbytes hb
  | fault piece =>
    obtain rfl : piece = a :: tail := hbytes
    have hlong : 1 < (a :: tail).length := by
      have hpos := List.length_pos_of_mem hb
      rw [List.length_cons]
      omega
    obtain ⟨c, missing, hmissing⟩ := h.begins hlong
    exact continues_of_mem_utf8EncodeChar hmissing.symm (List.mem_append_left missing hb)

end Chunk

/-! ### Divisions -/

theorem joined_cons (chunk : Chunk) (chunks : List Chunk) :
    joined (chunk :: chunks) = chunk.bytes ++ joined chunks :=
  List.flatMap_cons

theorem joined_append (front more : List Chunk) :
    joined (front ++ more) = joined front ++ joined more :=
  List.flatMap_append

instance decidableIsDivision : ∀ chunks, Decidable (IsDivision chunks)
  | [] => inferInstanceAs (Decidable True)
  | chunk :: chunks =>
    have := decidableIsDivision chunks
    inferInstanceAs (Decidable (chunk.StandsBefore (joined chunks) ∧ IsDivision chunks))

/-- Bytes are taken apart into chunks. -/
theorem exists_isDivision (bytes : Bytes) :
    ∃ chunks, IsDivision chunks ∧ joined chunks = bytes := by
  induction bytes using decodeLossy.induct with
  | case1 => exact ⟨[], trivial, rfl⟩
  | case2 first rest ih =>
    obtain ⟨chunk, hstands, hbytes⟩ := Chunk.exists_standsBefore first rest
    obtain ⟨chunks, hchunks, hjoined⟩ := ih
    refine ⟨chunk :: chunks, ⟨hjoined ▸ hstands, hchunks⟩, ?_⟩
    rw [joined_cons, hjoined, hbytes]

/-- Bytes are not taken apart in two ways, since a step takes what stands first. -/
theorem IsDivision.unique (h : IsDivision chunks) (h' : IsDivision chunks')
    (heq : joined chunks = joined chunks') : chunks = chunks' := by
  have hne {chunk : Chunk} {chunks : List Chunk} (h : IsDivision (chunk :: chunks)) :
      joined (chunk :: chunks) ≠ [] := by
    obtain ⟨a, rest, hbytes, -⟩ := h.1.exists_next
    rw [joined_cons, hbytes]
    exact List.cons_ne_nil a rest
  induction chunks generalizing chunks' with
  | nil =>
    cases chunks' with
    | nil => rfl
    | cons chunk' chunks' => exact absurd heq.symm (hne h')
  | cons chunk chunks ih =>
    cases chunks' with
    | nil => exact absurd heq (hne h)
    | cons chunk' chunks' =>
      obtain ⟨a, rest, hbytes, hread⟩ := h.1.exists_next
      obtain ⟨a', rest', hbytes', hread'⟩ := h'.1.exists_next
      -- The bytes are the same, and so the step takes the same in front of the same.
      rw [joined_cons, joined_cons] at heq
      obtain ⟨rfl, rfl⟩ := List.cons.inj (hbytes.symm.trans (heq.trans hbytes'))
      obtain ⟨hcharacter, hbehind⟩ := Prod.mk.inj (hread.symm.trans hread')
      rw [hbehind] at heq
      rw [Chunk.eq_of_bytes_eq hcharacter (List.append_cancel_right heq), ih h.2 h'.2 hbehind]

/-- **Bytes are divided into chunks in one way.** -/
theorem existsUnique_isDivision (bytes : Bytes) :
    ∃! chunks, IsDivision chunks ∧ joined chunks = bytes := by
  obtain ⟨chunks, hchunks, hjoined⟩ := exists_isDivision bytes
  exact ⟨chunks, ⟨hchunks, hjoined⟩,
    fun chunks' h => h.1.unique hchunks (h.2.trans hjoined.symm)⟩

/-- **Bytes are decoded chunk by chunk.** -/
theorem decodeLossy_joined (h : IsDivision chunks) :
    decodeLossy (joined chunks) = chunks.map Chunk.shown := by
  induction chunks with
  | nil => simp [joined, decodeLossy]
  | cons chunk chunks ih =>
    obtain ⟨a, rest, hbytes, hread⟩ := h.1.exists_next
    rw [joined_cons, hbytes, decodeLossy, hread, ih h.2, List.map_cons, Chunk.shown]

theorem IsDivision.of_append_right (h : IsDivision (front ++ more)) : IsDivision more := by
  induction front with
  | nil => exact h
  | cons chunk front ih => exact ih h.2

/-- The chunks in front keep standing where they are if those behind them are replaced by others for
some of the same bytes. -/
theorem IsDivision.replace (h : IsDivision (front ++ more)) (hchunks : IsDivision chunks)
    (hless : joined chunks <+: joined more) : IsDivision (front ++ chunks) := by
  induction front with
  | nil => exact hchunks
  | cons chunk front ih =>
    have hbehind : joined (front ++ chunks) <+: joined (front ++ more) := by
      rw [joined_append, joined_append]
      exact (List.prefix_append_right_inj _).mpr hless
    exact ⟨h.1.of_isPrefix hbehind, ih h.2⟩

theorem IsDivision.of_append_left (h : IsDivision (front ++ more)) : IsDivision front :=
  List.append_nil front ▸ h.replace trivial List.nil_prefix

/-! ### Cuts -/

/-- A cut through the bytes of chunks is between two of them, or it is inside one. -/
theorem exists_cut (h : joined chunks = above ++ below) :
    (∃ front more, chunks = front ++ more ∧ joined front = above ∧ joined more = below) ∨
      ∃ front chunk more a tail b rest, chunks = front ++ chunk :: more ∧
        chunk.bytes = a :: tail ++ b :: rest ∧ above = joined front ++ a :: tail ∧
        below = b :: rest ++ joined more := by
  rw [joined, List.flatMap_def, List.flatten_eq_append_iff] at h
  obtain ⟨_, _, hchunks, rfl, rfl⟩ | ⟨_, part, b, rest, _, hchunks, rfl, rfl⟩ := h
  · obtain ⟨front, more, rfl, rfl, rfl⟩ := List.map_eq_append_iff.mp hchunks
    exact .inl ⟨front, more, rfl, List.flatMap_def, List.flatMap_def⟩
  · obtain ⟨front, _, rfl, rfl, hmore⟩ := List.map_eq_append_iff.mp hchunks
    obtain ⟨chunk, more, rfl, hbytes, rfl⟩ := List.map_eq_cons_iff.mp hmore
    -- The cut may still lie just in front of the chunk.
    cases part with
    | nil =>
      refine .inl ⟨front, chunk :: more, rfl, ?_, ?_⟩
      · rw [joined, List.flatMap_def, List.append_nil]
      · rw [joined_cons, hbytes, List.nil_append, joined, List.flatMap_def]
    | cons a tail =>
      refine .inr ⟨front, chunk, more, a, tail, b, rest, rfl, hbytes, ?_, ?_⟩
      · rw [joined, List.flatMap_def]
      · rw [joined, List.flatMap_def]

/-- Bytes that continue characters are faults one by one where no character was begun. -/
theorem decodeLossy_of_continues (h : ∀ b ∈ piece, continues b = true) (behind : Bytes) :
    decodeLossy (piece ++ behind) = piece.map (fun _ => replacement) ++ decodeLossy behind := by
  induction piece with
  | nil => rfl
  | cons b piece ih =>
    obtain ⟨hb, hpiece⟩ := List.forall_mem_cons.mp h
    have hread : next b (piece ++ behind) = (none, piece ++ behind) := by
      simp only [continues, within_iff] at hb
      exact next_of_alien (.inl (within_iff.mpr (by omega))) _
    rw [List.cons_append, decodeLossy, hread, ih hpiece]
    rfl

/-- A cut inside a chunk shows: either part of the chunk is decoded to something, and the chunks
around it are decoded as before. -/
theorem length_decodeLossy_lt_of_across (h : IsDivision (front ++ chunk :: more))
    (hbytes : chunk.bytes = a :: tail ++ b :: rest) :
    (decodeLossy (joined (front ++ chunk :: more))).length <
      (decodeLossy (joined front ++ a :: tail)).length +
        (decodeLossy (b :: rest ++ joined more)).length := by
  obtain ⟨hstands, hmore⟩ := h.of_append_right
  have habove : front.length < (decodeLossy (joined front ++ a :: tail)).length := by
    -- The first part is divided anew, which makes no difference to the chunks in front of it.
    obtain ⟨chunks, hchunks, hjoined⟩ := exists_isDivision (a :: tail)
    have hne : chunks ≠ [] := by
      rintro rfl
      cases hjoined
    have hless : joined chunks <+: joined (chunk :: more) := by
      rw [hjoined, joined_cons, hbytes, List.append_assoc]
      exact List.prefix_append _ _
    rw [← hjoined, ← joined_append, decodeLossy_joined (h.replace hchunks hless),
      List.length_map, List.length_append]
    have hpos := List.length_pos_iff.mpr hne
    omega
  have hbelow : more.length < (decodeLossy (b :: rest ++ joined more)).length := by
    -- The other part is nothing but bytes that continue a character.
    have hcontinues : ∀ d ∈ b :: rest, continues d = true := fun d hd =>
      hstands.continues_of_mem hbytes (List.mem_append_right tail hd)
    rw [decodeLossy_of_continues hcontinues, decodeLossy_joined hmore, List.length_append,
      List.length_map, List.length_map, List.length_cons]
    omega
  rw [decodeLossy_joined h, List.length_map, List.length_append, List.length_cons]
  omega

/-- **Bytes can be cut and decoded apart exactly between chunks.** -/
theorem decodeLossy_append_iff :
    decodeLossy (above ++ below) = decodeLossy above ++ decodeLossy below ↔
      ∃ front more, IsDivision (front ++ more) ∧ joined front = above ∧ joined more = below := by
  constructor
  · intro h
    obtain ⟨chunks, hchunks, hjoined⟩ := exists_isDivision (above ++ below)
    obtain ⟨front, more, rfl, hfront, hmore⟩ |
      ⟨front, chunk, more, a, tail, b, rest, rfl, hbytes, rfl, rfl⟩ := exists_cut hjoined
    · exact ⟨front, more, hchunks, hfront, hmore⟩
    · have hlt := length_decodeLossy_lt_of_across hchunks hbytes
      rw [hjoined, h, List.length_append] at hlt
      exact absurd hlt (Nat.lt_irrefl _)
  · rintro ⟨front, more, h, rfl, rfl⟩
    rw [← joined_append, decodeLossy_joined h, decodeLossy_joined h.of_append_left,
      decodeLossy_joined h.of_append_right, List.map_append]

/-- A cut inside a character makes two faults of it. -/
example : decodeLossy ([0xe2, 0x82] ++ [0xac]) = ['€'] ∧
    decodeLossy [0xe2, 0x82] ++ decodeLossy [0xac] = [replacement, replacement] := by
  decide +kernel

/-- The characters of a text stand in front of any chunks. -/
theorem IsDivision.characters (h : IsDivision chunks) (text : Text) :
    IsDivision (text.map .character ++ chunks) := by
  induction text with
  | nil => exact h
  | cons c text ih => exact ⟨trivial, ih⟩

theorem joined_characters (text : Text) : joined (text.map .character) = encode text :=
  List.flatMap_map _ _ text

/-- **A text is decoded by itself**, whatever is behind it. -/
theorem decodeLossy_encode_append (text : Text) (below : Bytes) :
    decodeLossy (encode text ++ below) = decodeLossy (encode text) ++ decodeLossy below := by
  obtain ⟨chunks, hchunks, hjoined⟩ := exists_isDivision below
  exact decodeLossy_append_iff.mpr
    ⟨text.map .character, chunks, hchunks.characters text, joined_characters text, hjoined⟩

/-! ### Characters of one byte -/

/-- **A character of one byte stands where its byte stands.** What is in front of the one is decoded
from what is in front of the other, and so is what is behind it. -/
theorem decodeLossy_eq_append_ascii_iff {before after : Text} (hb : IsAscii b) :
    decodeLossy bytes = before ++ ascii b :: after ↔
      ∃ above below, bytes = above ++ b :: below ∧ decodeLossy above = before ∧
        decodeLossy below = after := by
  constructor
  · intro h
    obtain ⟨chunks, hchunks, rfl⟩ := exists_isDivision bytes
    rw [decodeLossy_joined hchunks] at h
    obtain ⟨front, _, rfl, hbefore, hrest⟩ := List.map_eq_append_iff.mp h
    obtain ⟨chunk, more, rfl, hshown, hafter⟩ := List.map_eq_cons_iff.mp hrest
    obtain ⟨hstands, hmore⟩ := hchunks.of_append_right
    obtain ⟨a, rest, hbytes, hread⟩ := hstands.exists_next
    -- What the step takes there is the one byte.
    obtain ⟨rfl, hbehind⟩ := next_of_getD_eq_ascii hb (by rw [hread]; exact hshown)
    obtain rfl : joined more = rest := by rwa [hread] at hbehind
    refine ⟨joined front, joined more, ?_, ?_, ?_⟩
    · rw [joined_append, joined_cons, hbytes]
    · rw [decodeLossy_joined hchunks.of_append_left, hbefore]
    · rw [decodeLossy_joined hmore, hafter]
  · rintro ⟨above, below, rfl, rfl, rfl⟩
    rw [decodeLossy_append (isFresh_ascii hb below), decodeLossy_ascii hb]

/-! ### Lossy decoding as a whole -/

/-- **Lossy decoding goes chunk by chunk.** Bytes can be cut and decoded apart in front of a byte
that does not continue a character, and behind a text. A character of one byte is in the decoded
text where its byte is among the bytes, with the same on either side. Bytes are divided into chunks
in one way, characters and longest faulty pieces, which leaves out no byte and takes none twice; the
decoded text has the character of a chunk that is one, and a replacement character for each faulty
piece, which is of one to three bytes. -/
theorem decodeLossy_follows_chunks :
    (∀ above below : Bytes, (IsFresh below ∨ ∃ text, encode text = above) →
      decodeLossy (above ++ below) = decodeLossy above ++ decodeLossy below) ∧
    (∀ b : UInt8, IsAscii b → ∀ (bytes : Bytes) (before after : Text),
      decodeLossy bytes = before ++ ascii b :: after ↔
        ∃ above below, bytes = above ++ b :: below ∧ decodeLossy above = before ∧
          decodeLossy below = after) ∧
    (∀ bytes : Bytes, ∃! chunks, IsDivision chunks ∧ joined chunks = bytes) ∧
    ∀ chunks : List Chunk, IsDivision chunks →
      decodeLossy (joined chunks) = chunks.map Chunk.shown ∧
      ∀ front piece more, chunks = front ++ .fault piece :: more →
        IsFault piece (joined more) ∧ 1 ≤ piece.length ∧ piece.length ≤ 3 := by
  refine ⟨?_, fun b hb bytes before after => decodeLossy_eq_append_ascii_iff hb,
    existsUnique_isDivision, fun chunks hchunks => ⟨decodeLossy_joined hchunks, ?_⟩⟩
  · rintro above below (hfresh | ⟨text, rfl⟩)
    · exact decodeLossy_append hfresh above
    · exact decodeLossy_encode_append text below
  · rintro front piece more rfl
    obtain ⟨hfault, -⟩ := hchunks.of_append_right
    exact ⟨hfault, List.length_pos_iff.mpr hfault.ne_nil, hfault.length_le_three⟩

/-- A letter and half a character, and behind them a letter, a replacement character that was there
before and half a surrogate. The half character goes as one piece and the half surrogate byte by
byte, since its second byte is out of the range that the first one leaves to it. -/
theorem decodeLossy_follows_chunks_broken :
    let above : Bytes := [0x61, 0xf0, 0x9f]
    let below : Bytes := [0x41, 0xef, 0xbf, 0xbd, 0xed, 0xa0]
    let behind : List Chunk :=
      [.character 'A', .character replacement, .fault [0xed], .fault [0xa0]]
    let chunks : List Chunk := .character 'a' :: .fault [0xf0, 0x9f] :: behind
    (IsFresh below ∧ decodeLossy (above ++ below) = decodeLossy above ++ decodeLossy below) ∧
    (encode ['é'] = [0xc3, 0xa9] ∧ ¬ IsFresh [0xa9] ∧
      decodeLossy ([0xc3, 0xa9] ++ [0xa9]) = decodeLossy [0xc3, 0xa9] ++ decodeLossy [0xa9]) ∧
    (IsAscii 0x41 ∧
      decodeLossy (above ++ below) =
        ['a', replacement] ++ 'A' :: [replacement, replacement, replacement]) ∧
    IsDivision chunks ∧ joined chunks = above ++ below ∧
      decodeLossy (joined chunks) = chunks.map Chunk.shown ∧
      IsFault [0xf0, 0x9f] (joined behind) := by
  intro above below behind chunks
  obtain ⟨hcut, hascii, -, hchunks⟩ := decodeLossy_follows_chunks
  have hfresh : IsFresh below := isFresh_cons.mpr rfl
  have htext : encode ['é'] = [0xc3, 0xa9] := by decide
  have hstray : ¬ IsFresh [0xa9] := isFresh_cons.not.mpr (by decide)
  have hone : IsAscii 0x41 := by decide
  have hdivision : IsDivision chunks := by decide
  obtain ⟨hdecode, hfaults⟩ := hchunks chunks hdivision
  obtain ⟨hfault, -, -⟩ := hfaults [.character 'a'] [0xf0, 0x9f] behind rfl
  refine ⟨⟨hfresh, hcut above below (.inl hfresh)⟩,
    ⟨htext, hstray, hcut [0xc3, 0xa9] [0xa9] (.inr ⟨['é'], htext⟩)⟩, ⟨hone, ?_⟩,
    hdivision, by decide, hdecode, hfault⟩
  exact (hascii 0x41 hone (above ++ below) ['a', replacement] _).mpr
    ⟨above, below.tail, rfl, by decide +kernel, by decide +kernel⟩

end Golden.Utf8
