import Golden.Outcome
import Golden.Proofs.Lines

/-!
# Strict and lossy decoding

The two decoders take the same steps through a byte sequence and differ only in what they make of a
faulty piece. So a test case that is text is split into the same lines whether it is read as a file
or as what a subject has written.

A step never looks beyond a byte that does not continue a character. Lossy decoding can therefore be
done on both sides of a cut in front of such a byte, and a line feed is one: no faulty piece
swallows it, and bytes that end with it keep their lines whatever is written behind them.

## Main definitions

* `Utf8.IsFresh` — bytes with which no character goes on
* `Utf8.expecting` — a reading that expects a byte of some kind
* `EndsLine` — bytes that leave no line unfinished

## Main results

* `Utf8.decodeLossy_eq_of_decode?` — bytes that are text are lossily read as that text
* `Outcome.linesOf_eq_of_decode?` — and split into its lines
* `Utf8.decodeLossy_append` — lossy decoding on both sides of a cut
* `Outcome.linesOf_append` — the lines on both sides of a cut behind a line feed
-/

namespace Golden

variable {bytes more : Bytes} {text : Text} {first b : UInt8}

namespace Utf8

/-- A text that begins with some byte is the character that the byte opens and the text behind
it. -/
theorem decode?_cons_eq_some_iff {first : UInt8} {rest : Bytes} :
    decode? (first :: rest) = some text ↔
      ∃ c behind, (next first rest).1 = some c ∧ decode? (next first rest).2 = some behind ∧
        text = c :: behind := by
  rw [decode?]
  cases (next first rest).1 with
  | none => simp
  | some c => simp [eq_comm (a := text)]

/-- Bytes that are text are lossily read as that text. -/
theorem decodeLossy_eq_of_decode? (h : decode? bytes = some text) : decodeLossy bytes = text := by
  induction bytes using decodeLossy.induct generalizing text with
  | case1 =>
    rw [decode?] at h
    rw [decodeLossy, Option.some.inj h]
  | case2 first rest ih =>
    obtain ⟨c, behind, hfirst, hbehind, rfl⟩ := decode?_cons_eq_some_iff.mp h
    rw [decodeLossy, hfirst, ih hbehind, Option.getD_some]

/-! ### Cuts -/

/-- No character that was begun before goes on with the bytes: there are none, or the first of them
does not continue a character. -/
def IsFresh (bytes : Bytes) : Prop :=
  ∀ b ∈ bytes.head?, continues b = false

theorem isFresh_cons {rest : Bytes} : IsFresh (b :: rest) ↔ continues b = false := by
  simp [IsFresh]

/-- The second byte of a character of three bytes continues it, whatever the first one is. -/
theorem opensThree_of_not_continues (h : continues b = false) (first : UInt8) :
    opensThree first b = false := by
  simp only [continues, opensThree, within, Bool.and_eq_false_iff, decide_eq_false_iff_not] at h ⊢
  split_ifs <;> simp only [Bool.and_eq_false_iff, decide_eq_false_iff_not] <;> omega

theorem opensFour_of_not_continues (h : continues b = false) (first : UInt8) :
    opensFour first b = false := by
  simp only [continues, opensFour, within, Bool.and_eq_false_iff, decide_eq_false_iff_not] at h ⊢
  split_ifs <;> simp only [Bool.and_eq_false_iff, decide_eq_false_iff_not] <;> omega

/-- A reading that takes what it needs from some bytes, and leaves the others as they are, whatever
fresh bytes come behind them. -/
def KeepsBehind (read : Bytes → Option Char × Bytes) : Prop :=
  ∀ bytes more, IsFresh more → read (bytes ++ more) = ((read bytes).1, (read bytes).2 ++ more)

/-- A reading that expects a byte of some kind, and goes on behind it with a reading of its own. -/
def expecting (kind : UInt8 → Bool) (read : UInt8 → Bytes → Option Char × Bytes) :
    Bytes → Option Char × Bytes
  | [] => (none, [])
  | b :: rest => if kind b then read b rest else (none, b :: rest)

theorem nextTwo_eq_expecting (first : UInt8) :
    nextTwo first = expecting continues fun b rest =>
      (some (Char.ofNat (first.toNat % 0x20 * 0x40 + payload b)), rest) := by
  funext bytes
  cases bytes <;> rfl

theorem nextThree_eq_expecting (first : UInt8) :
    nextThree first = expecting (opensThree first) fun b => expecting continues fun c rest =>
      (some (Char.ofNat ((first.toNat % 0x10 * 0x40 + payload b) * 0x40 + payload c)), rest) := by
  funext bytes
  rcases bytes with _ | ⟨b, _ | ⟨c, rest⟩⟩ <;> rfl

theorem nextFour_eq_expecting (first : UInt8) :
    nextFour first = expecting (opensFour first) fun b => expecting continues fun c =>
      expecting continues fun d rest =>
        (some (Char.ofNat
          (((first.toNat % 0x08 * 0x40 + payload b) * 0x40 + payload c) * 0x40 + payload d)),
          rest) := by
  funext bytes
  rcases bytes with _ | ⟨b, _ | ⟨c, _ | ⟨d, rest⟩⟩⟩ <;> rfl

theorem keepsBehind_some (c : Char) : KeepsBehind fun rest => (some c, rest) :=
  fun _ _ _ => rfl

/-- Where a byte is expected that continues a character, no fresh byte is taken for it. -/
theorem KeepsBehind.expecting {kind : UInt8 → Bool} {read : UInt8 → Bytes → Option Char × Bytes}
    (hkind : ∀ b, continues b = false → kind b = false) (hread : ∀ b, KeepsBehind (read b)) :
    KeepsBehind (expecting kind read) := by
  intro bytes more h
  cases bytes with
  | nil =>
    cases more with
    | nil => rfl
    | cons b more => simp [Utf8.expecting, hkind b (isFresh_cons.mp h)]
  | cons b rest =>
    simp only [List.cons_append, Utf8.expecting]
    split
    · exact hread b rest more h
    · rfl

theorem keepsBehind_nextTwo (first : UInt8) : KeepsBehind (nextTwo first) := by
  rw [nextTwo_eq_expecting]
  exact .expecting (fun _ => id) fun _ => keepsBehind_some _

theorem keepsBehind_nextThree (first : UInt8) : KeepsBehind (nextThree first) := by
  rw [nextThree_eq_expecting]
  exact .expecting (fun _ h => opensThree_of_not_continues h first) fun _ =>
    .expecting (fun _ => id) fun _ => keepsBehind_some _

theorem keepsBehind_nextFour (first : UInt8) : KeepsBehind (nextFour first) := by
  rw [nextFour_eq_expecting]
  exact .expecting (fun _ h => opensFour_of_not_continues h first) fun _ =>
    .expecting (fun _ => id) fun _ => .expecting (fun _ => id) fun _ => keepsBehind_some _

/-- What is read first does not depend on fresh bytes that come later. -/
theorem keepsBehind_next (first : UInt8) : KeepsBehind (next first) := by
  intro bytes more h
  simp only [next]
  split_ifs
  · rfl
  · exact keepsBehind_nextTwo first bytes more h
  · exact keepsBehind_nextThree first bytes more h
  · exact keepsBehind_nextFour first bytes more h
  · rfl

/-- **Lossy decoding goes on at a fresh byte.** In front of a byte that does not continue a
character, bytes can be cut and decoded apart. -/
theorem decodeLossy_append (h : IsFresh more) (bytes : Bytes) :
    decodeLossy (bytes ++ more) = decodeLossy bytes ++ decodeLossy more := by
  induction bytes using decodeLossy.induct with
  | case1 => rw [decodeLossy, List.nil_append, List.nil_append]
  | case2 first rest ih =>
    have hkeeps := keepsBehind_next first rest more h
    rw [List.cons_append, decodeLossy, hkeeps, ih, decodeLossy, List.cons_append]

/-- The byte of a line feed. -/
def feed : UInt8 := 0x0a

theorem isFresh_feed (rest : Bytes) : IsFresh (feed :: rest) :=
  isFresh_cons.mpr rfl

theorem decodeLossy_feed (rest : Bytes) :
    decodeLossy (feed :: rest) = '\n' :: decodeLossy rest := by
  rw [decodeLossy]
  rfl

end Utf8

/-- Bytes that leave no line unfinished: there are none, or the last of them is a line feed. -/
def EndsLine (bytes : Bytes) : Prop :=
  bytes = [] ∨ bytes.getLast? = some Utf8.feed

instance (bytes : Bytes) : Decidable (EndsLine bytes) :=
  inferInstanceAs (Decidable (_ ∨ _))

theorem endsLine_nil : EndsLine [] :=
  .inl rfl

theorem endsLine_concat (bytes : Bytes) : EndsLine (bytes ++ [Utf8.feed]) :=
  .inr (by simp)

/-- Bytes that leave no line unfinished are nothing, or something and a line feed. -/
theorem EndsLine.cases (h : EndsLine bytes) : bytes = [] ∨ ∃ line, bytes = line ++ [Utf8.feed] := by
  rcases List.eq_nil_or_concat bytes with hnil | ⟨line, last, hlast⟩
  · exact .inl hnil
  · right
    rw [EndsLine, hlast] at h
    have hfeed : last = Utf8.feed := by simpa using h
    exact ⟨line, by rw [hlast, hfeed, List.concat_eq_append]⟩

namespace Outcome

/-- A stream that carries text is split into the lines of that text. -/
theorem linesOf_eq_of_decode? (h : Utf8.decode? bytes = some text) :
    linesOf bytes = text.lines := by
  rw [linesOf, Utf8.decodeLossy_eq_of_decode? h]

@[simp] theorem linesOf_nil : linesOf [] = [] := by
  rw [linesOf, Utf8.decodeLossy]
  rfl

/-- Bytes that leave no line unfinished keep their lines, and what comes behind them has its own. -/
theorem linesOf_append (h : EndsLine bytes) (more : Bytes) :
    linesOf (bytes ++ more) = linesOf bytes ++ linesOf more := by
  rcases h.cases with rfl | ⟨line, rfl⟩
  · rw [linesOf_nil, List.nil_append, List.nil_append]
  · have hfront : Utf8.decodeLossy (line ++ [Utf8.feed]) = Utf8.decodeLossy line ++ ['\n'] := by
      rw [Utf8.decodeLossy_append (Utf8.isFresh_feed []), Utf8.decodeLossy_feed,
        Utf8.decodeLossy]
    have hwhole : Utf8.decodeLossy (line ++ [Utf8.feed] ++ more) =
        Utf8.decodeLossy line ++ ['\n'] ++ Utf8.decodeLossy more := by
      rw [List.append_assoc, List.singleton_append,
        Utf8.decodeLossy_append (Utf8.isFresh_feed more), Utf8.decodeLossy_feed,
        List.append_assoc, List.singleton_append]
    rw [linesOf, linesOf, linesOf, hwhole, hfront]
    apply Lines.split_append
    exact .inr (by simp)

end Outcome

end Golden
