import Golden.Proofs.LineByLine
import Golden.Proofs.Pipeline
import Mathlib.Data.List.Infix

/-!
# Conventions for line ends

Lines are ended by a line feed alone, or by a carriage return and a line feed. Which of the two is
used tells nothing: a list in which no carriage return stands directly in front of a line feed has
the same lines when every line feed in it is given one. For a test case this goes for the text, and
for the output of a run for the bytes, which need not be text: what is faulty in front of a line
feed stays so in front of a carriage return, because no character goes on with either.

A carriage return that stands anywhere else belongs to its line, and stays there.

## Main definitions

* `Lines.withReturns` — a list with a carriage return in front of every line feed
* `Lines.HasBareFeeds` — a list with none in front of any
* `LineEnd` — a convention, and how lists, texts, bytes and runs are spelled by it
* `Trace.streams` — the bytes that are split into lines when a run is captured

## Main results

* `Lines.cut_withReturns` — the returns are all that is added to the pieces
* `Lines.split_withReturns` — and lines do not keep them
* `LineEnd.lines_spellText`, `LineEnd.linesOf_spellBytes` — texts and streams have the same lines
* `LineEnd.captured_spellTrace` — and so has everything that is captured of a run
* `Verdict.judge_unmoved_by_line_ends` — no convention changes a verdict
-/

namespace Golden

namespace Lines

variable {α : Type} [DecidableEq α] {feed back : α} {xs line : List α}

/-- A list with a carriage return in front of every line feed. -/
def withReturns (feed back : α) (xs : List α) : List α :=
  xs.flatMap fun x => if x = feed then [back, feed] else [x]

/-- No carriage return stands directly in front of a line feed. -/
def HasBareFeeds (feed back : α) (xs : List α) : Prop :=
  ¬ [back, feed] <:+: xs

instance (feed back : α) (xs : List α) : Decidable (HasBareFeeds feed back xs) :=
  inferInstanceAs (Decidable (¬ _))

theorem withReturns_cons (x : α) (xs : List α) :
    withReturns feed back (x :: xs) =
      (if x = feed then [back, feed] else [x]) ++ withReturns feed back xs := rfl

/-- The returns are all that is added to the pieces that line feeds end. -/
theorem cut_withReturns (h : back ≠ feed) (xs : List α) :
    cut feed (withReturns feed back xs) =
      ((cut feed xs).1.map (· ++ [back]), (cut feed xs).2) := by
  induction xs with
  | nil => rfl
  | cons x xs ih =>
    by_cases hx : x = feed
    · have hsplit : withReturns feed back (x :: xs) =
          [back] ++ feed :: withReturns feed back xs := by
        rw [withReturns_cons, if_pos hx]
        rfl
      have hback : feed ∉ [back] := by simpa using h.symm
      rw [hsplit, cut_append_cons hback, ih, cut, if_pos hx]
      rfl
    · have hsplit : withReturns feed back (x :: xs) = x :: withReturns feed back xs := by
        rw [withReturns_cons, if_neg hx]
        rfl
      rw [hsplit, cut, if_neg hx, ih, cut, if_neg hx]
      -- The mark goes in front of the first piece, or of what is left if there is none.
      cases cut feed xs with
      | mk ended last => cases ended <;> rfl

/-- A piece that a line feed ends does not end in a carriage return, if none stands in front of a
line feed. -/
theorem getLast?_ne_of_mem_cut (h : HasBareFeeds feed back xs) (hline : line ∈ (cut feed xs).1) :
    line.getLast? ≠ some back := by
  intro hlast
  obtain ⟨front, rfl⟩ := List.getLast?_eq_some_iff.mp hlast
  apply h
  obtain ⟨above, below, hsplit⟩ := List.append_of_mem hline
  rw [← flatMap_cut feed xs, hsplit]
  refine ⟨above.flatMap (· ++ [feed]) ++ front,
    below.flatMap (· ++ [feed]) ++ (cut feed xs).2, ?_⟩
  simp

/-- A list has the same lines with a carriage return in front of every line feed and with none. -/
theorem split_withReturns (hback : back ≠ feed) (h : HasBareFeeds feed back xs) :
    split feed back (withReturns feed back xs) = split feed back xs := by
  have hwith : ∀ line ∈ (cut feed xs).1,
      (withoutReturn back ∘ (· ++ [back])) line = withoutReturn back line := by
    intro line hline
    rw [Function.comp_apply, withoutReturn_concat, withoutReturn,
      if_neg (getLast?_ne_of_mem_cut h hline)]
  rw [split, cut_withReturns hback, split, List.map_map, List.map_congr_left hwith]

end Lines

/-! ### Conventions -/

/-- A convention by which lines are ended. -/
inductive LineEnd where
  /-- A line feed alone. -/
  | feed
  /-- A carriage return and a line feed. -/
  | returnFeed

namespace LineEnd

variable {content : Text} {stream : Bytes}

/-- A list whose lines are ended by line feeds alone, spelled by a convention. -/
def spell {α : Type} [DecidableEq α] (feed back : α) : LineEnd → List α → List α
  | .feed, xs => xs
  | returnFeed, xs => Lines.withReturns feed back xs

/-- A text spelled by a convention. -/
def spellText (e : LineEnd) (content : Text) : Text :=
  e.spell '\n' '\r' content

/-- Bytes spelled by a convention. -/
def spellBytes (e : LineEnd) (stream : Bytes) : Bytes :=
  e.spell Utf8.feed Utf8.back stream

/-- A run that spells all that it writes by a convention. -/
def spellTrace (e : LineEnd) (t : Trace) : Trace :=
  { t with writes := t.writes.map fun w => (w.1, e.spellBytes w.2) }

/-- Spelling is done piece by piece. -/
theorem spellBytes_flatMap (e : LineEnd) {β : Type} (f : β → Bytes) (xs : List β) :
    e.spellBytes (xs.flatMap f) = xs.flatMap fun x => e.spellBytes (f x) := by
  cases e with
  | feed => rfl
  | returnFeed => exact List.flatMap_assoc

theorem merged_spellTrace (e : LineEnd) (t : Trace) :
    (e.spellTrace t).merged = e.spellBytes t.merged := by
  rw [Trace.merged, Trace.merged, spellBytes_flatMap, spellTrace, List.flatMap_map]

theorem only_spellTrace (e : LineEnd) (stream : Stream) (t : Trace) :
    (e.spellTrace t).only stream = e.spellBytes (t.only stream) := by
  rw [Trace.only, Trace.only, spellBytes_flatMap, spellTrace, List.filter_map, List.flatMap_map]
  rfl

/-- A text has the same lines in every spelling. -/
theorem lines_spellText (e : LineEnd) (h : Lines.HasBareFeeds '\n' '\r' content) :
    (e.spellText content).lines = content.lines := by
  cases e with
  | feed => rfl
  | returnFeed => exact Lines.split_withReturns (by decide) h

/-- And so has a stream. -/
theorem linesOf_spellBytes (e : LineEnd) (h : Lines.HasBareFeeds Utf8.feed Utf8.back stream) :
    Outcome.linesOf (e.spellBytes stream) = Outcome.linesOf stream := by
  cases e with
  | feed => rfl
  | returnFeed =>
    rw [Outcome.linesOf_eq_map, Outcome.linesOf_eq_map, LineEnd.spellBytes, spell,
      Lines.split_withReturns (by decide) h]

theorem parse_spellText (e : LineEnd) (h : Lines.HasBareFeeds '\n' '\r' content) :
    Directive.parse (e.spellText content) = Directive.parse content := by
  rw [Directive.parse, Directive.parse, e.lines_spellText h]

end LineEnd

/-- The bytes that are split into lines when a run is captured. -/
def Trace.streams (t : Trace) : Capture → List Bytes
  | .merged => [t.merged]
  | .separate => [t.only .out, t.only .err]

/-- The same is captured of a run in every spelling of its output. -/
theorem LineEnd.captured_spellTrace (e : LineEnd) {t : Trace} {capture : Capture}
    (h : ∀ stream ∈ t.streams capture, Lines.HasBareFeeds Utf8.feed Utf8.back stream)
    (ending : Termination) :
    Execution.captured capture (e.spellTrace t) ending = Execution.captured capture t ending := by
  cases capture with
  | merged =>
    have hall := h t.merged List.mem_cons_self
    rw [Execution.captured, Execution.captured, merged_spellTrace, e.linesOf_spellBytes hall]
  | separate =>
    have hout := h (t.only .out) List.mem_cons_self
    have herr := h (t.only .err) (List.mem_cons_of_mem _ List.mem_cons_self)
    rw [Execution.captured, Execution.captured, only_spellTrace, only_spellTrace,
      e.linesOf_spellBytes hout, e.linesOf_spellBytes herr]

namespace Verdict

/-- **No convention for line ends changes a verdict.** A test case and the streams of a run in which
no carriage return stands directly in front of a line feed may each be spelled by either convention.
The test case has the same lines, the same directives and remarks or the same malformed line, with
its number and its payload; the streams, which may be any bytes, have the same lines; and so the
verdict is the same, as are the checks that are found. In the same way everything that is captured
of a run, together or apart, is the same if the run spells what it writes by another convention. -/
theorem judge_unmoved_by_line_ends (content : Text) (out err : Bytes) (ending : Termination)
    (hcontent : Lines.HasBareFeeds '\n' '\r' content)
    (hout : Lines.HasBareFeeds Utf8.feed Utf8.back out)
    (herr : Lines.HasBareFeeds Utf8.feed Utf8.back err) (inContent inStreams : LineEnd) :
    (inContent.spellText content).lines = content.lines ∧
      Directive.parse (inContent.spellText content) = Directive.parse content ∧
      Outcome.linesOf (inStreams.spellBytes out) = Outcome.linesOf out ∧
      Outcome.linesOf (inStreams.spellBytes err) = Outcome.linesOf err ∧
      (∀ ds ds', Directive.parse content = .ok ds →
        Directive.parse (inContent.spellText content) = .ok ds' →
          Directive.warnings ds' = Directive.warnings ds ∧
          judge ds' ⟨Outcome.linesOf (inStreams.spellBytes out),
            Outcome.linesOf (inStreams.spellBytes err), ending⟩ =
              judge ds ⟨Outcome.linesOf out, Outcome.linesOf err, ending⟩ ∧
          found ds' (Outcome.linesOf (inStreams.spellBytes out)) = found ds (Outcome.linesOf out)) ∧
      ∀ (t : Trace) (capture : Capture),
        (∀ stream ∈ t.streams capture, Lines.HasBareFeeds Utf8.feed Utf8.back stream) →
        Execution.captured capture (inStreams.spellTrace t) ending =
          Execution.captured capture t ending := by
  have hparse := inContent.parse_spellText hcontent
  have hlinesOut := inStreams.linesOf_spellBytes hout
  have hlinesErr := inStreams.linesOf_spellBytes herr
  refine ⟨inContent.lines_spellText hcontent, hparse, hlinesOut, hlinesErr, ?_, ?_⟩
  · intro ds ds' hds hds'
    obtain rfl : ds = ds' := Except.ok.inj (hds.symm.trans (hparse.symm.trans hds'))
    rw [hlinesOut, hlinesErr]
    exact ⟨rfl, rfl, rfl⟩
  · intro t capture hstreams
    exact inStreams.captured_spellTrace hstreams ending

/-- A test case with carriage returns that end no line, and with a last line that is not ended. -/
def strayReturns : Text := "# CHECK: caf\rfé\n# EXIT 3\nlast\r".toList

/-- A stream with a character that is broken off in front of a line feed, the wanted line, and a
last line with a byte that no character has. -/
def brokenOff : Bytes :=
  [0xe2, 0x82, 0x0a, 0x63, 0x61, 0x66, 0x0d, 0x66, 0xc3, 0xa9, 0x0a, 0xff, 0x0d]

/-- Spelled with carriage returns, the test case says the same and the stream satisfies it. -/
theorem judge_unmoved_by_line_ends_broken :
    Lines.HasBareFeeds '\n' '\r' strayReturns ∧
      Lines.HasBareFeeds Utf8.feed Utf8.back brokenOff ∧
      Lines.HasBareFeeds Utf8.feed Utf8.back [] ∧
      LineEnd.returnFeed.spellBytes brokenOff ≠ brokenOff ∧
      Directive.parse (LineEnd.returnFeed.spellText strayReturns) =
        .ok [.check "caf\rfé".toList 1, .exit 3 2] ∧
      Outcome.linesOf (LineEnd.returnFeed.spellBytes brokenOff) =
        ["\ufffd".toList, "caf\rfé".toList, "\ufffd\r".toList] ∧
      judge [.check "caf\rfé".toList 1, .exit 3 2]
        ⟨Outcome.linesOf (LineEnd.returnFeed.spellBytes brokenOff),
          Outcome.linesOf (LineEnd.returnFeed.spellBytes []), .exited 3⟩ = .pass := by
  have hcontent : Lines.HasBareFeeds '\n' '\r' strayReturns := by decide
  have hout : Lines.HasBareFeeds Utf8.feed Utf8.back brokenOff := by decide
  have herr : Lines.HasBareFeeds Utf8.feed Utf8.back [] := by decide
  have hread : Directive.parse strayReturns = .ok [.check "caf\rfé".toList 1, .exit 3 2] := rfl
  have hlines : Outcome.linesOf brokenOff =
      ["\ufffd".toList, "caf\rfé".toList, "\ufffd\r".toList] := by decide +kernel
  obtain ⟨-, hparse, hsame, -, hverdict, -⟩ :=
    judge_unmoved_by_line_ends _ _ _ (.exited 3) hcontent hout herr .returnFeed .returnFeed
  refine ⟨hcontent, hout, herr, by decide, hparse.trans hread, hsame.trans hlines, ?_⟩
  obtain ⟨-, hjudge, -⟩ := hverdict _ _ hread (hparse.trans hread)
  rw [hjudge, hlines]
  decide +kernel

end Verdict

end Golden
