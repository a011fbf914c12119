import Golden.Proofs.Character
import Golden.Proofs.Refusal

/-!
# Text files and output

A test case and a configuration are read strictly, and the output of a subject is read lossily. Both
draw the same line: a file is refused as no text exactly if lossy decoding changes what it holds,
and a character that looks like a replacement is no reason. So the lines of a test case are those of
a subject that writes the bytes of the file.

## Main definitions

* `Fault.SaysNotText` — a fault has the words for a file whose content is no text

## Main results

* `Utf8.decode?_eq_some_iff_decodeLossy`, `Utf8.decode?_eq_none_iff_decodeLossy` — strict reading,
  in terms of lossy reading
* `World.exists_saysNotText_iff` — when a step that begins with reading a file finds no text there
* `World.strict_agrees_with_lossy` — test cases, configurations and output
-/

namespace Golden

open Stage Utf8

variable {w : World} {path : Path} {bytes : Bytes} {text : Text} {fault : Fault}

namespace Utf8

/-- A text is read strictly exactly if lossy decoding gives it and changes nothing. -/
theorem decode?_eq_some_iff_decodeLossy :
    decode? bytes = some text ↔ encode (decodeLossy bytes) = bytes ∧ decodeLossy bytes = text := by
  constructor
  · intro h
    have hlossy := decodeLossy_eq_of_decode? h
    exact ⟨by rw [hlossy, decode?_eq_some_iff.mp h], hlossy⟩
  · rintro ⟨hkept, rfl⟩
    exact decode?_eq_some_iff.mpr hkept

/-- Bytes are no text exactly if lossy decoding changes them. -/
theorem decode?_eq_none_iff_decodeLossy :
    decode? bytes = none ↔ encode (decodeLossy bytes) ≠ bytes := by
  rw [Option.eq_none_iff_forall_ne_some]
  constructor
  · exact fun h hkept => h _ (decode?_eq_some_iff.mpr hkept)
  · exact fun h text htext => h (decode?_eq_some_iff_decodeLossy.mp htext).1

end Utf8

/-! ### Refusals -/

namespace Fault

/-- A fault is told in the words for a file whose content is no text. -/
def SaysNotText (path : Path) (fault : Fault) : Prop :=
  fault.message =
    "failed to read ".toList ++ path ++ ": ".toList ++ "stream did not contain valid UTF-8".toList

theorem saysNotText_unreadable (path : Path) : (unreadable path .notText).SaysNotText path :=
  rfl

/-- The words can be told from all others that begin in another way. -/
theorem SaysNotText.take_message (h : fault.SaysNotText path) :
    fault.message.take 11 = "failed to r".toList := by
  rw [h]
  rfl

theorem not_saysNotText_malformedDirective (line : Nat) (payload : Text) :
    ¬ (malformedDirective line payload).SaysNotText path := by
  intro h
  have hwords : (malformedDirective line payload).message.take 11 = "malformed E".toList := rfl
  rw [h.take_message] at hwords
  exact absurd hwords (by decide)

theorem not_saysNotText_config (file : Path) (problem : Problem) :
    ¬ (config file problem).SaysNotText path := by
  intro h
  have hwords : (config file problem).message.take 11 = "failed to l".toList := rfl
  rw [h.take_message] at hwords
  exact absurd hwords (by decide)

end Fault

namespace World

/-- The content of a file is read exactly if lossy decoding keeps it, and then as that text. -/
theorem readText_eq_ok_iff_of_holds (h : w.Holds path bytes) :
    w.readText path = .ok text ↔ encode (decodeLossy bytes) = bytes ∧ decodeLossy bytes = text := by
  rw [← decode?_eq_some_iff_decodeLossy]
  constructor
  · intro hread
    obtain ⟨place, hfile⟩ := h
    obtain ⟨place', bytes', hfile', htext⟩ := readText_eq_ok_iff.mp hread
    obtain ⟨-, rfl⟩ := hfile.unique hfile'
    exact htext
  · exact readText_of_holds h

/-- A step that begins with reading a file says that there is no text exactly if lossy decoding
changes what is there, unless what it does behind that has the same words. -/
theorem exists_saysNotText_iff {α : Type} {f : Text → Except Fault α} (h : w.Holds path bytes)
    (hf : ∀ content fault, f content = .error fault → ¬ fault.SaysNotText path) :
    (∃ fault, (w.readText path >>= f) = .error fault ∧ fault.SaysNotText path) ↔
      encode (decodeLossy bytes) ≠ bytes := by
  constructor
  · rintro ⟨fault, hfault, hsays⟩ hkept
    rw [(readText_eq_ok_iff_of_holds h).mpr ⟨hkept, rfl⟩, bind_ok] at hfault
    exact hf _ fault hfault hsays
  · intro hchanged
    have hread := readText_of_not_text h (decode?_eq_none_iff_decodeLossy.mpr hchanged)
    rw [hread, bind_error]
    exact ⟨_, rfl, Fault.saysNotText_unreadable path⟩

end World

theorem TestCase.exists_saysNotText_iff (h : w.Holds path bytes) :
    (∃ fault, TestCase.load w path = .error fault ∧ fault.SaysNotText path) ↔
      encode (decodeLossy bytes) ≠ bytes := by
  rw [load, World.require_of_holds h, bind_ok]
  refine World.exists_saysNotText_iff h fun content fault hfault => ?_
  -- A text can only be refused for an exit line.
  rw [ofContent] at hfault
  cases hparse : Directive.parse content with
  | error m =>
    rw [hparse] at hfault
    obtain rfl := Except.error.inj hfault
    exact Fault.not_saysNotText_malformedDirective m.line m.payload
  | ok directives =>
    rw [hparse] at hfault
    cases hfault

theorem Settings.exists_saysNotText_iff (h : w.Holds path bytes) :
    (∃ fault, Settings.load w path = .error fault ∧ fault.SaysNotText path) ↔
      encode (decodeLossy bytes) ≠ bytes := by
  rw [load]
  refine World.exists_saysNotText_iff h fun content fault hfault => ?_
  cases hcontent : ofContent (Path.extension path) content with
  | error problem =>
    rw [hcontent] at hfault
    obtain rfl := Except.error.inj hfault
    exact Fault.not_saysNotText_config path problem
  | ok settings =>
    rw [hcontent] at hfault
    cases hfault

/-! ### Lines -/

/-- The lines of a test case are those of a stream that carries the bytes of its file. -/
theorem TestCase.lines_eq_linesOf {case : TestCase} (h : w.Holds path bytes)
    (hload : TestCase.load w path = .ok case) : case.lines = Outcome.linesOf bytes := by
  obtain ⟨place, hfile⟩ := h
  obtain ⟨place', bytes', text, directives, hfile', htext, -, rfl⟩ :=
    TestCase.load_eq_ok_iff.mp hload
  obtain ⟨-, rfl⟩ := hfile.unique hfile'
  exact (Outcome.linesOf_eq_of_decode? htext).symm

/-- What is matched of a run are the lines of the bytes that it has written to its output, or to
either stream where both are captured together. -/
theorem Execution.lines_eq_linesOf {o : RunOptions} {run : Trace} {left : Outcome}
    (hmerged : o.capture = .merged → run.merged = bytes)
    (hseparate : o.capture = .separate → run.only .out = bytes)
    (h : outcome o run = some (.ok left)) : left.lines = Outcome.linesOf bytes := by
  obtain ⟨ending, -, -, rfl⟩ := outcome_eq_ok_iff.mp h
  cases hcapture : o.capture with
  | merged => rw [captured, hmerged hcapture]
  | separate => rw [captured, hseparate hcapture]

namespace World

/-- **Strict and lossy reading agree.** A test case or a configuration is refused in the words for
bytes that are no text exactly if lossy decoding changes the content of the file, and the content is
otherwise read as what lossy decoding makes of it. So a test case has the lines of every run that
writes the bytes of its file. Lossy decoding keeps the bytes of a text, and what it changes is a
text with a fault behind it: a stray byte, one that begins nothing, a sequence that is broken off or
too long, a surrogate, or a value above the last character. -/
theorem strict_agrees_with_lossy (bytes : Bytes) :
    (∀ (w : World) (path : Path), w.Holds path bytes →
      ((∃ fault, TestCase.load w path = .error fault ∧ fault.SaysNotText path) ↔
        encode (decodeLossy bytes) ≠ bytes) ∧
      ((∃ fault, Settings.load w path = .error fault ∧ fault.SaysNotText path) ↔
        encode (decodeLossy bytes) ≠ bytes) ∧
      (∀ text, w.readText path = .ok text ↔
        encode (decodeLossy bytes) = bytes ∧ decodeLossy bytes = text) ∧
      ∀ case, TestCase.load w path = .ok case →
        case.lines = Outcome.linesOf bytes ∧
        ∀ (o : RunOptions) (run : Trace) (left : Outcome),
          (o.capture = .merged → run.merged = bytes) →
          (o.capture = .separate → run.only .out = bytes) →
          Execution.outcome o run = some (.ok left) → left.lines = case.lines) ∧
    (encode (decodeLossy bytes) = bytes ↔ ∃ text, encode text = bytes) ∧
    (encode (decodeLossy bytes) ≠ bytes ↔
      ∃ text rest, bytes = encode text ++ rest ∧ Flawed rest) := by
  refine ⟨fun w path hholds => ⟨TestCase.exists_saysNotText_iff hholds,
    Settings.exists_saysNotText_iff hholds, fun text => readText_eq_ok_iff_of_holds hholds,
    fun case hload => ?_⟩, ?_, ?_⟩
  · have hlines := TestCase.lines_eq_linesOf hholds hload
    refine ⟨hlines, fun o run left hmerged hseparate hleft => ?_⟩
    rw [Execution.lines_eq_linesOf hmerged hseparate hleft, hlines]
  · constructor
    · exact fun hkept => ⟨_, hkept⟩
    · rintro ⟨text, htext⟩
      exact (decode?_eq_some_iff_decodeLossy.mp (decode?_eq_some_iff.mpr htext)).1
  · rw [← decode?_eq_none_iff_decodeLossy, decode?_eq_none_iff]

/-- The bytes of a replacement character, on a line of its own. -/
def lookalike : Bytes := [0xef, 0xbf, 0xbd, 0x0d, 0x0a]

/-- A letter, and three bytes that would spell a surrogate. -/
def spoiled : Bytes := [0x61, 0xed, 0xa0, 0x80]

/-- A directory with the one as `c` and the other as `d`. -/
def lookalikes : World where
  tree := ⟨[([['c']], .file lookalike .plain), ([['d']], .file spoiled .plain)]⟩
  directory := []
  environ := []
  programs := .unknown

/-- A replacement character that was there before is no reason to refuse a file, and one that would
have to be put there is. The lines of the first file are those of a run that writes it. -/
theorem strict_agrees_with_lossy_lookalikes :
    let run : Trace := ⟨[(.out, lookalike)], some (.exited 0), fun _ => false⟩
    let options : RunOptions := ⟨none, .merged, true, .empty⟩
    lookalikes.Holds ['c'] lookalike ∧ encode (decodeLossy lookalike) = lookalike ∧
      (¬ ∃ fault, TestCase.load lookalikes ['c'] = .error fault ∧ fault.SaysNotText ['c']) ∧
      TestCase.load lookalikes ['c'] = .ok ⟨['c'], [[replacement]], []⟩ ∧
      (∃ left, Execution.outcome options run = some (.ok left) ∧ left.lines = [[replacement]]) ∧
      lookalikes.Holds ['d'] spoiled ∧ encode (decodeLossy spoiled) ≠ spoiled ∧
      (∃ fault, TestCase.load lookalikes ['d'] = .error fault ∧ fault.SaysNotText ['d']) ∧
      (∃ fault, Settings.load lookalikes ['d'] = .error fault ∧ fault.SaysNotText ['d']) ∧
      ∃ text rest, spoiled = encode text ++ rest ∧ Flawed rest := by
  intro run options
  have hholds : lookalikes.Holds ['c'] lookalike := ⟨[['c']], rfl, .plain, rfl⟩
  have hkept : encode (decodeLossy lookalike) = lookalike := by decide +kernel
  have hspoiled : lookalikes.Holds ['d'] spoiled := ⟨[['d']], rfl, .plain, rfl⟩
  have hchanged : encode (decodeLossy spoiled) ≠ spoiled := by decide +kernel
  have hload : TestCase.load lookalikes ['c'] = .ok ⟨['c'], [[replacement]], []⟩ := by
    decide +kernel
  obtain ⟨hfiles, -, -⟩ := strict_agrees_with_lossy lookalike
  obtain ⟨hfiles', -, hflawed⟩ := strict_agrees_with_lossy spoiled
  obtain ⟨hcase, -, -, hlines⟩ := hfiles lookalikes ['c'] hholds
  obtain ⟨hcase', hsettings', -, -⟩ := hfiles' lookalikes ['d'] hspoiled
  obtain ⟨-, hrun⟩ := hlines _ hload
  refine ⟨hholds, hkept, fun h => hcase.mp h hkept, hload, ⟨_, rfl, ?_⟩, hspoiled, hchanged,
    hcase'.mpr hchanged, hsettings'.mpr hchanged, hflawed.mp hchanged⟩
  exact hrun options run _ (fun _ => by decide +kernel) (fun h => by cases h) rfl

end World

end Golden
