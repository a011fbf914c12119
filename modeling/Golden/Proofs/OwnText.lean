import Golden.Proofs.Decoding
import Golden.Proofs.PassingRun

/-!
# Test cases against their own text

Every test case is satisfied by its own text: a pattern occurs in the line on which it stands, and
the lines on which patterns stand are in order. The search may well find other lines, above those;
it does not have to find these. So a subject passes that does nothing but copy the test case and exit
with the expected code.

## Main definitions

* `Trace.IsCopy` — a run that writes given bytes to its output and exits with a given code
* `Script.Copies` — a script that does so when some input is left

## Main results

* `Directive.placeable_patternsIn` — the patterns of lines can be placed on the lines
* `Script.Copies.isCopy` — what the run of a copying script leaves behind
* `World.own_text_passes` — a test case passes with its own text
-/

namespace Golden

variable {bytes input : Bytes} {code : Int}

/-- The patterns that lines hold can be placed on the lines, each on its own. -/
theorem Directive.placeable_patternsIn (lines : List Text) : Placeable lines (patternsIn lines) := by
  rw [← placeableFrom_zero]
  induction lines with
  | nil => exact placeableFrom_nil _ _
  | cons line rest ih =>
    -- The patterns below keep their lines, which lie one further down now.
    have hrest : PlaceableFrom (line :: rest) 0 (patternsIn rest) :=
      (ih.below line).of_le (Nat.zero_le 1)
    rw [patternsIn_cons]
    cases hcheck : after? checkMark line with
    | none => exact hrest
    | some pattern =>
      have hline : line = checkMark ++ pattern := after?_eq_some_iff.mp hcheck
      have hoccurs : OccursAt (line :: rest) pattern 0 :=
        ⟨line, rfl, hline ▸ (List.suffix_append checkMark pattern).isInfix⟩
      exact placeableFrom_cons_iff.mpr ⟨0, le_rfl, hoccurs, hrest⟩

/-! ### Copying -/

/-- A run that writes the given bytes, all of them to its output, and then exits with the given
code. -/
structure Trace.IsCopy (bytes : Bytes) (code : Int) (t : Trace) : Prop where
  merged : t.merged = bytes
  out : t.only .out = bytes
  ending : t.ending = some (.exited code)
  released : t.held = false

theorem Trace.IsCopy.matched_eq {t : Trace} (h : t.IsCopy bytes code) (separate : Bool) :
    t.matched separate = bytes := by
  cases separate with
  | true => exact h.out
  | false => exact h.merged

theorem Trace.IsCopy.not_timesOut {t : Trace} (h : t.IsCopy bytes code) (seconds : Nat) :
    ¬ t.TimesOut seconds := by
  simp [TimesOut, h.ending, h.released]

/-- Writing a piece in front of a copy makes a copy of the piece and the rest. -/
theorem Trace.IsCopy.after {t : Trace} (h : t.IsCopy bytes code) (piece : Bytes) :
    (t.after .out piece).IsCopy (piece ++ bytes) code where
  merged := by rw [merged_after, h.merged]
  out := by rw [only_after, if_pos rfl, h.out]
  ending := h.ending
  released := h.released

namespace Script

/-- With some bytes left of its input, a script does nothing but write the given bytes to its output,
piece by piece or by copying the input, and exit with the given code. -/
inductive Copies (code : Int) : Bytes → Bytes → Script → Prop where
  /-- Nothing is done behind the exit. -/
  | exit (input : Bytes) (rest : Script) : Copies code input [] (.exit code :: rest)
  | finish (input : Bytes) (hcode : code = 0) : Copies code input [] []
  | write {input bytes : Bytes} {rest : Script} (piece : Bytes) (h : Copies code input bytes rest) :
      Copies code input (piece ++ bytes) (.write .out piece :: rest)
  | copyInput {bytes : Bytes} {rest : Script} (input : Bytes) (h : Copies code [] bytes rest) :
      Copies code input (input ++ bytes) (.copyInput :: rest)

/-- A copying script leaves a copy behind, if a process can exit with its code. -/
theorem Copies.isCopy {script : Script} (hlow : 0 ≤ code) (hhigh : code < 256) (scene : Scene)
    (h : Copies code input bytes script) : (runFrom scene input script).IsCopy bytes code := by
  induction h with
  | exit input rest =>
    -- A process exits with what a byte can hold of its code, here with all of it.
    have hkept : code % 256 = code := Int.emod_eq_of_lt hlow hhigh
    exact ⟨rfl, rfl, by rw [runFrom, hkept], rfl⟩
  | finish input hcode => exact ⟨rfl, rfl, by rw [hcode, runFrom], rfl⟩
  | write piece _ ih => exact ih.after piece
  | copyInput input _ ih => exact ih.after input

end Script

/-! ### Passing -/

variable {content : Text} {directives : List Directive}

/-- The outcome of a test case's own text is a pass if the subject exits with the expected code. -/
theorem Verdict.judge_own_text (hcontent : Utf8.decode? bytes = some content)
    (hparse : Directive.parse content = .ok directives) (stderr : List Text) :
    judge directives ⟨Outcome.linesOf bytes, stderr, .exited (Directive.expectedExit directives)⟩ =
      .pass := by
  rw [judge_eq_pass_iff, Directive.expectedExit_eq_lastCode, Outcome.linesOf_eq_of_decode? hcontent,
    Directive.patterns_of_parse hparse]
  exact ⟨Directive.placeable_patternsIn content.lines, rfl⟩

theorem LaunchedRun.passes_of_isCopy {w : World} {i : Invocation} (r : LaunchedRun w i)
    (hcontent : Utf8.decode? r.bytes = some content)
    (hparse : Directive.parse content = .ok directives)
    (hcopy : r.run.IsCopy r.bytes (Directive.expectedExit directives)) :
    Nonempty (PassingRun w i) := by
  have hcode : Directive.expectedExit directives = Directive.codeIn content.lines := by
    rw [Directive.expectedExit_eq_lastCode, Directive.lastCode_of_parse hparse]
  have hplaced : Placeable (Outcome.linesOf (r.run.matched (i.separates r.settings)))
      (Directive.patternsIn content.lines) := by
    rw [hcopy.matched_eq, Outcome.linesOf_eq_of_decode? hcontent]
    exact Directive.placeable_patternsIn content.lines
  exact ⟨{ r with
    content := content
    isText := hcontent
    wellFormed := Directive.exists_parse_iff.mp ⟨directives, hparse⟩
    inTime := hcopy.not_timesOut _
    placed := hplaced
    exited := by rw [hcopy.ending, hcode] }⟩

namespace World

/-- **Every test case passes with its own text.** An outcome with the lines of a test case and the
exit code that it expects is a pass, whatever was captured apart. So if a process can exit with that
code, every subject passes that is launched on the test case, copies it to its output and exits with
the code. -/
theorem own_text_passes (hcontent : Utf8.decode? bytes = some content)
    (hparse : Directive.parse content = .ok directives) :
    (∀ stderr, Verdict.judge directives
        ⟨Outcome.linesOf bytes, stderr, .exited (Directive.expectedExit directives)⟩ = .pass) ∧
      (0 ≤ Directive.expectedExit directives → Directive.expectedExit directives < 256 →
        ∀ (w : World) (i : Invocation) (r : LaunchedRun w i) (scene : Scene) (script : Script),
          r.bytes = bytes → r.run = Script.run scene script →
          Script.Copies (Directive.expectedExit directives) scene.input bytes script →
          w.verdict i = some (.ok .pass)) := by
  refine ⟨Verdict.judge_own_text hcontent hparse, ?_⟩
  rintro hlow hhigh w i r scene script rfl hrun hcopies
  have hcopy : r.run.IsCopy r.bytes (Directive.expectedExit directives) := by
    rw [hrun, Script.run]
    exact hcopies.isCopy hlow hhigh scene
  exact verdict_eq_pass_iff.mpr (r.passes_of_isCopy hcontent hparse hcopy)

/-- A test case whose last line has no ending, and whose lines end in two ways. -/
def twofold : Text :=
  "# CHECK: one\r\n# EXIT 1\n# CHECK: \r\n# EXIT 3".toList

/-- A directory with that test case as `c`, and a tool `t` that copies its input. -/
def copying : World where
  tree := ⟨[([['c']], .file (Utf8.encode twofold) .plain),
    ([['t']], .file [] (.scripted [.copyInput, .exit 3]))]⟩
  directory := []
  environ := []
  programs := .unknown

/-- The tool is given the test case as its input. -/
def copyingInvocation : Invocation :=
  ⟨['t'], ['c'], some ['c'], none, true, false⟩

/-- The run of the tool. -/
def copyingRun : LaunchedRun copying copyingInvocation where
  place := [['c']]
  bytes := Utf8.encode twofold
  testCase := ⟨rfl, .plain, rfl⟩
  settings := .empty
  env := .empty
  configured := rfl
  expanded := rfl
  input := Utf8.encode twofold
  stdin := ⟨[['c']], rfl, .plain, rfl⟩
  program := "/t".toList
  named := rfl
  run := ⟨[(.out, Utf8.encode twofold)], some (.exited 3), fun _ => false⟩
  launched := rfl

/-- It passes, by copying all of its input and exiting with the last code that is asked for. -/
theorem own_text_passes_copying :
    Utf8.decode? (Utf8.encode twofold) = some twofold ∧
      Directive.parse twofold =
        .ok [.check "one".toList 1, .exit 1 2, .check [] 3, .exit 3 4] ∧
      copyingRun.run = Script.run ⟨[['c']], ['/'], Utf8.encode twofold, fun _ => none⟩
        [.copyInput, .exit 3] ∧
      Verdict.judge [.check "one".toList 1, .exit 1 2, .check [] 3, .exit 3 4]
        ⟨Outcome.linesOf (Utf8.encode twofold), ["warned".toList], .exited 3⟩ = .pass ∧
      copying.verdict copyingInvocation = some (.ok .pass) := by
  have hcontent : Utf8.decode? (Utf8.encode twofold) = some twofold := by decide +kernel
  have hparse : Directive.parse twofold =
      .ok [.check "one".toList 1, .exit 1 2, .check [] 3, .exit 3 4] := rfl
  have hcopies : Script.Copies 3 (Utf8.encode twofold) (Utf8.encode twofold)
      [.copyInput, .exit 3] := .copyInput _ (.exit _ _)
  have hrun : copyingRun.run = Script.run ⟨[['c']], ['/'], Utf8.encode twofold, fun _ => none⟩
      [.copyInput, .exit 3] := rfl
  obtain ⟨hjudge, hverdict⟩ := own_text_passes hcontent hparse
  exact ⟨hcontent, hparse, hrun, hjudge ["warned".toList],
    hverdict (by decide) (by decide) copying copyingInvocation copyingRun _ _ rfl hrun hcopies⟩

end World

end Golden
