import Golden.Proofs.Assignment
import Golden.Proofs.Character
import Golden.Proofs.Nesting
import Golden.Proofs.Refusal

/-!
# Both formats

A configuration can be written in either format, and either file means exactly that configuration,
whatever its fields and variables are. So the formats can say the same, although one of them has no
word for an absent value, one has no numbers beyond sixty-three bits, and in the other a word may
turn out to be a number, a truth value or nothing. Neither format lets a line pass that names no
field.

## Main definitions

* `Settings.Format` — the formats, with the extensions of their files and what is written in them

## Main results

* `Settings.formats_carry_settings` — what is written in either format is read back, and a line that
  names no field is refused
-/

namespace Golden.Settings

/-- A format in which a configuration can be written; in YAML the variables are indented. -/
inductive Format where
  | yaml (indent : Nat) (indented : 0 < indent)
  | toml

namespace Format

/-- The extensions of the names of files in a format. -/
def extensions : Format → List Text
  | yaml _ _ => ["yaml".toList, "yml".toList]
  | toml => ["toml".toList]

/-- Lines and variables in a format. -/
def text (format : Format) (lines vars : List (Text × Text)) : Text :=
  match format with
  | yaml indent _ => toYaml indent lines vars
  | toml => toToml lines vars

/-- The configuration that a text in a format means. -/
def read? : Format → Text → Option Settings
  | yaml _ _ => ofYaml?
  | toml => ofToml?

end Format

/-- A configuration that can be written without escapes, in numbers that both formats have and in
names that are keys in both. -/
structure IsWritable (s : Settings) : Prop where
  timeout_le : ∀ n ∈ s.timeout, n ≤ 9223372036854775807
  isLegible : ∀ v ∈ s.env.entries, v.1.IsLegible ∧ v.2.IsLegible
  length_le : ∀ v ∈ s.env.entries, v.1.length ≤ 1000

variable {s : Settings} {format : Format} {fields : List (Field × Text)}
  {lines vars stored above below : List (Text × Text)} {extension name : Text}

/-- The extension of its name tells that a file is in the format. -/
theorem Format.ofContent_eq (h : extension ∈ format.extensions) (content : Text) :
    ofContent extension content = (format.read? content).elim (.error .malformed) .ok := by
  cases format with
  | yaml indent indented =>
    have hyaml : extension = "yaml".toList ∨ extension = "yml".toList := by
      simpa [extensions] using h
    rcases hyaml with rfl | rfl <;> rfl
  | toml =>
    have htoml : extension = "toml".toList := by simpa [extensions] using h
    subst htoml
    rfl

theorem length_name_le (field : Field) : field.name.length ≤ Yaml.State.maxKey := by
  cases field <;> decide

/-- The lines of the fields can be written in both formats. -/
theorem fits_named (hs : s.IsWritable) (h : fields.Perm s.words) :
    ∀ l ∈ named fields, Yaml.FitsLine l ∧ IsValue l.2 := by
  intro l hl
  obtain ⟨f, hf, rfl⟩ := List.mem_map.mp hl
  have hvalue := isValue_of_mem_words hs.timeout_le (h.mem_iff.mp hf)
  exact ⟨⟨isWord_name f.1, hvalue.isWord, length_name_le f.1⟩, hvalue⟩

/-- And so can the variables. -/
theorem fits_stored (hs : s.IsWritable) (h : stored.Perm s.env.entries) :
    ∀ v ∈ stored, Yaml.FitsBlock v := by
  intro v hv
  have hentry := h.mem_iff.mp hv
  obtain ⟨hname, hvalue⟩ := hs.isLegible v hentry
  exact ⟨hname, hvalue, Nat.le_trans (Nat.add_le_add_right (hs.length_le v hentry) 2) (by decide)⟩

/-- A configuration is read from the text in which it is written. -/
theorem Format.read?_text (hs : s.IsWritable) (hfields : fields.Perm s.words)
    (hstored : stored.Perm s.env.entries) :
    format.read? (format.text (named fields) stored) = some s := by
  have hlines := fits_named hs hfields
  have hvars := fits_stored hs hstored
  cases format with
  | yaml indent indented =>
    have hlimit : ∀ n ∈ s.timeout, n ≤ Numeral.word64Max :=
      fun n hn => Nat.le_trans (hs.timeout_le n hn) (by decide)
    rw [read?, text, ofYaml?_toYaml (fun l hl => (hlines l hl).1) hvars indented]
    exact ofNodes?_words hfields hstored hlimit
  | toml =>
    exact ofToml?_toToml hfields hstored hs.timeout_le
      fun v hv => ⟨(hvars v hv).name, (hvars v hv).value⟩

/-- Nothing is read if one of the lines is that of no field. -/
theorem Format.read?_eq_none {line : Text × Text} (hs : s.IsWritable)
    (hfields : fields.Perm s.words) (hstored : stored.Perm s.env.entries) (hword : line.1.IsWord)
    (hvalue : IsValue line.2) (hname : ∀ field : Field, field.name ≠ line.1)
    (hsplit : named fields = above ++ below) :
    format.read? (format.text (above ++ line :: below) stored) = none := by
  have hlines := fits_named hs hfields
  have hvars := fits_stored hs hstored
  rw [hsplit] at hlines
  obtain ⟨habove, hbelow⟩ := List.forall_mem_append.mp hlines
  cases format with
  | yaml indent indented =>
    exact ofYaml?_eq_none (fun l hl => (habove l hl).1) (fun l hl => (hbelow l hl).1) hvars
      indented hword hvalue.isWord (ofName?_eq_none hname)
  | toml =>
    refine ofToml?_eq_none (List.forall_mem_append.mpr ⟨?_, List.forall_mem_cons.mpr
      ⟨⟨hword, hvalue⟩, ?_⟩⟩) (fun v hv => ⟨(hvars v hv).name, (hvars v hv).value⟩)
      (ofName?_eq_none hname)
    · exact fun l hl => ⟨(habove l hl).1.name, (habove l hl).2⟩
    · exact fun l hl => ⟨(hbelow l hl).1.name, (hbelow l hl).2⟩

/-- A file in a format is what its text means. -/
theorem Format.load_eq {w : World} {path : Path} {content : Text}
    (hextension : Path.extension path ∈ format.extensions)
    (h : w.Holds path (Utf8.encode content)) :
    load w path = (format.read? content).elim (.error (.config path .malformed)) .ok := by
  rw [load_of_holds h (Utf8.decode?_eq_some_iff.mpr rfl), ofContent_eq hextension]
  cases format.read? content <;> rfl

/-- **Both formats carry the same settings**: whatever a configuration says, in whatever order its
fields and variables are written, a file in either format is read as that configuration, and one
with a further line for a name that no field has is refused, wherever the line stands among the
others. -/
theorem formats_carry_settings (s : Settings) (hs : s.IsWritable) (format : Format)
    (fields : List (Field × Text)) (stored : List (Text × Text)) (hfields : fields.Perm s.words)
    (hstored : stored.Perm s.env.entries) (w : World) (path : Path)
    (hextension : Path.extension path ∈ format.extensions) :
    (w.Holds path (Utf8.encode (format.text (named fields) stored)) → load w path = .ok s) ∧
    ∀ name above below, name.IsWord → (∀ field : Field, field.name ≠ name) →
      named fields = above ++ below →
      w.Holds path (Utf8.encode (format.text (above ++ (name, ['1']) :: below) stored)) →
      load w path = .error (.config path .malformed) := by
  constructor
  · intro h
    rw [Format.load_eq hextension h, Format.read?_text hs hfields hstored]
    rfl
  · intro name above below hword hname hsplit h
    have hone : IsValue ['1'] := .inr ⟨1, by decide, rfl⟩
    rw [Format.load_eq hextension h,
      Format.read?_eq_none hs hfields hstored hword hone hname hsplit]
    rfl

/-- A configuration with variables that look like a comment, a number, a mapping and nothing. -/
def lookalikes : Settings where
  timeout := some 0
  mergeStderr := some false
  inheritEnv := none
  env := .ofList [("null".toList, "# ~".toList), ([' '], "1: [x]".toList)]

theorem isWritable_lookalikes : lookalikes.IsWritable where
  timeout_le n hn := by
    obtain rfl := Option.some.inj hn
    exact Nat.zero_le _
  isLegible := by decide +kernel
  length_le := by decide +kernel

/-- The configuration in YAML. -/
def inYaml : Text :=
  ("merge_stderr: false\n" ++ "timeout: 0\n" ++ "env:\n" ++ "  \"null\": \"# ~\"\n" ++
    "  \" \": \"1: [x]\"\n").toList

/-- The configuration in TOML, with a line that names no field. -/
def inToml : Text :=
  ("merge_stderr = false\n" ++ "retries = 1\n" ++ "timeout = 0\n" ++ "[env]\n" ++
    "\"null\" = \"# ~\"\n" ++ "\" \" = \"1: [x]\"\n").toList

/-- Both are files. -/
def bothFormats : World where
  tree := ⟨[(["c.yml".toList], .file (Utf8.encode inYaml) .plain),
    (["c.toml".toList], .file (Utf8.encode inToml) .plain)]⟩
  directory := []
  environ := []
  programs := .unknown

/-- The file in YAML is read as the configuration, and the one in TOML is refused. -/
theorem formats_carry_settings_lookalikes :
    lookalikes.IsWritable ∧ load bothFormats "c.yml".toList = .ok lookalikes ∧
      load bothFormats "c.toml".toList = .error (.config "c.toml".toList .malformed) := by
  let fields : List (Field × Text) := [(.mergeStderr, "false".toList), (.timeout, ['0'])]
  let stored : List (Text × Text) := [("null".toList, "# ~".toList), ([' '], "1: [x]".toList)]
  have hfields : fields.Perm lookalikes.words := .swap ..
  have hstored : stored.Perm lookalikes.env.entries := by decide +kernel
  have hyaml : (Format.yaml 2 (by decide)).text (named fields) stored = inYaml := by decide +kernel
  let above : List (Text × Text) := [("merge_stderr".toList, "false".toList)]
  let below : List (Text × Text) := [("timeout".toList, ['0'])]
  have htoml : Format.toml.text (above ++ ("retries".toList, ['1']) :: below) stored = inToml := by
    decide +kernel
  obtain ⟨hread, -⟩ := formats_carry_settings lookalikes isWritable_lookalikes
    (.yaml 2 (by decide)) fields stored hfields hstored bothFormats "c.yml".toList (by decide)
  obtain ⟨-, hrefused⟩ := formats_carry_settings lookalikes isWritable_lookalikes
    .toml fields stored hfields hstored bothFormats "c.toml".toList (by decide)
  refine ⟨isWritable_lookalikes, hread ?_,
    hrefused "retries".toList above below (by decide) ?_ rfl ?_⟩
  · rw [hyaml]
    exact ⟨["c.yml".toList], rfl, .plain, rfl⟩
  · intro field
    cases field <;> decide
  · rw [htoml]
    exact ⟨["c.toml".toList], rfl, .plain, rfl⟩

end Golden.Settings
