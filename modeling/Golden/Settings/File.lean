import Golden.Settings.Toml
import Golden.Settings.Yaml
import Golden.World

/-!
# Configuration files

A configuration file lies beside the test cases that it is for, under one of two names of which the
first goes before the second. The extension of the name tells the format.

## Main definitions

* `Settings.fileNames` — the names, in order
* `Settings.locate` — the file that applies to a test case
* `Settings.load` — the configuration in a file
* `Settings.loadFor` — the configuration that applies to a test case, with its file
-/

namespace Golden.Settings

/-- The names of configuration files, in the order in which they are looked for. -/
def fileNames : List Text := ["checkrun.yaml".toList, "checkrun.toml".toList]

/-- The places at which the configuration for a test case may lie. -/
def candidates (testCase : Path) : List Path :=
  fileNames.map (Path.join (Path.directory testCase))

/-- The configuration file that applies to a test case, if there is one. -/
def locate (w : World) (testCase : Path) : Option Path :=
  (candidates testCase).find? w.isFile

/-- The configuration that a content means in the format with an extension. -/
def ofContent (extension content : Text) : Except Problem Settings :=
  if extension = "yaml".toList || extension = "yml".toList then
    (ofYaml? content).elim (.error .malformed) .ok
  else if extension = "toml".toList then (ofToml? content).elim (.error .malformed) .ok
  else .error (.unsupportedFormat extension)

/-- The configuration in the file that a path names. -/
def load (w : World) (path : Path) : Except Fault Settings := do
  let content ← w.readText path
  (ofContent (Path.extension path) content).mapError (Fault.config path)

/-- The configuration that applies to a test case, with its file, if there is one. -/
def loadFor (w : World) (testCase : Path) : Except Fault (Option (Path × Settings)) :=
  match locate w testCase with
  | none => .ok none
  | some path => (load w path).map fun settings => some (path, settings)

end Golden.Settings
