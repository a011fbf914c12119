import Golden.Behaviour

/-!
# Launching

How a path becomes a running program. The path has to name an executable file: one that acts by a
script, or another one, whose behaviour is up to the system. Nothing that is handed to a program may
hold the character that ends a text for the system.

## Main definitions

* `Launch.Order.isSound` — whether an order can be handed to a program
* `Launch.start`, `Launch.run` — the run of a program, or why it cannot be started
-/

namespace Golden.Launch

namespace Order

/-- Whether a text may be handed to a program. -/
def isPlain (text : Text) : Bool :=
  '\x00' ∉ text

/-- Whether everything that an order hands to a program may be handed to one. -/
def isSound (o : Order) : Bool :=
  o.arguments.all isPlain && o.environ.all fun v => isPlain v.1 && v.2.all (· ≠ 0)

/-- What a subject sees of an order. -/
def scene (o : Order) : Scene where
  arguments := o.arguments
  directory := o.directory.path
  input := o.input
  value? := o.environ.bytes?

end Order

/-- The run of the program that a path names, if what it is started with can be handed to it. -/
def start (programs : Programs) (t : Tree) (o : Order) (program : Path) : Except Cause Trace := do
  if !Order.isPlain program then .error .nulInData
  else
    match ← t.kind o.directory program with
    | some (.scripted script) => return Script.run o.scene script
    | some .executable => (programs o program).run t o.directory
    | _ => .error .permissionDenied

/-- The run of the program that a path names, or why it cannot be started. -/
def run (programs : Programs) (t : Tree) (o : Order) (program : Path) : Except Cause Trace :=
  if o.isSound then start programs t o program else .error .nulInData

end Golden.Launch
