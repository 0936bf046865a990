/-
PagedMemory.Gate.Session — several gates, numbered from zero in the order
they are made.

The installers of a session only leave a note that they were started, and
stop if they are told to.
-/
import PagedMemory.Answer
import PagedMemory.Gate.Basic
import PagedMemory.Routine

namespace PagedMemory

/-- The two installers of a gate or an instance. -/
inductive InstallerName where
  | elements
  | data
  deriving DecidableEq, Repr

namespace Gate

/-- The gates made so far. -/
structure Session where
  gates : List Gate := []

namespace Session

/-- A step of a session. -/
inductive Step where
  | new
  | copy (source : Nat)
  /-- An attempt to pass. -/
  | pass (target : Nat)
  /-- Whether two gates are in the same state. -/
  | same (target other : Nat)
  | debug (target : Nat) (layout : Layout)
  /-- Two installers, each of which may be told to stop. -/
  | run (target : Nat) (elementsStop dataStop : Bool)

/-- What a step leads to. -/
inductive Result where
  | made (number : Nat)
  | acted (answer : Except Fault Answer)
  | ran (started : Except Fault Bool) (log : List InstallerName)

/-- A result together with whether the gate acted on or made is closed. -/
structure Entry where
  result : Result
  isInitialized : Bool

/-- An installer that notes its start and then stops if told to. -/
def noting (name : InstallerName) (stop : Bool) : Routine (List InstallerName) Unit := do
  modify (· ++ [name])
  if stop then throw .installerStopped

/-- A gate is added under the next number. -/
def add (gate : Gate) (s : Session) : Entry × Session :=
  (⟨.made s.gates.length, gate.isInitialized⟩, ⟨s.gates ++ [gate]⟩)

/-- One step, unless it names a gate that was never made. -/
def step (s : Session) : Step → Option (Entry × Session)
  | .new => some (s.add Gate.new)
  | .copy source => do
    let gate ← s.gates[source]?
    return s.add gate
  | .pass target => do
    let gate ← s.gates[target]?
    let (first, gate') := Gate.pass.outcome gate
    return (⟨.acted (.flag <$> first), gate'.isInitialized⟩, ⟨s.gates.set target gate'⟩)
  | .same target other => do
    let gate ← s.gates[target]?
    let gate' ← s.gates[other]?
    return (⟨.acted (.ok (.flag (decide (gate = gate')))), gate.isInitialized⟩, s)
  | .debug target layout => do
    let gate ← s.gates[target]?
    return (⟨.acted (.ok (.text (gate.shape.render layout))), gate.isInitialized⟩, s)
  | .run target elementsStop dataStop => do
    let gate ← s.gates[target]?
    let installers := Gate.run (noting .elements elementsStop) (noting .data dataStop)
    let (started, gate', log) := installers.outcome (gate, [])
    return (⟨.ran started log, gate'.isInitialized⟩, ⟨s.gates.set target gate'⟩)

/-- All steps in order, with an entry for each. -/
def run (s : Session) (steps : List Step) : Option (List Entry × Session) :=
  Steps.run step s steps

end Session

end Gate

end PagedMemory
