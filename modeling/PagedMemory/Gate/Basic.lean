/-
PagedMemory.Gate.Basic — a gate that lets a pair of installers through
once.

The gate is passed by the first attempt and never opens again.  It closes
before the installers run, so an installer that stops half way is not
started a second time.
-/
import PagedMemory.Routine
import PagedMemory.Text.Shape

namespace PagedMemory

/-- A gate that can be passed once. -/
inductive Gate where
  | uninitialized
  | initialized
  deriving DecidableEq, Repr

namespace Gate

/-- A gate that nothing has passed yet. -/
def new : Gate := .uninitialized

/-- Whether the gate has been passed. -/
def isInitialized : Gate → Bool
  | .uninitialized => false
  | .initialized => true

/-- An attempt to pass.  It succeeds once, and the gate is closed
afterwards in any case. -/
def pass : Routine Gate Bool := fun gate => .ok (!gate.isInitialized) .initialized

/-- Two installers on a state beside the gate: the first attempt runs the
element installer and then the data installer, later ones run neither.  The
answer says whether they ran. -/
def run {σ : Type} (elements data : Routine σ Unit) : Routine (Gate × σ) Bool := do
  let first ← Routine.onPart (·.1) (fun gate s => (gate, s.2)) pass
  if first then
    Routine.onPart (·.2) (fun t s => (s.1, t)) elements
    Routine.onPart (·.2) (fun t s => (s.1, t)) data
  return first

/-- The gate as it is shown in diagnostics. -/
def shape (gate : Gate) : Shape :=
  .record "InitGate"
    [("state", .atom (if gate.isInitialized then "Initialized" else "Uninitialized"))]

/-- Only a fresh gate is passed, and every gate is closed afterwards. -/
theorem outcome_pass (gate : Gate) :
    pass.outcome gate = (.ok (decide (gate = .uninitialized)), .initialized) := by
  cases gate <;> rfl

end Gate

end PagedMemory
