/-
PagedMemory.Instance.Basic — a memory, some globals and a gate: what a
guest program owns while it runs.

  - `Installer max γ ω α` — a routine that sets up the memory and the
                           globals of an instance.  It may also change
                           things outside the instance (`ω`), such as a
                           record of what it did.
  - `Instance.init`      — the element installer and then the data
                           installer, at most once in an instance's life.
                           The gate closes first: what an installer left
                           behind when it stopped is kept, and it is not
                           started again.
-/
import PagedMemory.Gate.Basic
import PagedMemory.Region.Basic

namespace PagedMemory

/-- What an installer works on. -/
structure InstallerState (max : UInt32) (γ ω : Type) where
  memory : Region max
  globals : γ
  outside : ω

/-- A routine that sets up the memory and the globals of an instance. -/
abbrev Installer (max : UInt32) (γ ω α : Type) : Type := Routine (InstallerState max γ ω) α

/-- A memory with the globals beside it and the gate of their installers. -/
structure Instance (max : UInt32) (γ : Type) where
  memory : Region max
  globals : γ
  gate : Gate

namespace Instance

variable {max : UInt32} {γ ω : Type}

/-- An instance with zeroed pages and nothing installed. -/
def tryNew (limit : Nat) (initial : UInt32) (globals : γ) :
    Except ConstructionError (Instance max γ) := do
  let memory ← Region.tryNew limit initial
  return ⟨memory, globals, Gate.new⟩

/-- The same contents in a storage of their own; the gate stays as
far as it is. -/
def copy (i : Instance max γ) : Instance max γ := { i with memory := i.memory.copy }

/-- Whether the installers have been started. -/
def isInitialized (i : Instance max γ) : Bool := i.gate.isInitialized

/-- The two installers on the first call, nothing on later ones.  The answer
says whether they ran. -/
def init (elements data : Installer max γ ω Unit) : Routine (Instance max γ × ω) Bool :=
  Routine.onPart
    (fun (i, outside) => (i.gate, (⟨i.memory, i.globals, outside⟩ : InstallerState max γ ω)))
    (fun (gate, s) _ => (⟨s.memory, s.globals, gate⟩, s.outside))
    (Gate.run elements data)

/-- An instance whose installers have run and had nothing to install. -/
def tryNewInstalled (limit : Nat) (initial : UInt32) (globals : γ) :
    Except ConstructionError (Instance max γ) := do
  let fresh ← tryNew limit initial globals
  let nothing : Installer max γ Unit Unit := pure ()
  let (_, i, _) := (init nothing nothing).outcome (fresh, ())
  return i

/-- A routine on the memory. -/
def onMemory {α : Type} : Routine (Region max) α → Routine (Instance max γ) α :=
  Routine.onPart (·.memory) fun memory i => { i with memory }

/-- A routine on the committed bytes. -/
def onBytes {α : Type} (m : Routine Bytes α) : Routine (Instance max γ) α :=
  onMemory (Region.onBytes m)

/-- The instance as it is shown in diagnostics, with its globals shown by
`showGlobals`. -/
def shape (showGlobals : γ → Shape) (i : Instance max γ) : Shape :=
  .record "Instance"
    [("memory", i.memory.shape), ("globals", showGlobals i.globals), ("gate", i.gate.shape)]

end Instance

end PagedMemory
