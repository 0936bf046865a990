/-
PagedMemory.Guest.Resizer — a guest that grows its memory and checks that
it can use it.

It starts with one page and may grow to the whole 32-bit address space.
`storeAndLoad` stores a word at an address that it promises to be a multiple
of four and loads it back.
-/
import PagedMemory.Answer
import PagedMemory.Instance.Basic
import PagedMemory.Routine

namespace PagedMemory

namespace Guest

/-- A guest that grows its memory. -/
abbrev Resizer : Type := Instance pageCeiling Unit

namespace Resizer

/-- One page, nothing to install. -/
def new : Except ConstructionError Resizer := Instance.tryNewInstalled defaultLimit 1 ()

/-- The page count. -/
def size (g : Resizer) : UInt32 := g.memory.pages

/-- `delta` more pages: the page count before, or `growFailed`. -/
def grow (delta : UInt32) : Routine Resizer UInt32 :=
  Instance.onMemory (Region.grow defaultLimit delta)

/-- A word put at an address and loaded from there again. -/
def storeAndLoad (address value : UInt32) : Routine Resizer UInt32 :=
  Instance.onBytes do
    Access.storeAligned .w32 2 address.toUInt64 value
    Routine.reading (Access.loadAligned .w32 2 · address.toUInt64)

/-- A step of a session with the guest. -/
inductive Step where
  | inspect (i : Inspection)
  | size
  | grow (delta : UInt32)
  | storeAndLoad (address value : UInt32)

/-- What a step answers and does. -/
def Step.perform : Step → Routine Resizer Answer
  | .inspect i => do
    let g ← get
    return i.answer g.memory.bytes
  | .size => do
    let g ← get
    return .number g.size.toNat
  | .grow delta => do
    let answer ← Resizer.grow delta
    return .number answer.toNat
  | .storeAndLoad address value => .word .w32 <$> Resizer.storeAndLoad address value

/-- All steps in order, each with the guest it leaves. -/
def run {β : Type} (look : Resizer → β) (g : Resizer) (steps : List Step) :
    List (Except Fault Answer × β) × Resizer :=
  Routine.trace Step.perform look g steps

end Resizer

end Guest

end PagedMemory
