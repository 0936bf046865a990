/-
PagedMemory.Region.Action — the operations on one linear memory as values.

`Action.perform` says what an action answers and does to the memory; the
number it is given is the allocator's limit at that moment.  A run of
actions, with the limit changing between them, is then a list of values
that theorems can quantify over.
-/
import PagedMemory.Access
import PagedMemory.Answer
import PagedMemory.Region.Basic

namespace PagedMemory

namespace Region

/-- An operation on a linear memory. -/
inductive Action where
  | inspect (i : Inspection)
  | grow (delta : UInt32)
  | tryGrow (delta : UInt32)
  | load (w : Width) (offset : UInt64)
  | store (w : Width) (offset : UInt64) (v : Word w)
  | access (c : Access.Call)
  | initData (offset : UInt64) (data : List UInt8)
  | fill (x : UInt8)
  | debug (layout : Layout)

/-- What an action answers and does. -/
def Action.perform {max : UInt32} (limit : Nat) : Action → Routine (Region max) Answer
  | .inspect i => do
    let r ← get
    return i.answer r.bytes
  | .grow delta => do
    let answer ← Region.grow limit delta
    return .number answer.toNat
  | .tryGrow delta => .grown <$> Region.tryGrow limit delta
  | .load w offset => .word w <$> Routine.reading (Region.load w · offset)
  | .store w offset v => do
    Region.store w offset v
    return .done
  | .access c => onBytes c.run
  | .initData offset data => .copied <$> Region.initData offset data
  | .fill x => do
    Region.fill x
    return .done
  | .debug layout => do
    let r ← get
    return .text (r.shape.render layout)

/-- The sizes that a memory reports of itself. -/
structure Readings where
  pages : UInt32
  capacity : UInt32
  activeSize : Nat
  size : UInt32
  length : Nat
  deriving DecidableEq, Repr

/-- The sizes that a memory reports of itself. -/
def readings {max : UInt32} (r : Region max) : Readings where
  pages := r.pages
  capacity := r.capacity
  activeSize := r.activeSize
  size := r.pages
  length := r.bytes.size

end Region

end PagedMemory
