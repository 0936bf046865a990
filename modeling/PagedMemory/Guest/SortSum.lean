/-
PagedMemory.Guest.SortSum — a guest that fills a buffer with pseudo-random
words, sorts it in place and sums it.

The buffer has 1024 slots of four bytes at a fixed address.  A run uses the
first `n` of them: it fills them from a linear congruential generator,
sorts them as signed numbers by exchanging neighbours, and adds them up
modulo `2 ^ 32`.

  - `generate`, `sort`, `total` — the three phases on the memory.
  - `sortSum`                   — the whole run.
  - `element`                   — a slot read as a signed number.

Addresses are computed in checked 32-bit words and every access promises to
be aligned, so an answer also says that no address went wrong.
-/
import PagedMemory.Instance.Basic
import PagedMemory.Region.Action
import PagedMemory.Routine

namespace PagedMemory

namespace Guest

/-- A guest with one page of memory and a buffer in it. -/
abbrev SortSum : Type := Instance 1 Unit

namespace SortSum

/-- The number of slots. -/
def slots : UInt32 := 1024

/-- The address of the first slot. -/
def bufferStart : UInt32 := 0x400

/-- One page, nothing to install. -/
def new : Except ConstructionError SortSum := Instance.tryNewInstalled defaultLimit 1 ()

/-- The next value of the generator. -/
def nextRandom (x : UInt32) : UInt32 := x * 1103515245 + 12345

/-- The address of a slot. -/
def slotAddress (i : UInt32) : Except Fault UInt64 := do
  let distance ← Checked.mul i 4
  let address ← Checked.add bufferStart distance
  return address.toUInt64

/-- The word at an address. -/
def loadWord (b : Bytes) (address : UInt64) : Except Fault UInt32 :=
  Access.loadAligned .w32 (Fin.last _) b address

/-- A word put at an address. -/
def storeWord (address : UInt64) (v : UInt32) : Routine Bytes Unit :=
  Access.storeAligned .w32 (Fin.last _) address v

/-! ## Filling -/

/-- `count` slots from slot `i` on filled with the values that follow `x`. -/
def generate : (count : Nat) → (i x : UInt32) → Routine Bytes Unit
  | 0, _, _ => pure ()
  | count + 1, i, x => do
    let address ← slotAddress i
    storeWord address (nextRandom x)
    let next ← Checked.add i 1
    generate count next (nextRandom x)

/-! ## Sorting -/

/-- Slot `j` and the one behind it exchanged if they are out of order as
signed numbers. -/
def exchange (j : UInt32) : Routine Bytes Unit := do
  let left ← slotAddress j
  let right ← Checked.add left 4
  let x ← Routine.reading (loadWord · left)
  let y ← Routine.reading (loadWord · right)
  if y.toInt32 < x.toInt32 then
    storeWord left y
    storeWord right x

/-- The exchanges of round `i` from slot `j` on.  A round stops short of the
slots that the rounds before it have settled: it goes on as long as the slot
behind slot `j`, moved on by `i`, is one of the first `n`. -/
def sweep (n i j : UInt32) : Routine Bytes Unit :=
  match hnext : Checked.add j 1 with
  | .error f => throw f
  | .ok next =>
    match hreach : Checked.add next i with
    | .error f => throw f
    | .ok reach =>
      if below : reach < n then
        have : n.toNat - next.toNat < n.toNat - j.toNat := by
          have hj := Checked.toNat_of_add hnext
          have hi := Checked.toNat_of_add hreach
          rw [UInt32.lt_iff_toNat_lt] at below
          change next.toNat = j.toNat + 1 at hj
          omega
        do
          exchange j
          sweep n i next
      else pure ()
termination_by n.toNat - j.toNat

/-- `rounds` rounds from round `i` on over the first `n` slots. -/
def sort (n : UInt32) : (rounds : Nat) → (i : UInt32) → Routine Bytes Unit
  | 0, _ => pure ()
  | rounds + 1, i => do
    sweep n i 0
    let next ← Checked.add i 1
    sort n rounds next

/-! ## Summing -/

/-- The sum of `count` slots from slot `i` on, added to `sum`. -/
def total (b : Bytes) : (count : Nat) → (i sum : UInt32) → Except Fault UInt32
  | 0, _, sum => .ok sum
  | count + 1, i, sum => do
    let address ← slotAddress i
    let x ← loadWord b address
    let next ← Checked.add i 1
    total b count next (sum + x)

/-! ## The guest -/

/-- The first `n` slots, or all of them, filled, sorted and summed. -/
def sortSum (n seed : UInt32) : Routine SortSum UInt32 :=
  Instance.onBytes do
    let count := min n slots
    generate count.toNat 0 seed
    sort count count.toNat 0
    Routine.reading (total · count.toNat 0 0)

/-- A slot as a signed number. -/
def element (g : SortSum) (index : UInt32) : Except Fault Int32 := do
  let address ← slotAddress index
  let x ← loadWord g.memory.bytes address
  return x.toInt32

/-- A step of a session with the guest. -/
inductive Step where
  | sortSum (n seed : UInt32)
  | element (index : UInt32)
  | memory (action : Region.Action)

/-- What a step answers and does. -/
def Step.perform : Step → Routine SortSum Answer
  | .sortSum n seed => .word .w32 <$> SortSum.sortSum n seed
  | .element index => do
    let x ← Routine.reading (SortSum.element · index)
    return .number x.toInt
  | .memory action => Instance.onMemory (action.perform defaultLimit)

/-- The outcome of all steps in order. -/
def run (g : SortSum) (steps : List Step) : List (Except Fault Answer × Unit) × SortSum :=
  Routine.trace Step.perform (fun _ => ()) g steps

end SortSum

end Guest

end PagedMemory
