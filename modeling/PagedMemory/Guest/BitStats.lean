/-
PagedMemory.Guest.BitStats — a guest that counts and moves bits.

  - `writeWords`    — 64-bit words put one after another at an address.
  - `popcountSum`   — the set bits of a row of 64-bit words.
  - `bitSpan`       — the distance from the lowest to the highest set bit of
                      a word, both included.
  - `swapWords`     — the bytes of each 32-bit word in a row reversed.
  - `floatSignBits` — the sign bits of two floating-point data.
  - `plainPopcountSum` — the set bits of a list of words, without a memory.

Addresses inside the loops are computed modulo `2 ^ 32`.  A loop that stops
with a fault keeps what it has written.
-/
import PagedMemory.BinaryFloat.Datum
import PagedMemory.Instance.Basic
import PagedMemory.Region.Action
import PagedMemory.Routine
import PagedMemory.Word.Count

namespace PagedMemory

namespace Guest

open BinaryFloat

/-- A guest with one page of memory. -/
abbrev BitStats : Type := Instance 1 Unit

namespace BitStats

/-- One page, nothing to install. -/
def new : Except ConstructionError BitStats := Instance.tryNewInstalled defaultLimit 1 ()

/-! ## Rows of 64-bit words -/

/-- Words put at `ptr + 8 * i` and on. -/
def writeFrom (ptr : UInt32) : (i : UInt64) → List UInt64 → Routine Bytes Unit
  | _, [] => pure ()
  | i, word :: rest => do
    let distance ← Checked.mul i 8
    let address ← Checked.add ptr.toUInt64 distance
    Access.storeAligned .w64 (Fin.last _) address word
    let next ← Checked.add i 1
    writeFrom ptr next rest

/-- Words put one after another from an address on. -/
def writeWords (ptr : UInt32) (words : List UInt64) : Routine BitStats Unit :=
  Instance.onBytes (writeFrom ptr 0 words)

/-- The set bits of `count` words from word `i` of a row on, added to
`sum`. -/
def countFrom (b : Bytes) (ptr : UInt32) :
    (count : Nat) → (i : UInt32) → (sum : UInt64) → Except Fault UInt64
  | 0, _, sum => .ok sum
  | count + 1, i, sum => do
    let word ← Access.loadAligned .w64 (Fin.last _) b (ptr + i * 8).toUInt64
    let bits ← popcount64 word
    let next ← Checked.add i 1
    countFrom b ptr count next (sum + bits)

/-- The set bits of a row of `len` words. -/
def popcountSum (g : BitStats) (ptr len : UInt32) : Except Fault UInt64 :=
  countFrom g.memory.bytes ptr len.toNat 0 0

/-- The set bits of a list of words added to `sum`, one word after the
other. -/
def plainCountFrom (sum : UInt64) : List UInt64 → Except Fault UInt64
  | [] => .ok sum
  | word :: rest => do
    let next ← Checked.add sum (UInt64.ofNat (Width.setBits .w64 word))
    plainCountFrom next rest

/-- The set bits of a list of words. -/
def plainPopcountSum (words : List UInt64) : Except Fault UInt64 := plainCountFrom 0 words

/-! ## Single words -/

/-- The number of positions from the lowest to the highest set bit; zero for
zero. -/
def bitSpan (x : UInt64) : Except Fault UInt32 := do
  if x = 0 then return 0
  let above ← leadingZeros64 x
  let upTo ← Checked.sub 64 above.toUInt32
  let below ← trailingZeros64 x
  Checked.sub upTo below.toUInt32

/-- The sign of the first datum in bit 0 and of the second in bit 1. -/
def floatSignBits (x : Datum .single) (y : Datum .double) : UInt32 :=
  (x.toUInt32 >>> 31) ||| ((y.toUInt64 >>> 63).toUInt32 <<< 1)

/-! ## Rows of 32-bit words -/

/-- The bytes of `count` words from word `i` of a row on, each reversed. -/
def swapFrom (ptr : UInt32) : (count : Nat) → (i : UInt32) → Routine Bytes Unit
  | 0, _ => pure ()
  | count + 1, i => do
    let address := (ptr + i * 4).toUInt64
    let word ← Routine.reading (Access.loadAligned .w32 0 · address)
    Access.storeAligned .w32 0 address (swapBytes32 word)
    let next ← Checked.add i 1
    swapFrom ptr count next

/-- The bytes of each of `len` words reversed. -/
def swapWords (ptr len : UInt32) : Routine BitStats Unit :=
  Instance.onBytes (swapFrom ptr len.toNat 0)

/-! ## The guest -/

/-- A step of a session with the guest. -/
inductive Step where
  | writeWords (ptr : UInt32) (words : List UInt64)
  | popcountSum (ptr len : UInt32)
  | bitSpan (value : UInt64)
  | swapWords (ptr len : UInt32)
  | floatSignBits (x : Datum .single) (y : Datum .double)
  | memory (action : Region.Action)

/-- What a step answers and does. -/
def Step.perform : Step → Routine BitStats Answer
  | .writeWords ptr words => do
    BitStats.writeWords ptr words
    return .done
  | .popcountSum ptr len => do
    let sum ← Routine.reading (BitStats.popcountSum · ptr len)
    return .number sum.toNat
  | .bitSpan value => do
    let span ← Routine.ofExcept (BitStats.bitSpan value)
    return .number span.toNat
  | .swapWords ptr len => do
    BitStats.swapWords ptr len
    return .done
  | .floatSignBits x y => return .number (BitStats.floatSignBits x y).toNat
  | .memory action => Instance.onMemory (action.perform defaultLimit)

/-- The outcome of all steps in order. -/
def run (g : BitStats) (steps : List Step) : List (Except Fault Answer × Unit) × BitStats :=
  Routine.trace Step.perform (fun _ => ()) g steps

end BitStats

end Guest

end PagedMemory
