/-
PagedMemory.Word.Count — set bits, trailing zeros and leading zeros of
32-bit and 64-bit words, without bit instructions.

  - `popcount32`, `popcount64` — the set bits, summed in parallel: first in
    pairs of bits, then in groups of four, then in bytes, whose sums one
    multiplication collects in the top byte.  The subtraction and the
    additions are checked, so that an answer also says that no lane ever
    ran over into its neighbour.
  - `trailingZeros32`, `trailingZeros64` — the set bits of the mask below
    the lowest set bit; the whole width for zero.
  - `leadingZeros32`, `leadingZeros64` — the trailing zeros of the word
    with its bits in reverse order.
  - `Width.setBits` — the set bits of a word counted one by one.
-/
import PagedMemory.Checked
import PagedMemory.Word.ByteOrder

namespace PagedMemory

/-! ## One by one -/

/-- The number of positions at which a word has a set bit. -/
def Width.setBits (w : Width) (v : Word w) : Nat :=
  (List.range w.bitCount).countP (w.value v).testBit

/-! ## 32-bit words -/

/-- The number of set bits. -/
def popcount32 (x : UInt32) : Except Fault UInt32 := do
  let pairs ← Checked.sub x ((x >>> 1) &&& 0x55555555)
  let nibbles ← Checked.add (pairs &&& 0x33333333) ((pairs >>> 2) &&& 0x33333333)
  let bytes ← Checked.add nibbles (nibbles >>> 4)
  return ((bytes &&& 0x0F0F0F0F) * 0x01010101) >>> 24

/-- The number of zero bits below the lowest set bit; 32 for zero. -/
def trailingZeros32 (x : UInt32) : Except Fault UInt32 :=
  popcount32 (~~~x &&& (x - 1))

/-- The bits in reverse order: the bytes first, then halves, quarters and
single bits within each byte. -/
def reverseBits32 (x : UInt32) : UInt32 :=
  let bytes := swapBytes32 x
  let nibbles := ((bytes &&& 0x0F0F0F0F) <<< 4) ||| ((bytes &&& 0xF0F0F0F0) >>> 4)
  let pairs := ((nibbles &&& 0x33333333) <<< 2) ||| ((nibbles &&& 0xCCCCCCCC) >>> 2)
  ((pairs &&& 0x55555555) <<< 1) ||| ((pairs &&& 0xAAAAAAAA) >>> 1)

/-- The number of zero bits above the highest set bit; 32 for zero. -/
def leadingZeros32 (x : UInt32) : Except Fault UInt32 :=
  trailingZeros32 (reverseBits32 x)

/-! ## 64-bit words -/

/-- The number of set bits. -/
def popcount64 (x : UInt64) : Except Fault UInt64 := do
  let pairs ← Checked.sub x ((x >>> 1) &&& 0x5555555555555555)
  let nibbles ← Checked.add (pairs &&& 0x3333333333333333) ((pairs >>> 2) &&& 0x3333333333333333)
  let bytes ← Checked.add nibbles (nibbles >>> 4)
  return ((bytes &&& 0x0F0F0F0F0F0F0F0F) * 0x0101010101010101) >>> 56

/-- The number of zero bits below the lowest set bit; 64 for zero. -/
def trailingZeros64 (x : UInt64) : Except Fault UInt64 :=
  popcount64 (~~~x &&& (x - 1))

/-- The bits in reverse order. -/
def reverseBits64 (x : UInt64) : UInt64 :=
  let bytes := swapBytes64 x
  let nibbles := ((bytes &&& 0x0F0F0F0F0F0F0F0F) <<< 4) ||| ((bytes &&& 0xF0F0F0F0F0F0F0F0) >>> 4)
  let pairs := ((nibbles &&& 0x3333333333333333) <<< 2) |||
    ((nibbles &&& 0xCCCCCCCCCCCCCCCC) >>> 2)
  ((pairs &&& 0x5555555555555555) <<< 1) ||| ((pairs &&& 0xAAAAAAAAAAAAAAAA) >>> 1)

/-- The number of zero bits above the highest set bit; 64 for zero. -/
def leadingZeros64 (x : UInt64) : Except Fault UInt64 :=
  trailingZeros64 (reverseBits64 x)

end PagedMemory
