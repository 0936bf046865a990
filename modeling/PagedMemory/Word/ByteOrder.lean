/-
PagedMemory.Word.ByteOrder — numbers and words as bytes, least significant
byte first, and words with their bytes reversed.

  - `LittleEndian.encode k n` — the `k` low bytes of `n`.
  - `LittleEndian.decode`     — the number that a byte string spells.
  - `Width.toBytes`, `Width.ofBytes` — the same for the words of a width;
                                reading insists on exactly the width.
  - `Width.swapBytes`         — the bytes of a word in reverse order: two swaps
                                of half the width with the halves exchanged,
                                down to the two bytes of a 16-bit word.

`encode_decode` says that no byte string is lost by reading it.
-/
import PagedMemory.Routine
import PagedMemory.Word.Width

namespace PagedMemory

/-! ## Bytes of numbers -/

namespace LittleEndian

/-- The `count` low bytes of a number, the lowest first. -/
def encode : (count n : Nat) → List UInt8
  | 0, _ => []
  | count + 1, n => UInt8.ofNat n :: encode count (n / 256)

/-- The number that bytes spell, the lowest first. -/
def decode : List UInt8 → Nat
  | [] => 0
  | x :: xs => x.toNat + 256 * decode xs

@[simp] theorem length_encode (count n : Nat) : (encode count n).length = count := by
  induction count generalizing n with
  | zero => rfl
  | succ count ih => simp [encode, ih]

/-- Writing the number that was read restores the bytes. -/
theorem encode_decode (xs : List UInt8) : encode xs.length (decode xs) = xs := by
  induction xs with
  | nil => rfl
  | cons x xs ih =>
    have hx := x.toNat_lt
    have hdiv : (x.toNat + 256 * decode xs) / 256 = decode xs := by omega
    have hlow : UInt8.ofNat (x.toNat + 256 * decode xs) = x := by
      apply UInt8.toNat_inj.1
      rw [UInt8.toNat_ofNat']
      omega
    rw [List.length_cons, decode, encode, hdiv, ih, hlow]

end LittleEndian

/-! ## Bytes of words -/

namespace Width

/-- The bytes of a word as a memory holds them. -/
def toBytes (w : Width) (v : Word w) : List UInt8 :=
  LittleEndian.encode w.byteCount (w.value v)

/-- The word that exactly `w.byteCount` bytes spell. -/
def ofBytes (w : Width) (xs : List UInt8) : Except Fault (Word w) :=
  if xs.length = w.byteCount then .ok (w.word (LittleEndian.decode xs))
  else .error .lengthMismatch

/-- A byte string of exactly `w.byteCount` bytes after a word has been
written over it. -/
def writeOver (w : Width) (xs : List UInt8) (v : Word w) : Except Fault (List UInt8) :=
  if xs.length = w.byteCount then .ok (w.toBytes v) else .error .lengthMismatch

@[simp] theorem length_toBytes (w : Width) (v : Word w) :
    (w.toBytes v).length = w.byteCount := LittleEndian.length_encode ..

end Width

/-! ## Bytes reversed -/

/-- The two bytes of a 16-bit word exchanged. -/
def swapBytes16 (x : UInt16) : UInt16 :=
  (x.toUInt8.toUInt16 <<< 8) ||| (x >>> 8).toUInt8.toUInt16

/-- The four bytes of a 32-bit word in reverse order. -/
def swapBytes32 (x : UInt32) : UInt32 :=
  ((swapBytes16 x.toUInt16).toUInt32 <<< 16) ||| (swapBytes16 (x >>> 16).toUInt16).toUInt32

/-- The eight bytes of a 64-bit word in reverse order. -/
def swapBytes64 (x : UInt64) : UInt64 :=
  ((swapBytes32 x.toUInt32).toUInt64 <<< 32) ||| (swapBytes32 (x >>> 32).toUInt32).toUInt64

/-- The bytes of a word in reverse order. -/
def Width.swapBytes : (w : Width) → Word w → Word w
  | .w16, x => swapBytes16 x
  | .w32, x => swapBytes32 x
  | .w64, x => swapBytes64 x

end PagedMemory
