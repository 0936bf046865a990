/-
PagedMemory.Access — loads and stores of 16, 32 and 64 bits at any
offset of a byte string, little-endian.

  - `window`                     — the checks on a window of bytes: its end
                                   must not overflow an offset, and then it
                                   must not lie past the end of the bytes.
  - `load`, `store`              — one word at an offset.
  - `loadAligned`, `storeAligned` — the same at an offset that is promised
                                   to be aligned; a broken promise is a
                                   fault, found before the window is looked
                                   at.
  - `Call`                       — every form of access as a value, with what
                                   it does to the bytes it is applied to.

A window is checked before anything is written, so a store that stops with
a fault has changed nothing.
-/
import PagedMemory.Answer
import PagedMemory.Checked
import PagedMemory.Word.ByteOrder

namespace PagedMemory

namespace Access

/-! ## Checks -/

/-- The first address of the window of `count` bytes at `offset` in a
storage of `size` bytes. -/
def window (size : Nat) (offset : UInt64) (count : Nat) : Except Fault Nat := do
  let stop ← Checked.add offset (UInt64.ofNat count)
  if stop.toNat ≤ size then return offset.toNat else throw .outOfBounds

/-- The check that an offset is as aligned as promised. -/
def checkAligned {w : Width} (a : w.Alignment) (offset : UInt64) : Except Fault Unit :=
  if offset.toNat % a.byteCount = 0 then .ok () else .error .misaligned

/-! ## Words at any offset -/

/-- The word at an offset. -/
def load (w : Width) (b : Bytes) (offset : UInt64) : Except Fault (Word w) := do
  let start ← window b.size offset w.byteCount
  return w.word (LittleEndian.decode (b.readFrom start w.byteCount))

/-- A word put at an offset. -/
def store (w : Width) (offset : UInt64) (v : Word w) : Routine Bytes Unit := fun b =>
  match window b.size offset w.byteCount with
  | .ok start => .ok () (b.overwrite start (w.toBytes v))
  | .error f => .error f b

/-! ## Words at aligned offsets -/

/-- The word at an offset that is promised to be aligned. -/
def loadAligned (w : Width) (a : w.Alignment) (b : Bytes) (offset : UInt64) :
    Except Fault (Word w) := do
  checkAligned a offset
  load w b offset

/-- A word put at an offset that is promised to be aligned. -/
def storeAligned (w : Width) (a : w.Alignment) (offset : UInt64) (v : Word w) :
    Routine Bytes Unit := do
  checkAligned a offset
  store w offset v

/-! ## When an access answers -/

/-- A promise holds exactly for the multiples of its alignment. -/
theorem checkAligned_eq {w : Width} (a : w.Alignment) (offset : UInt64) :
    checkAligned a offset =
      if a.byteCount ∣ offset.toNat then .ok () else .error .misaligned := by
  simp only [checkAligned, Nat.dvd_iff_mod_eq_zero]

/-! ## Accesses as values -/

/-- A word access. -/
inductive Call where
  /-- The word at an offset, promised to be aligned or not. -/
  | load (w : Width) (promise : Option w.Alignment) (offset : UInt64)
  /-- A word put at an offset, promised to be aligned or not. -/
  | store (w : Width) (promise : Option w.Alignment) (offset : UInt64) (v : Word w)
  /-- The word that a byte string spells. -/
  | ofBytes (w : Width) (xs : List UInt8)
  /-- A byte string with a word written over it. -/
  | writeOver (w : Width) (xs : List UInt8) (v : Word w)
  /-- The width in bytes. -/
  | width (w : Width)

/-- What an access answers and does to the bytes. -/
def Call.run : Call → Routine Bytes Answer
  | .load w none offset => .word w <$> Routine.reading (Access.load w · offset)
  | .load w (some a) offset => .word w <$> Routine.reading (loadAligned w a · offset)
  | .store w none offset v => do
    Access.store w offset v
    return .done
  | .store w (some a) offset v => do
    storeAligned w a offset v
    return .done
  | .ofBytes w xs => .word w <$> Routine.ofExcept (w.ofBytes xs)
  | .writeOver w xs v => .written <$> Routine.ofExcept (w.writeOver xs v)
  | .width w => return .width w.byteCount

end Access

end PagedMemory
