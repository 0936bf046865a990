/-
PagedMemory.Word.Width — the three word widths of a memory access.

  - `Width`                 — 16, 32 or 64 bits.
  - `Word w`                — the machine words of width `w`.
  - `Width.value`, `Width.word` — a word as a number and back.
  - `Width.Alignment w`     — the alignments that can be promised for an
                              access of width `w`, as powers of two.
-/
namespace PagedMemory

/-- The width of a memory access. -/
inductive Width where
  | w16
  | w32
  | w64
  deriving DecidableEq, Repr

/-- The machine words of a width. -/
abbrev Word : Width → Type
  | .w16 => UInt16
  | .w32 => UInt32
  | .w64 => UInt64

namespace Width

/-- The logarithm of the width in bytes. -/
def log2Bytes : Width → Nat
  | .w16 => 1
  | .w32 => 2
  | .w64 => 3

/-- The width in bytes. -/
def byteCount : Width → Nat
  | .w16 => 2
  | .w32 => 4
  | .w64 => 8

/-- The width in bits. -/
def bitCount (w : Width) : Nat := 8 * w.byteCount

/-- A word as a number. -/
def value : (w : Width) → Word w → Nat
  | .w16, v => UInt16.toNat v
  | .w32, v => UInt32.toNat v
  | .w64, v => UInt64.toNat v

/-- The word that agrees with a number in the low bits. -/
def word : (w : Width) → Nat → Word w
  | .w16, n => UInt16.ofNat n
  | .w32, n => UInt32.ofNat n
  | .w64, n => UInt64.ofNat n

/-- A promise about an offset: it is a multiple of two to this power, which
never exceeds the width of the access. -/
abbrev Alignment (w : Width) : Type := Fin (w.log2Bytes + 1)

/-- The number of bytes of which an aligned offset is a multiple. -/
def Alignment.byteCount {w : Width} (a : w.Alignment) : Nat := 1 <<< a.val

@[simp] theorem word_value (w : Width) (v : Word w) : w.word (w.value v) = v := by
  cases w
  · exact UInt16.ofNat_toNat
  · exact UInt32.ofNat_toNat
  · exact UInt64.ofNat_toNat

end Width

end PagedMemory
