/-
PagedMemory.Bytes.Summary — a whole memory in short.

  - `Bytes.runs`   — its maximal runs of equal bytes, in the order of their
                     addresses: every run starts where the one before it
                     stops, and two neighbouring runs differ in their byte.
  - `Bytes.digest` — its 64-bit FNV-1a hash.  Each byte is mixed in with an
                     exclusive or and then a product with the FNV prime,
                     modulo `2 ^ 64`.
-/
import PagedMemory.Bytes.Basic

namespace PagedMemory

/-- A stretch of equal bytes. -/
structure Run where
  offset : Nat
  length : Nat
  byte : UInt8
  deriving DecidableEq, Repr

namespace Bytes

/-! ## Runs -/

/-- The first address from `i` on that does not hold `x`, or the end. -/
def stretchEnd (b : Bytes) (x : UInt8) (i : Nat) : Nat :=
  if h : i < b.size then
    if b[i] = x then stretchEnd b x (i + 1) else i
  else i
termination_by b.size - i

theorem le_stretchEnd (b : Bytes) (x : UInt8) (i : Nat) : i ≤ stretchEnd b x i := by
  fun_induction stretchEnd b x i with
  | case1 i _ _ ih => omega
  | case2 => exact Nat.le_refl _
  | case3 => exact Nat.le_refl _

/-- The runs from address `i` on, after the runs already found. -/
def runsFrom (b : Bytes) (i : Nat) (found : Array Run) : Array Run :=
  if h : i < b.size then
    let stop := stretchEnd b b[i] (i + 1)
    have : b.size - stop < b.size - i := by
      have : i + 1 ≤ stop := le_stretchEnd b b[i] (i + 1)
      omega
    runsFrom b stop (found.push ⟨i, stop - i, b[i]⟩)
  else found
termination_by b.size - i

/-- The maximal runs of equal bytes, in order. -/
def runs (b : Bytes) : List Run := (runsFrom b 0 #[]).toList

/-! ## The hash -/

/-- The hash of no bytes at all. -/
def digestBasis : UInt64 := 0xcbf29ce484222325

/-- One byte mixed into a hash. -/
def digestStep (hash : UInt64) (x : UInt8) : UInt64 :=
  (hash ^^^ x.toUInt64) * 0x100000001b3

/-- The FNV-1a hash of the bytes. -/
def digest (b : Bytes) : UInt64 := b.foldl digestStep digestBasis

end Bytes

end PagedMemory
