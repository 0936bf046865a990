/-
PagedMemory.BinaryFloat.Datum — binary floating-point data by their fields.

A datum is a sign, a biased exponent and a fraction; its bit pattern is the
three written one after another.  Taking a pattern apart and putting it
together again is exact for every pattern, so the payload of a not-a-number
is never lost.

  - `Format`            — the sizes of the fields: `single` and `double`.
  - `Datum.ofBits`, `Datum.toBits` — pattern to fields and back.
  - `Datum.kind`        — the class of the datum by its own format.
  - `Datum.magnitude?`  — a finite datum as `m * 2 ^ e` with `m` odd.
  - `Datum.ofScaled?`   — the datum that is exactly `± m * 2 ^ e`.
-/
namespace PagedMemory

namespace BinaryFloat

/-- The sizes of the fields of a binary format. -/
structure Format where
  exponentBits : Nat
  fractionBits : Nat
  deriving DecidableEq, Repr

namespace Format

/-- The 32-bit format. -/
abbrev single : Format := ⟨8, 23⟩

/-- The 64-bit format. -/
abbrev double : Format := ⟨11, 52⟩

/-- The size of a pattern in bits. -/
abbrev width (f : Format) : Nat := 1 + f.exponentBits + f.fractionBits

/-- What is added to the exponent of a normal datum to make its field. -/
def bias (f : Format) : Nat := (1 <<< (f.exponentBits - 1)) - 1

/-- The exponent of the last fraction bit of the smallest data. -/
def minScale (f : Format) : Int := 1 - f.bias - f.fractionBits

end Format

/-- A floating-point datum by its fields. -/
structure Datum (f : Format) where
  negative : Bool
  exponent : BitVec f.exponentBits
  fraction : BitVec f.fractionBits
  deriving DecidableEq

/-- The classes of data. -/
inductive Kind where
  | nan
  | infinite
  | zero
  | subnormal
  | normal
  deriving DecidableEq, Repr

namespace Datum

variable {f : Format}

/-! ## Patterns -/

/-- The fields one after another, the sign in the highest bit. -/
def toBits (d : Datum f) : BitVec f.width :=
  BitVec.ofBool d.negative ++ d.exponent ++ d.fraction

/-- The fields of a pattern. -/
def ofBits (bits : BitVec f.width) : Datum f where
  negative := bits.msb
  exponent := bits.extractLsb' f.fractionBits f.exponentBits
  fraction := bits.extractLsb' 0 f.fractionBits

/-- The single-precision datum with a 32-bit pattern. -/
def ofUInt32 (bits : UInt32) : Datum .single := ofBits bits.toBitVec

/-- The pattern of a single-precision datum. -/
def toUInt32 (d : Datum .single) : UInt32 := ⟨d.toBits⟩

/-- The double-precision datum with a 64-bit pattern. -/
def ofUInt64 (bits : UInt64) : Datum .double := ofBits bits.toBitVec

/-- The pattern of a double-precision datum. -/
def toUInt64 (d : Datum .double) : UInt64 := ⟨d.toBits⟩

/-- A pattern is its highest bit and two stretches below it. -/
theorem ofBool_append_extract (e n : Nat) (bits : BitVec (1 + e + n)) :
    BitVec.ofBool bits.msb ++ bits.extractLsb' n e ++ bits.extractLsb' 0 n = bits := by
  apply BitVec.eq_of_getLsbD_eq
  intro i hi
  rw [BitVec.getLsbD_append, BitVec.getLsbD_append]
  by_cases hlow : i < n
  · rw [if_pos hlow, BitVec.getLsbD_extractLsb']
    simp [hlow]
  · rw [if_neg hlow]
    by_cases hmid : i - n < e
    · rw [if_pos hmid, BitVec.getLsbD_extractLsb']
      simp [hmid, show n + (i - n) = i by omega]
    · have htop : i = 1 + e + n - 1 := by omega
      rw [if_neg hmid, BitVec.getLsbD_ofBool, BitVec.msb_eq_getLsbD_last, ← htop]
      simp [show i - n - e = 0 by omega]

/-- A pattern is put together again from its fields. -/
theorem toBits_ofBits (bits : BitVec f.width) : (ofBits bits).toBits = bits :=
  ofBool_append_extract f.exponentBits f.fractionBits bits

@[simp] theorem toUInt32_ofUInt32 (bits : UInt32) : (ofUInt32 bits).toUInt32 = bits :=
  congrArg UInt32.ofBitVec (toBits_ofBits (f := .single) bits.toBitVec)

@[simp] theorem toUInt64_ofUInt64 (bits : UInt64) : (ofUInt64 bits).toUInt64 = bits :=
  congrArg UInt64.ofBitVec (toBits_ofBits (f := .double) bits.toBitVec)

/-! ## Values -/

/-- The class of a datum. -/
def kind (d : Datum f) : Kind :=
  if d.exponent = BitVec.allOnes f.exponentBits then
    if d.fraction = 0 then .infinite else .nan
  else if d.exponent = 0 then
    if d.fraction = 0 then .zero else .subnormal
  else .normal

/-- Zero of either sign. -/
def zero (negative : Bool) : Datum f := ⟨negative, 0, 0⟩

/-- Infinity of either sign. -/
def infinity (negative : Bool) : Datum f := ⟨negative, BitVec.allOnes f.exponentBits, 0⟩

/-- A positive number `m * 2 ^ e` with its factors of two moved into the
power; zero is `0 * 2 ^ 0`. -/
def oddForm (m : Nat) (e : Int) : Nat × Int :=
  if m = 0 then (0, 0)
  else if m % 2 = 0 then oddForm (m / 2) (e + 1)
  else (m, e)
termination_by m

/-- The absolute value of a finite datum as `m * 2 ^ e` with `m` odd, and
`0 * 2 ^ 0` for zero. -/
def magnitude? (d : Datum f) : Option (Nat × Int) :=
  match d.kind with
  | .nan | .infinite => none
  | .zero => some (0, 0)
  | .subnormal => some (oddForm d.fraction.toNat f.minScale)
  | .normal =>
    some (oddForm ((1 <<< f.fractionBits) + d.fraction.toNat) (f.minScale + d.exponent.toNat - 1))

/-- The datum that is exactly `m * 2 ^ e`, negated if asked for, if the
format has one. -/
def ofScaled? (negative : Bool) (m : Nat) (e : Int) : Option (Datum f) :=
  match oddForm m e with
  | (0, _) => some (zero negative)
  | (odd, scale) =>
    -- The leading bit stands for `2 ^ (scale + odd.log2)`.
    let lead := scale + odd.log2
    if scale < f.minScale ∨ f.fractionBits < odd.log2 ∨ lead > f.bias then none
    else if lead < 1 - f.bias then
      some ⟨negative, 0, BitVec.ofNat _ (odd <<< (scale - f.minScale).toNat)⟩
    else
      some ⟨negative, BitVec.ofInt _ (lead + f.bias),
        BitVec.ofNat _ (odd <<< (f.fractionBits - odd.log2))⟩

end Datum

end BinaryFloat

end PagedMemory
