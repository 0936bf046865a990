/-
PagedMemory.Proofs.BitReversal — the bits of a word in reverse order.

After the bytes have been reversed, three passes reverse the bits within each
of them.  A pass exchanges neighbouring groups of bits, and its masks keep
every group inside its byte, so a pass over a word is the pass over each of
its bytes (`decode_exchangeGroups`).  What the three passes do to one byte is
found by trying all bytes (`testBit_reverseByte`).

`testBit_reverseBits32` and `testBit_reverseBits64` say of the whole that bit
`i` comes from the bit that is as far from the other end.
-/
import PagedMemory.Proofs.BitLanes
import PagedMemory.Proofs.ByteOrder
import Mathlib.Data.List.GetD

namespace PagedMemory

/-! ## One byte -/

/-- The groups of bits that a mask lets through and the groups above them,
exchanged. -/
def exchangeGroups (shift mask x : UInt8) : UInt8 :=
  (field 0 mask x <<< shift) ||| field shift mask x

/-- The bits of a byte in reverse order: halves, pairs and single bits. -/
def reverseByte (x : UInt8) : UInt8 :=
  exchangeGroups 1 0x55 (exchangeGroups 2 0x33 (exchangeGroups 4 0x0F x))

theorem testBit_reverseByte (x : UInt8) :
    ∀ i < 8, (reverseByte x).toNat.testBit i = x.toNat.testBit (7 - i) :=
  forall_byte (P := fun x => ∀ i < 8, (reverseByte x).toNat.testBit i = x.toNat.testBit (7 - i))
    (by decide +kernel) x

/-! ## All bytes -/

namespace LittleEndian

/-- A bit of a number is a bit of one of its bytes. -/
theorem testBit_decode (xs : List UInt8) (i : Nat) :
    (decode xs).testBit i = (xs.getD (i / 8) 0).toNat.testBit (i % 8) := by
  induction xs generalizing i with
  | nil => simp [decode]
  | cons x xs ih =>
    rw [testBit_decode_cons]
    by_cases hi : i < 8
    · simp [hi, Nat.div_eq_of_lt hi, Nat.mod_eq_of_lt hi]
    · have hdiv : i / 8 = (i - 8) / 8 + 1 := by omega
      have hmod : i % 8 = (i - 8) % 8 := by omega
      simp [hi, ih, hdiv, hmod]

/-- Disjunction works on each byte for itself. -/
theorem decode_map_or (f g : UInt8 → UInt8) (xs : List UInt8) :
    decode (xs.map f) ||| decode (xs.map g) = decode (xs.map fun x => f x ||| g x) := by
  induction xs with
  | nil => simp [decode]
  | cons x xs ih =>
    apply Nat.eq_of_testBit_eq
    intro i
    simp only [List.map_cons, Nat.testBit_or, testBit_decode_cons, ← ih, UInt8.toNat_or]
    split <;> rfl

/-- A shift to the left that loses no bit of any byte works on each byte for
itself. -/
theorem decode_map_shiftLeft {f : UInt8 → UInt8} {s : UInt8} (hs : s.toNat < 8)
    (h : ∀ x, (f x).toNat <<< s.toNat < 256) (xs : List UInt8) :
    decode (xs.map f) <<< s.toNat = decode (xs.map fun x => f x <<< s) := by
  induction xs with
  | nil => simp [decode]
  | cons x xs ih =>
    have hbyte : (f x <<< s).toNat = (f x).toNat <<< s.toNat := by
      rw [UInt8.toNat_shiftLeft, Nat.mod_eq_of_lt hs, Nat.mod_eq_of_lt (h x)]
    simp only [List.map_cons, decode, hbyte, ← ih, Nat.shiftLeft_eq]
    ring

/-- The low groups of a byte stay inside it when they change places with the
groups above them. -/
theorem field_zero_shiftLeft_lt {s m : UInt8} (hs : s.toNat < 8) (h : m.toNat < 2 ^ (8 - s.toNat))
    (x : UInt8) : (field 0 m x).toNat <<< s.toNat < 256 := by
  have hle : (field 0 m x).toNat ≤ m.toNat := by
    rw [field, UInt8.toNat_and]
    exact Nat.and_le_right
  have hpow : 2 ^ (8 - s.toNat) * 2 ^ s.toNat = 256 := by
    rw [← Nat.pow_add, Nat.sub_add_cancel (Nat.le_of_lt hs)]
  rw [Nat.shiftLeft_eq, ← hpow]
  exact Nat.mul_lt_mul_of_pos_right (Nat.lt_of_le_of_lt hle h) (Nat.two_pow_pos _)

/-- An exchange works on each byte for itself; `high` is the mask of the
groups above those that `m` lets through. -/
theorem decode_exchangeGroups {s m : UInt8} (hs : s.toNat < 8) (h : m.toNat < 2 ^ (8 - s.toNat))
    (xs : List UInt8) {high : Nat} (hhigh : high >>> s.toNat = mask xs.length m) :
    (decode xs &&& mask xs.length m) <<< s.toNat % 256 ^ xs.length |||
      ((decode xs &&& high) >>> s.toNat) = decode (xs.map (exchangeGroups s m)) := by
  have hlow : decode xs &&& mask xs.length m = decode (xs.map (field 0 m)) :=
    decode_field 0 m (by decide) m.toNat_lt xs
  have hshift := decode_map_shiftLeft hs (field_zero_shiftLeft_lt hs h) xs
  have hlt : decode (xs.map fun x => field 0 m x <<< s) < 256 ^ xs.length := by
    simpa using decode_lt (xs.map fun x => field 0 m x <<< s)
  rw [hlow, hshift, Nat.mod_eq_of_lt hlt, Nat.shiftRight_and_distrib, hhigh, decode_field s m hs h,
    decode_map_or]
  rfl

end LittleEndian

/-! ## Words -/

namespace Width

/-- The bytes of a word in reverse order, each with its bits reversed, spell
the bits of the word in reverse order. -/
theorem testBit_decode_reversed (w : Width) (v : Word w) {i : Nat} (hi : i < w.bitCount) :
    (LittleEndian.decode ((w.toBytes v).reverse.map reverseByte)).testBit i =
      (w.value v).testBit (w.bitCount - 1 - i) := by
  have hlength := length_toBytes w v
  have hcount : w.bitCount = 8 * w.byteCount := rfl
  have hindex : i / 8 < ((w.toBytes v).reverse.map reverseByte).length := by
    rw [List.length_map, List.length_reverse, hlength]
    omega
  have hbyte : w.byteCount - 1 - i / 8 = (w.bitCount - 1 - i) / 8 := by omega
  have hbit : 7 - i % 8 = (w.bitCount - 1 - i) % 8 := by omega
  have hother : (w.bitCount - 1 - i) / 8 < (w.toBytes v).length := by omega
  rw [← decode_toBytes, LittleEndian.testBit_decode, LittleEndian.testBit_decode,
    List.getD_eq_getElem _ _ hindex, List.getD_eq_getElem _ _ hother, List.getElem_map,
    testBit_reverseByte _ _ (Nat.mod_lt _ (by decide)), List.getElem_reverse, hbit]
  simp only [hlength, hbyte]

end Width

section

open LittleEndian

/-- An exchange on the bytes of a 32-bit word. -/
theorem toNat_exchange32 {v : UInt32} {xs : List UInt8} (s m : UInt8) (low high shift : UInt32)
    (hv : v.toNat = decode xs) (hlength : xs.length = 4) (hs : s.toNat < 8)
    (hm : m.toNat < 2 ^ (8 - s.toNat)) (hshift : shift.toNat = s.toNat)
    (hlow : low.toNat = mask 4 m) (hhigh : high.toNat >>> s.toNat = mask 4 m) :
    (((v &&& low) <<< shift) ||| ((v &&& high) >>> shift)).toNat =
      decode (xs.map (exchangeGroups s m)) := by
  have hexchange := decode_exchangeGroups hs hm xs (hlength ▸ hhigh)
  have hmod : s.toNat % 32 = s.toNat := Nat.mod_eq_of_lt (by omega)
  rw [hlength, ← hv, ← hlow] at hexchange
  rw [UInt32.toNat_or, UInt32.toNat_shiftLeft, UInt32.toNat_shiftRight, UInt32.toNat_and,
    UInt32.toNat_and, hshift, hmod]
  exact hexchange

/-- The bytes of a 32-bit word with its bits in reverse order. -/
theorem toNat_reverseBits32 (x : UInt32) :
    (reverseBits32 x).toNat = decode ((Width.toBytes .w32 x).reverse.map reverseByte) := by
  have hbytes : (swapBytes32 x).toNat = decode (Width.toBytes .w32 x).reverse := by
    rw [← Width.toBytes_swapBytes32, Width.decode_toBytes]
    rfl
  have hlength : (Width.toBytes .w32 x).reverse.length = 4 := by simp [Width.byteCount]
  have hnibbles := toNat_exchange32 4 0x0F 0x0F0F0F0F 0xF0F0F0F0 4 hbytes
    hlength (by decide) (by decide) rfl rfl rfl
  have hpairs := toNat_exchange32 2 0x33 0x33333333 0xCCCCCCCC 2 hnibbles
    (by simpa using hlength) (by decide) (by decide) rfl rfl rfl
  have hbits := toNat_exchange32 1 0x55 0x55555555 0xAAAAAAAA 1 hpairs
    (by simpa using hlength) (by decide) (by decide) rfl rfl rfl
  rw [List.map_map, List.map_map] at hbits
  exact hbits

/-- A bit of a word in reverse order is the bit as far from the other end. -/
theorem testBit_reverseBits32 (x : UInt32) {i : Nat} (hi : i < 32) :
    (reverseBits32 x).toNat.testBit i = x.toNat.testBit (31 - i) := by
  rw [toNat_reverseBits32]
  exact Width.testBit_decode_reversed .w32 x hi

/-- An exchange on the bytes of a 64-bit word. -/
theorem toNat_exchange64 {v : UInt64} {xs : List UInt8} (s m : UInt8) (low high shift : UInt64)
    (hv : v.toNat = decode xs) (hlength : xs.length = 8) (hs : s.toNat < 8)
    (hm : m.toNat < 2 ^ (8 - s.toNat)) (hshift : shift.toNat = s.toNat)
    (hlow : low.toNat = mask 8 m) (hhigh : high.toNat >>> s.toNat = mask 8 m) :
    (((v &&& low) <<< shift) ||| ((v &&& high) >>> shift)).toNat =
      decode (xs.map (exchangeGroups s m)) := by
  have hexchange := decode_exchangeGroups hs hm xs (hlength ▸ hhigh)
  have hmod : s.toNat % 64 = s.toNat := Nat.mod_eq_of_lt (by omega)
  rw [hlength, ← hv, ← hlow] at hexchange
  rw [UInt64.toNat_or, UInt64.toNat_shiftLeft, UInt64.toNat_shiftRight, UInt64.toNat_and,
    UInt64.toNat_and, hshift, hmod]
  exact hexchange

/-- The bytes of a 64-bit word with its bits in reverse order. -/
theorem toNat_reverseBits64 (x : UInt64) :
    (reverseBits64 x).toNat = decode ((Width.toBytes .w64 x).reverse.map reverseByte) := by
  have hbytes : (swapBytes64 x).toNat = decode (Width.toBytes .w64 x).reverse := by
    rw [← Width.toBytes_swapBytes64, Width.decode_toBytes]
    rfl
  have hlength : (Width.toBytes .w64 x).reverse.length = 8 := by simp [Width.byteCount]
  have hnibbles := toNat_exchange64 4 0x0F 0x0F0F0F0F0F0F0F0F 0xF0F0F0F0F0F0F0F0 4 hbytes
    hlength (by decide) (by decide) rfl rfl rfl
  have hpairs := toNat_exchange64 2 0x33 0x3333333333333333 0xCCCCCCCCCCCCCCCC 2 hnibbles
    (by simpa using hlength) (by decide) (by decide) rfl rfl rfl
  have hbits := toNat_exchange64 1 0x55 0x5555555555555555 0xAAAAAAAAAAAAAAAA 1 hpairs
    (by simpa using hlength) (by decide) (by decide) rfl rfl rfl
  rw [List.map_map, List.map_map] at hbits
  exact hbits

/-- A bit of a word in reverse order is the bit as far from the other end. -/
theorem testBit_reverseBits64 (x : UInt64) {i : Nat} (hi : i < 64) :
    (reverseBits64 x).toNat.testBit i = x.toNat.testBit (63 - i) := by
  rw [toNat_reverseBits64]
  exact Width.testBit_decode_reversed .w64 x hi

end

end PagedMemory
