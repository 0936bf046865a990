/-
PagedMemory.Proofs.WordTheorems — words, numbers and bytes.

  - `value_word`, `value_lt`  — the words of a width are the numbers below
                                `2 ^ w.bitCount`.
  - `decode_encode`           — reading back what was written; with
                                `encode_decode` it makes the two inverse to
                                each other on the numbers below `256 ^ k`
                                and the byte strings of length `k`.
  - `decode_append`           — a number splits at any byte.
  - `decode_eq_sum`, `getD_toBytes` — the number that bytes spell and the
                                bytes of a word, one by one.
-/
import PagedMemory.Word.ByteOrder
import Mathlib.Algebra.BigOperators.Group.Finset.Basic
import Mathlib.Algebra.BigOperators.Ring.Finset

namespace PagedMemory

/-! ## Words -/

namespace Width

theorem byteCount_lt (w : Width) : w.byteCount < UInt64.size := by
  cases w <;> decide

theorem value_lt (w : Width) (v : Word w) : w.value v < 2 ^ w.bitCount := by
  cases w
  · exact UInt16.toNat_lt v
  · exact UInt32.toNat_lt v
  · exact UInt64.toNat_lt v

theorem value_word (w : Width) (n : Nat) : w.value (w.word n) = n % 2 ^ w.bitCount := by
  cases w
  · exact UInt16.toNat_ofNat'
  · exact UInt32.toNat_ofNat'
  · exact UInt64.toNat_ofNat'

theorem two_pow_bitCount (w : Width) : 2 ^ w.bitCount = 256 ^ w.byteCount := by
  cases w <;> rfl

end Width

/-! ## Numbers as bytes -/

namespace LittleEndian

/-- Reading back what was written keeps the bits that were written. -/
theorem decode_encode (count n : Nat) : decode (encode count n) = n % 256 ^ count := by
  induction count generalizing n with
  | zero => simp [encode, decode, Nat.mod_one]
  | succ count ih =>
    have hpow : 256 ^ (count + 1) = 256 * 256 ^ count := by rw [Nat.pow_succ, Nat.mul_comm]
    rw [encode, decode, ih, UInt8.toNat_ofNat', hpow, Nat.mod_mul]

theorem decode_lt (xs : List UInt8) : decode xs < 256 ^ xs.length := by
  induction xs with
  | nil => simp [decode]
  | cons x xs ih =>
    have hx := x.toNat_lt
    rw [decode, List.length_cons, Nat.pow_succ]
    omega

/-- A number splits at any byte into a low part and a high part. -/
theorem decode_append (xs ys : List UInt8) :
    decode (xs ++ ys) = decode xs + 256 ^ xs.length * decode ys := by
  induction xs with
  | nil => simp [decode]
  | cons x xs ih =>
    rw [List.cons_append, decode, decode, ih, List.length_cons, Nat.pow_succ,
      Nat.mul_comm (256 ^ xs.length) 256, Nat.mul_add, Nat.mul_assoc, Nat.add_assoc]

open Finset in
/-- A byte string spells the sum of its bytes, each at its own place. -/
theorem decode_eq_sum (xs : List UInt8) :
    decode xs = ∑ k ∈ range xs.length, (xs.getD k 0).toNat * 256 ^ k := by
  induction xs with
  | nil => rfl
  | cons x xs ih =>
    rw [decode, ih, List.length_cons, sum_range_succ', mul_sum]
    simp only [List.getD_cons_zero, List.getD_cons_succ, pow_zero, mul_one]
    rw [add_comm]
    congr 1
    refine sum_congr rfl fun k _ => ?_
    rw [pow_succ, mul_comm 256, mul_assoc]

/-- The bytes of a number, one by one. -/
theorem getD_encode (count n k : Nat) :
    (encode count n).getD k 0 = if k < count then UInt8.ofNat (n / 256 ^ k) else 0 := by
  induction count generalizing n k with
  | zero => rfl
  | succ count ih =>
    cases k with
    | zero => simp [encode]
    | succ k =>
      rw [encode, List.getD_cons_succ, ih, Nat.div_div_eq_div_mul, ← Nat.pow_succ']
      simp only [Nat.add_lt_add_iff_right]

end LittleEndian

/-! ## Words as bytes -/

namespace Width

/-- The bytes of a word spell its value. -/
theorem decode_toBytes (w : Width) (v : Word w) :
    LittleEndian.decode (w.toBytes v) = w.value v := by
  have hv := w.value_lt v
  rw [two_pow_bitCount] at hv
  rw [toBytes, LittleEndian.decode_encode, Nat.mod_eq_of_lt hv]

/-- The bytes of the word that bytes spell are those bytes. -/
theorem toBytes_word_decode {w : Width} {xs : List UInt8} (h : xs.length = w.byteCount) :
    w.toBytes (w.word (LittleEndian.decode xs)) = xs := by
  have hlt := LittleEndian.decode_lt xs
  rw [h, ← two_pow_bitCount] at hlt
  rw [toBytes, value_word, Nat.mod_eq_of_lt hlt, ← h, LittleEndian.encode_decode]

/-- A word is read back from its own bytes. -/
theorem word_decode_toBytes (w : Width) (v : Word w) :
    w.word (LittleEndian.decode (w.toBytes v)) = v := by
  rw [decode_toBytes, word_value]

theorem getD_toBytes (w : Width) (v : Word w) (k : Nat) :
    (w.toBytes v).getD k 0 =
      if k < w.byteCount then UInt8.ofNat (w.value v / 256 ^ k) else 0 :=
  LittleEndian.getD_encode ..

end Width

end PagedMemory
