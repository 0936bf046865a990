/-
PagedMemory.Proofs.LaneSums — what the lanes of a word hold while its set
bits are summed in parallel.

  - `lane bits n i`     — lane `i` of a number that is cut into lanes of
                          `bits` bits.
  - `LaneSums bits n s` — each lane of `s` is the number of set bits of the
                          same lane of `n`.
  - `ExactLanes`        — this for lanes of two, four and eight bits, and the
                          product in whose top lane the byte sums meet.

The passes work on each byte for itself, so they leave the sums of the lanes
of a word if they leave those of the lanes of a byte (`laneSums_decode_map`).
The lanes of a word have its set bits between them (`sum_laneSetBits`), at
most 64, so the sum of the byte sums is itself no more than a byte holds, and
the top lane of the product is that sum.
-/
import PagedMemory.Proofs.BitLanes

namespace PagedMemory

open Finset

/-! ## Lanes -/

/-- Lane `i` of a number cut into lanes of `bits` bits, the lowest first. -/
def lane (bits n i : Nat) : Nat := n >>> (bits * i) % 2 ^ bits

/-- The number of set bits of a lane. -/
def laneSetBits (bits n i : Nat) : Nat := (List.range bits).countP (lane bits n i).testBit

/-- Every lane of `sums` is the number of set bits of the same lane of
`value`. -/
def LaneSums (bits value sums : Nat) : Prop := ∀ i, lane bits sums i = laneSetBits bits value i

theorem testBit_lane (bits n i j : Nat) :
    (lane bits n i).testBit j = (decide (j < bits) && n.testBit (bits * i + j)) := by
  rw [lane, Nat.testBit_mod_two_pow, Nat.testBit_shiftRight]

/-- The first lanes of a number have between them the set bits among its
lowest bits. -/
theorem sum_laneSetBits (bits count n : Nat) :
    ∑ i ∈ range count, laneSetBits bits n i = (List.range (bits * count)).countP n.testBit := by
  induction count with
  | zero => rfl
  | succ count ih =>
    have hlast : laneSetBits bits n count =
        (List.range bits).countP (n.testBit ∘ fun j => bits * count + j) := by
      apply List.countP_congr
      intro j hj
      simp [testBit_lane, List.mem_range.mp hj]
    rw [sum_range_succ, ih, hlast, Nat.mul_succ, List.range_add, List.countP_append,
      List.countP_map]

theorem LaneSums.sum_eq {bits value sums : Nat} (h : LaneSums bits value sums) (count : Nat) :
    ∑ i ∈ range count, lane bits sums i = (List.range (bits * count)).countP value.testBit := by
  rw [← sum_laneSetBits]
  exact sum_congr rfl fun i _ => h i

/-! ## Lanes of bytes -/

/-- The three passes over one byte. -/
theorem lane_pairSums : ∀ x : UInt8, ∀ i < 4,
    lane 2 (pairSums x).toNat i = laneSetBits 2 x.toNat i :=
  forall_byte (by decide +kernel)

theorem lane_nibbleSums : ∀ x : UInt8, ∀ i < 2,
    lane 4 (nibbleSums (pairSums x)).toNat i = laneSetBits 4 x.toNat i :=
  forall_byte (by decide +kernel)

theorem lane_halvesSum : ∀ x : UInt8, ∀ i < 1,
    lane 8 (halvesSum (nibbleSums (pairSums x))).toNat i = laneSetBits 8 x.toNat i := by
  intro x i hi
  obtain rfl : i = 0 := by omega
  have hlane (y : UInt8) : lane 8 y.toNat 0 = y.toNat := Nat.mod_eq_of_lt y.toNat_lt
  rw [laneSetBits, hlane, hlane]
  exact toNat_halvesSum_nibbleSums_pairSums x

namespace LittleEndian

/-- Lanes that divide a byte: the lowest are those of the first byte. -/
theorem lane_decode_cons {bits count : Nat} (h : bits * count = 8) (x : UInt8) (xs : List UInt8)
    (i : Nat) :
    lane bits (decode (x :: xs)) i =
      if i < count then lane bits x.toNat i else lane bits (decode xs) (i - count) := by
  apply Nat.eq_of_testBit_eq
  intro j
  by_cases hi : i < count
  · -- a lane that starts in the first byte also ends there
    have hend : bits * i + bits ≤ 8 := h ▸ Nat.mul_le_mul_left bits hi
    rw [if_pos hi, testBit_lane, testBit_lane, testBit_decode_cons]
    by_cases hj : j < bits
    · rw [if_pos (by omega)]
    · simp [hj]
  · have hstart : bits * i = 8 + bits * (i - count) := by
      rw [← h, ← Nat.mul_add, Nat.add_sub_cancel' (Nat.not_lt.mp hi)]
    rw [if_neg hi, testBit_lane, testBit_lane, testBit_decode_cons, if_neg (by omega)]
    congr 2
    omega

/-- A pass that sums the lanes of each byte sums the lanes of the whole. -/
theorem laneSums_decode_map {bits count : Nat} (h : bits * count = 8) {f : UInt8 → UInt8}
    (hf : ∀ x : UInt8, ∀ i < count, lane bits (f x).toNat i = laneSetBits bits x.toNat i)
    (xs : List UInt8) : LaneSums bits (decode xs) (decode (xs.map f)) := by
  induction xs with
  | nil =>
    intro i
    have hzero : (List.range bits).countP (Nat.testBit 0) = 0 := by simp [List.countP_eq_zero]
    simp [decode, laneSetBits, lane, hzero]
  | cons x xs ih =>
    intro i
    rw [List.map_cons, lane_decode_cons h, laneSetBits, lane_decode_cons h]
    split
    · exact hf x i ‹_›
    · exact ih (i - count)

end LittleEndian

open LittleEndian in
/-- What the passes over a row of bytes leave are the sums of its lanes. -/
theorem Passes.laneSums {xs : List UInt8} {pairs halves total : Nat}
    (h : Passes xs.length (decode xs) pairs halves total) :
    LaneSums 2 (decode xs) pairs ∧ LaneSums 4 (decode xs) halves ∧
      LaneSums 8 (decode xs) ((halves + halves >>> 4) &&& mask xs.length 0x0F) := by
  have hpairs : pairs = decode (xs.map pairSums) := h.pairs_eq.trans (decode_pairSums xs).2
  have hhalves : halves = decode ((xs.map pairSums).map nibbleSums) := by
    have hnibbles := decode_nibbleSums (xs.map pairSums)
    rw [List.length_map, ← hpairs] at hnibbles
    exact h.halves_eq.trans hnibbles
  have hbytes : (halves + halves >>> 4) &&& mask xs.length 0x0F =
      decode (((xs.map pairSums).map nibbleSums).map halvesSum) := by
    have hmasked := (decode_halvesSum (smallHalves_of_mem xs)).2
    rwa [List.length_map, List.length_map, ← hhalves] at hmasked
  refine ⟨?_, ?_, ?_⟩
  · rw [hpairs]
    exact laneSums_decode_map rfl lane_pairSums xs
  · rw [hhalves, List.map_map]
    exact laneSums_decode_map rfl lane_nibbleSums xs
  · rw [hbytes, List.map_map, List.map_map]
    exact laneSums_decode_map rfl lane_halvesSum xs

/-! ## Lanes of words -/

/-- The words of a parallel sum: the sums of the lanes of two, four and eight
bits, and the product that adds up the byte sums. -/
structure ExactLanes (w : Width) (v pairs nibbles bytes product : Word w) : Prop where
  pairs_sums : LaneSums 2 (w.value v) (w.value pairs)
  nibbles_sums : LaneSums 4 (w.value v) (w.value nibbles)
  bytes_sums : LaneSums 8 (w.value v) (w.value bytes)
  /-- All byte sums together are no more than a byte holds. -/
  total_lt : ∑ i ∈ range w.byteCount, lane 8 (w.value bytes) i < 2 ^ 8
  /-- The top byte of the product is their sum. -/
  top_eq : lane 8 (w.value product) (w.byteCount - 1) =
    ∑ i ∈ range w.byteCount, lane 8 (w.value bytes) i

open LittleEndian in
/-- Words whose values are those of the passes. -/
theorem Passes.exactLanes {w : Width} {v pairs nibbles bytes product : Word w}
    (h : Passes w.byteCount (w.value v) (w.value pairs) (w.value nibbles) (w.setBits v))
    (hbytes : w.value bytes =
      (w.value nibbles + w.value nibbles >>> 4) &&& mask w.byteCount 0x0F)
    (hproduct : w.value product = w.value bytes * mask w.byteCount 1 % 256 ^ w.byteCount) :
    ExactLanes w v pairs nibbles bytes product := by
  have hrow : Passes (w.toBytes v).length (decode (w.toBytes v)) (w.value pairs)
      (w.value nibbles) (w.setBits v) := by
    rwa [Width.length_toBytes, Width.decode_toBytes]
  have hlanes := hrow.laneSums
  rw [Width.length_toBytes, Width.decode_toBytes, ← hbytes] at hlanes
  obtain ⟨hpairs, hnibbles, hsums⟩ := hlanes
  have htotal : ∑ i ∈ range w.byteCount, lane 8 (w.value bytes) i = w.setBits v :=
    hsums.sum_eq w.byteCount
  have htop : w.value product / 256 ^ (w.byteCount - 1) = w.setBits v := by
    rw [hproduct, hbytes]
    exact h.total_eq
  refine ⟨hpairs, hnibbles, hsums, htotal ▸ w.setBits_lt v, ?_⟩
  rw [lane, Nat.shiftRight_eq_div_pow, Nat.pow_mul, htop, htotal,
    Nat.mod_eq_of_lt (w.setBits_lt v)]

/-- Of every word the parallel sum counts the set bits.  No subtraction and no
addition on the way overflows.  Each lane of two, four and eight bits holds the
number of set bits of its own bits and nothing from its neighbours, and the top
byte of the product is the sum of all byte sums. -/
theorem parallel_sum_counts_set_bits :
    (∀ x : UInt32, ∃ pairs nibbles sums bytes product : UInt32,
      ParallelSum32 x pairs nibbles sums bytes product ∧
      ExactLanes .w32 x pairs nibbles bytes product ∧
      popcount32 x = .ok (product >>> 24) ∧
      (product >>> 24).toNat = (List.range 32).countP x.toNat.testBit) ∧
    (∀ x : UInt64, ∃ pairs nibbles sums bytes product : UInt64,
      ParallelSum64 x pairs nibbles sums bytes product ∧
      ExactLanes .w64 x pairs nibbles bytes product ∧
      popcount64 x = .ok (product >>> 56) ∧
      (product >>> 56).toNat = (List.range 64).countP x.toNat.testBit) := by
  constructor
  · intro x
    obtain ⟨pairs, nibbles, sums, bytes, product, hsum, hpasses⟩ := exists_parallelSum32 x
    have hlanes : ExactLanes .w32 x pairs nibbles bytes product :=
      hpasses.exactLanes (w := .w32) hsum.toNat_bytes hsum.toNat_product
    exact ⟨_, _, _, _, _, hsum, hlanes, hsum.popcount_eq, hsum.toNat_total hpasses⟩
  · intro x
    obtain ⟨pairs, nibbles, sums, bytes, product, hsum, hpasses⟩ := exists_parallelSum64 x
    have hlanes : ExactLanes .w64 x pairs nibbles bytes product :=
      hpasses.exactLanes (w := .w64) hsum.toNat_bytes hsum.toNat_product
    exact ⟨_, _, _, _, _, hsum, hlanes, hsum.popcount_eq, hsum.toNat_total hpasses⟩

end PagedMemory
