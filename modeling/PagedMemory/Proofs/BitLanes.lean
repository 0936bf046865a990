/-
PagedMemory.Proofs.BitLanes — the parallel sum of the set bits of a word is
the number of its set bits.

A word is a row of bytes (`LittleEndian.decode`), and the masks are built so
that no bit crosses from one byte into the next.  So each of the first three
passes works on every byte for itself: `decode_pairSums`, `decode_nibbleSums`
and `decode_halvesSum` say that a pass over a number is the pass over each of
its bytes, for any number of bytes.  In `decode_halvesSum` this takes more than
the mask: the shift moves the low half of a byte into its neighbour, and only
because no half is more than four the sum stays inside.  `mul_ones_div` is the
last pass: the product with a word of ones is the row of the running totals,
and the last of them is the sum of all bytes.

What the first three passes do to one byte is found by trying all bytes.
`Passes` are all four with the bounds that they keep, for any number of bytes.
`ParallelSum32` and `ParallelSum64` are the machine words on the way, and
`popcount32_eq` and `popcount64_eq` say where it leads.
-/
import PagedMemory.Proofs.WordTheorems
import PagedMemory.Word.Count
import Mathlib.Tactic.Ring

namespace PagedMemory

/-! ## One by one -/

/-- The number of positions at which a byte has a set bit. -/
def byteSetBits (x : UInt8) : Nat := (List.range 8).countP x.toNat.testBit

namespace LittleEndian

theorem testBit_decode_cons (x : UInt8) (xs : List UInt8) (i : Nat) :
    (decode (x :: xs)).testBit i =
      if i < 8 then x.toNat.testBit i else (decode xs).testBit (i - 8) := by
  show (x.toNat + 2 ^ 8 * decode xs).testBit i = _
  rw [Nat.add_comm, Nat.testBit_two_pow_mul_add _ x.toNat_lt]

/-- The set bits of a number are those of its bytes. -/
theorem countP_testBit_decode (xs : List UInt8) :
    (List.range (8 * xs.length)).countP (decode xs).testBit = (xs.map byteSetBits).sum := by
  induction xs with
  | nil => rfl
  | cons x xs ih =>
    have hlow : (List.range 8).countP (decode (x :: xs)).testBit = byteSetBits x := by
      apply List.countP_congr
      intro i hi
      simp [testBit_decode_cons, List.mem_range.mp hi]
    have hhigh : ((decode (x :: xs)).testBit ∘ fun i => 8 + i) = (decode xs).testBit := by
      funext i
      simp [testBit_decode_cons]
    rw [List.length_cons, Nat.mul_succ, Nat.add_comm, List.range_add, List.countP_append,
      List.countP_map, hlow, hhigh, ih, List.map_cons, List.sum_cons]

end LittleEndian

namespace Width

/-- The set bits of a word are those of its bytes. -/
theorem setBits_eq_sum (w : Width) (v : Word w) :
    w.setBits v = ((w.toBytes v).map byteSetBits).sum := by
  have hcount := LittleEndian.countP_testBit_decode (w.toBytes v)
  rw [length_toBytes, decode_toBytes] at hcount
  exact hcount

theorem setBits_le (w : Width) (v : Word w) : w.setBits v ≤ w.bitCount := by
  unfold setBits
  simpa using List.countP_le_length (p := (w.value v).testBit) (l := List.range w.bitCount)

/-- The number of set bits of a word fits a byte. -/
theorem setBits_lt (w : Width) (v : Word w) : w.setBits v < 2 ^ 8 := by
  have hle := w.setBits_le v
  cases w <;> simp only [bitCount, byteCount] at hle <;> omega

end Width

/-! ## Passes over one byte -/

/-- The bits of a byte that a mask lets through after a shift. -/
def field (shift mask x : UInt8) : UInt8 := (x >>> shift) &&& mask

/-- The set bits of each pair of bits. -/
def pairSums (x : UInt8) : UInt8 := x - field 1 0x55 x

/-- The sums of neighbouring pairs, in halves of four bits. -/
def nibbleSums (x : UInt8) : UInt8 := field 0 0x33 x + field 2 0x33 x

/-- The sum of both halves. -/
def halvesSum (x : UInt8) : UInt8 := (x + (x >>> 4)) &&& 0x0F

/-- No half of a byte exceeds four. -/
def SmallHalves (x : UInt8) : Prop := x.toNat % 16 ≤ 4 ∧ x.toNat / 16 ≤ 4

instance : DecidablePred SmallHalves := fun _ => inferInstanceAs (Decidable (_ ∧ _))

/-- What a property of all bytes comes down to. -/
theorem forall_byte {P : UInt8 → Prop} (h : ∀ n < 256, P (UInt8.ofNat n)) (x : UInt8) : P x := by
  have hx := h x.toNat x.toNat_lt
  rwa [UInt8.ofNat_toNat] at hx

theorem field_one_le : ∀ x : UInt8, (field 1 0x55 x).toNat ≤ x.toNat :=
  forall_byte (by decide +kernel)

theorem fields_lt : ∀ x : UInt8, (field 0 0x33 x).toNat + (field 2 0x33 x).toNat < 256 :=
  forall_byte (by decide +kernel)

theorem toNat_halvesSum : ∀ x : UInt8, (halvesSum x).toNat = (x.toNat + x.toNat / 16) % 16 :=
  forall_byte (by decide +kernel)

theorem smallHalves_nibbleSums : ∀ x : UInt8, SmallHalves (nibbleSums (pairSums x)) :=
  forall_byte (by decide +kernel)

/-- The three passes arrive at the number of set bits. -/
theorem toNat_halvesSum_nibbleSums_pairSums : ∀ x : UInt8,
    (halvesSum (nibbleSums (pairSums x))).toNat = byteSetBits x :=
  forall_byte (by decide +kernel)

/-! ## Passes over all bytes -/

namespace LittleEndian

/-- A mask of one byte after another. -/
def mask (count : Nat) (m : UInt8) : Nat := decode (List.replicate count m)

theorem testBit_eq_false_of_lt {m : UInt8} {s i : Nat} (h : m.toNat < 2 ^ (8 - s))
    (hi : 8 ≤ s + i) : m.toNat.testBit i = false :=
  Nat.testBit_lt_two_pow (Nat.lt_of_lt_of_le h (Nat.pow_le_pow_right (by decide) (by omega)))

/-- A shift followed by a mask works on each byte for itself, if the mask
drops what the shift brings in from the next byte. -/
theorem decode_field (s m : UInt8) (hs : s.toNat < 8) (h : m.toNat < 2 ^ (8 - s.toNat))
    (xs : List UInt8) :
    (decode xs >>> s.toNat) &&& mask xs.length m = decode (xs.map (field s m)) := by
  induction xs with
  | nil => simp [decode, mask]
  | cons x xs ih =>
    apply Nat.eq_of_testBit_eq
    intro i
    rw [List.map_cons, testBit_decode_cons, ← ih, List.length_cons, mask, List.replicate_succ,
      Nat.testBit_and, Nat.testBit_shiftRight, testBit_decode_cons, testBit_decode_cons]
    by_cases hi : i < 8
    · by_cases hsi : s.toNat + i < 8
      · simp [field, hi, hsi, Nat.mod_eq_of_lt hs]
      · simp [field, hi, hsi, Nat.mod_eq_of_lt hs, testBit_eq_false_of_lt h (Nat.not_lt.mp hsi)]
    · have hsub : s.toNat + i - 8 = s.toNat + (i - 8) := by omega
      have hsi : ¬s.toNat + i < 8 := by omega
      simp [hi, hsi, hsub, mask]

/-- Sums that stay inside their bytes. -/
theorem decode_map_add {f g : UInt8 → UInt8} (h : ∀ x, (f x).toNat + (g x).toNat < 256)
    (xs : List UInt8) :
    decode (xs.map f) + decode (xs.map g) = decode (xs.map fun x => f x + g x) := by
  induction xs with
  | nil => rfl
  | cons x xs ih =>
    simp only [List.map_cons, decode, UInt8.toNat_add, Nat.mod_eq_of_lt (h x), ← ih]
    omega

/-- The first pass; it takes away no more than there is. -/
theorem decode_pairSums (xs : List UInt8) :
    (decode xs >>> 1) &&& mask xs.length 0x55 ≤ decode xs ∧
    decode xs - ((decode xs >>> 1) &&& mask xs.length 0x55) = decode (xs.map pairSums) := by
  have hodd : (decode xs >>> 1) &&& mask xs.length 0x55 = decode (xs.map (field 1 0x55)) :=
    decode_field 1 0x55 (by decide) (by decide) xs
  have hrest : ∀ x : UInt8, (field 1 0x55 x).toNat + (pairSums x).toNat = x.toNat := by
    intro x
    have hsub : (pairSums x).toNat = x.toNat - (field 1 0x55 x).toNat :=
      UInt8.toNat_sub_of_le _ _ (UInt8.le_iff_toNat_le.mpr (field_one_le x))
    rw [hsub, Nat.add_sub_cancel' (field_one_le x)]
  have hwhole : ∀ x : UInt8, field 1 0x55 x + pairSums x = x := by
    intro x
    apply UInt8.toNat_inj.mp
    rw [UInt8.toNat_add, hrest, Nat.mod_eq_of_lt x.toNat_lt]
  have hsum : decode (xs.map (field 1 0x55)) + decode (xs.map pairSums) = decode xs := by
    rw [decode_map_add (fun x => (hrest x).symm ▸ x.toNat_lt) xs]
    simp [hwhole]
  rw [hodd]
  omega

/-- The second pass. -/
theorem decode_nibbleSums (xs : List UInt8) :
    (decode xs &&& mask xs.length 0x33) + ((decode xs >>> 2) &&& mask xs.length 0x33) =
      decode (xs.map nibbleSums) := by
  have hlow : decode xs &&& mask xs.length 0x33 = decode (xs.map (field 0 0x33)) :=
    decode_field 0 0x33 (by decide) (by decide) xs
  have hhigh : (decode xs >>> 2) &&& mask xs.length 0x33 = decode (xs.map (field 2 0x33)) :=
    decode_field 2 0x33 (by decide) (by decide) xs
  rw [hlow, hhigh, decode_map_add fields_lt]
  rfl

/-- A mask on a number whose lowest byte is given apart. -/
theorem and_mask_succ {low : Nat} (hlow : low < 256) (rest n : Nat) (m : UInt8) :
    (low + 256 * rest) &&& mask (n + 1) m = (low &&& m.toNat) + 256 * (rest &&& mask n m) := by
  have hand : low &&& m.toNat < 2 ^ 8 := Nat.lt_of_le_of_lt Nat.and_le_left hlow
  show (low + 2 ^ 8 * rest) &&& (m.toNat + 2 ^ 8 * mask n m) =
    (low &&& m.toNat) + 2 ^ 8 * (rest &&& mask n m)
  apply Nat.eq_of_testBit_eq
  intro i
  rw [Nat.testBit_and, Nat.add_comm, Nat.testBit_two_pow_mul_add _ hlow, Nat.add_comm,
    Nat.testBit_two_pow_mul_add _ m.toNat_lt, Nat.add_comm, Nat.testBit_two_pow_mul_add _ hand,
    Nat.testBit_and, Nat.testBit_and]
  split <;> rfl

/-- The third pass; its sum does not run over. -/
theorem decode_halvesSum {xs : List UInt8} (h : ∀ x ∈ xs, SmallHalves x) :
    decode xs + decode xs >>> 4 < 256 ^ xs.length ∧
    (decode xs + decode xs >>> 4) &&& mask xs.length 0x0F = decode (xs.map halvesSum) := by
  induction xs with
  | nil => simp [decode]
  | cons x xs ih =>
    obtain ⟨hlt, hand⟩ := ih fun y hy => h y (by simp [hy])
    obtain ⟨hlow, hhigh⟩ := h x (by simp)
    -- what the shift brings in from the next byte is the low half of that byte
    have hnext : decode xs % 16 ≤ 4 := by
      cases xs with
      | nil => simp [decode]
      | cons y ys =>
        have hy := (h y (by simp)).1
        simp only [decode]
        omega
    have hsplit : decode (x :: xs) + decode (x :: xs) >>> 4 =
        (x.toNat + x.toNat / 16 + 16 * (decode xs % 16)) +
          256 * (decode xs + decode xs >>> 4) := by
      simp only [decode, Nat.shiftRight_eq_div_pow]
      omega
    have hsum : (x.toNat + x.toNat / 16 + 16 * (decode xs % 16)) &&& (0x0F : UInt8).toNat =
        (halvesSum x).toNat := by
      have hmask : (0x0F : UInt8).toNat = 2 ^ 4 - 1 := rfl
      rw [hmask, Nat.and_two_pow_sub_one_eq_mod, toNat_halvesSum]
      omega
    rw [hsplit]
    constructor
    · rw [List.length_cons, Nat.pow_succ]
      omega
    · rw [List.length_cons, and_mask_succ (by omega), hsum, hand]
      rfl

/-- A word of ones, with one more at either end. -/
theorem mask_one_succ (n : Nat) : 1 + 256 * mask n 1 = mask n 1 + 256 ^ n := by
  induction n with
  | zero => rfl
  | succ n ih =>
    have hcons : mask (n + 1) 1 = 1 + 256 * mask n 1 := rfl
    rw [hcons, ih, Nat.pow_succ]
    omega

/-- The lowest byte of a product with ones, and the product of the rest, to
which it is carried. -/
theorem mul_ones_succ {low : Nat} (hlow : low < 256) (rest n : Nat) :
    (low + 256 * rest) * mask (n + 1) 1 % 256 ^ (n + 1) =
      low + 256 * ((low + rest) * mask n 1 % 256 ^ n) := by
  have hcons : mask (n + 1) 1 = 1 + 256 * mask n 1 := rfl
  have hproduct : (low + 256 * rest) * mask (n + 1) 1 =
      256 ^ (n + 1) * rest + (low + 256 * ((low + rest) * mask n 1)) := by
    calc (low + 256 * rest) * mask (n + 1) 1
        = low * (1 + 256 * mask n 1) + 256 * rest * (1 + 256 * mask n 1) := by
          rw [hcons, Nat.add_mul]
      _ = low * (1 + 256 * mask n 1) + 256 * rest * (mask n 1 + 256 ^ n) := by
          nth_rewrite 2 [mask_one_succ]
          rfl
      _ = 256 ^ (n + 1) * rest + (low + 256 * ((low + rest) * mask n 1)) := by ring
  have hmod : low + 256 * ((low + rest) * mask n 1) =
      256 * ((low + rest) * mask n 1) + low := Nat.add_comm _ _
  rw [hproduct, Nat.mul_add_mod, hmod, Nat.pow_succ', Nat.mod_mul, Nat.mul_add_mod,
    Nat.mod_eq_of_lt hlow, Nat.mul_add_div (by decide), Nat.div_eq_of_lt hlow, Nat.add_zero]

/-- The last pass: the top byte of the product with ones is the sum of all
bytes, if that is a byte. -/
theorem mul_ones_div (x : UInt8) (xs : List UInt8) (carried : Nat)
    (h : carried + (x.toNat + (xs.map UInt8.toNat).sum) < 256) :
    (carried + decode (x :: xs)) * mask (xs.length + 1) 1 % 256 ^ (xs.length + 1) /
      256 ^ xs.length = carried + (x.toNat + (xs.map UInt8.toNat).sum) := by
  induction xs generalizing x carried with
  | nil =>
    have hone : mask 1 1 = 1 := rfl
    simp only [decode, List.length_nil, hone]
    simp at h ⊢
    omega
  | cons y ys ih =>
    rw [List.map_cons, List.sum_cons] at h ⊢
    have hlow : carried + x.toNat < 256 := by omega
    have hassoc : carried + decode (x :: y :: ys) =
        carried + x.toNat + 256 * decode (y :: ys) := by
      rw [decode, Nat.add_assoc]
    have hdrop : ∀ rest, (carried + x.toNat + 256 * rest) / 256 ^ (ys.length + 1) =
        rest / 256 ^ ys.length := by
      intro rest
      rw [Nat.pow_succ', ← Nat.div_div_eq_div_mul, Nat.add_mul_div_left _ _ (by decide),
        Nat.div_eq_of_lt hlow, Nat.zero_add]
    rw [hassoc, List.length_cons, mul_ones_succ hlow, hdrop, ih y (carried + x.toNat) (by omega)]
    omega

end LittleEndian

/-! ## All passes over a word -/

/-- The passes over a number of `count` bytes with their sums of pairs and of
halves: nothing runs over, and what the last pass leaves is `total`. -/
structure Passes (count value pairs halves total : Nat) : Prop where
  odd_le : (value >>> 1) &&& LittleEndian.mask count 0x55 ≤ value
  pairs_eq : pairs = value - ((value >>> 1) &&& LittleEndian.mask count 0x55)
  halves_eq : halves =
    (pairs &&& LittleEndian.mask count 0x33) + ((pairs >>> 2) &&& LittleEndian.mask count 0x33)
  halves_lt : halves < 256 ^ count
  bytes_lt : halves + halves >>> 4 < 256 ^ count
  total_eq : ((halves + halves >>> 4) &&& LittleEndian.mask count 0x0F) *
    LittleEndian.mask count 1 % 256 ^ count / 256 ^ (count - 1) = total

theorem smallHalves_of_mem (xs : List UInt8) :
    ∀ x ∈ (xs.map pairSums).map nibbleSums, SmallHalves x := by
  intro x hx
  obtain ⟨y, hy, rfl⟩ := List.mem_map.mp hx
  obtain ⟨z, -, rfl⟩ := List.mem_map.mp hy
  exact smallHalves_nibbleSums z

open LittleEndian in
/-- The passes over a row of bytes arrive at the number of their set bits, if
that is a byte. -/
theorem exists_passes {xs : List UInt8} (hne : xs ≠ [])
    (hsum : (xs.map byteSetBits).sum < 256) :
    ∃ pairs halves, Passes xs.length (decode xs) pairs halves (xs.map byteSetBits).sum := by
  obtain ⟨hodd, hpairs⟩ := decode_pairSums xs
  have hnibbles := decode_nibbleSums (xs.map pairSums)
  rw [List.length_map] at hnibbles
  obtain ⟨hlt, hbytes⟩ := decode_halvesSum (smallHalves_of_mem xs)
  have hhalves := decode_lt ((xs.map pairSums).map nibbleSums)
  simp only [List.length_map] at hlt hbytes hhalves
  have hbits : ((((xs.map pairSums).map nibbleSums).map halvesSum).map UInt8.toNat) =
      xs.map byteSetBits := by
    simp [Function.comp_def, toNat_halvesSum_nibbleSums_pairSums]
  refine ⟨_, _, hodd, hpairs.symm, hnibbles.symm, hhalves, hlt, ?_⟩
  rw [hbytes]
  cases xs with
  | nil => exact absurd rfl hne
  | cons x xs =>
    have htotal := mul_ones_div (halvesSum (nibbleSums (pairSums x)))
      (((xs.map pairSums).map nibbleSums).map halvesSum) 0
    simp only [List.length_map, Nat.zero_add] at htotal
    simp only [List.map_cons, List.cons.injEq] at hbits
    rw [hbits.1, hbits.2] at htotal
    exact htotal hsum

/-- The passes over the bytes of a word arrive at the number of its set bits. -/
theorem Width.exists_passes (w : Width) (v : Word w) :
    ∃ pairs halves, Passes w.byteCount (w.value v) pairs halves (w.setBits v) := by
  have hlength := length_toBytes w v
  have hne : w.toBytes v ≠ [] := by
    intro hnil
    rw [hnil] at hlength
    cases w <;> cases hlength
  have hsum : ((w.toBytes v).map byteSetBits).sum < 256 := by
    rw [← setBits_eq_sum]
    exact w.setBits_lt v
  have hpasses := PagedMemory.exists_passes hne hsum
  rwa [hlength, decode_toBytes, ← setBits_eq_sum] at hpasses

/-! ## Words -/

/-- The words that the parallel sum of 32 bits goes through, none of which has
overflowed: the sums of pairs and of halves, the sums of whole bytes before
and after their mask, and the product that adds these up in its top byte. -/
structure ParallelSum32 (v pairs nibbles sums bytes product : UInt32) : Prop where
  pairs_eq : Checked.sub v ((v >>> 1) &&& 0x55555555) = .ok pairs
  nibbles_eq : Checked.add (pairs &&& 0x33333333) ((pairs >>> 2) &&& 0x33333333) = .ok nibbles
  sums_eq : Checked.add nibbles (nibbles >>> 4) = .ok sums
  bytes_eq : bytes = sums &&& 0x0F0F0F0F
  product_eq : product = bytes * 0x01010101

namespace ParallelSum32

variable {v pairs nibbles sums bytes product : UInt32}

theorem popcount_eq (h : ParallelSum32 v pairs nibbles sums bytes product) :
    popcount32 v = .ok (product >>> 24) := by
  simp only [popcount32, h.pairs_eq, h.nibbles_eq, h.sums_eq, h.product_eq, h.bytes_eq, bind,
    Except.bind, pure, Except.pure]

theorem toNat_bytes (h : ParallelSum32 v pairs nibbles sums bytes product) :
    bytes.toNat = (nibbles.toNat + nibbles.toNat >>> 4) &&& LittleEndian.mask 4 0x0F := by
  rw [h.bytes_eq, UInt32.toNat_and, Checked.toNat_of_add h.sums_eq, UInt32.toNat_shiftRight]
  rfl

theorem toNat_product (h : ParallelSum32 v pairs nibbles sums bytes product) :
    product.toNat = bytes.toNat * LittleEndian.mask 4 1 % 256 ^ 4 := by
  rw [h.product_eq]
  exact UInt32.toNat_mul _ _

/-- What the last shift leaves is what the passes arrive at. -/
theorem toNat_total {total : Nat} (h : ParallelSum32 v pairs nibbles sums bytes product)
    (hpasses : Passes 4 v.toNat pairs.toNat nibbles.toNat total) :
    (product >>> 24).toNat = total := by
  rw [UInt32.toNat_shiftRight, h.toNat_product, h.toNat_bytes, Nat.shiftRight_eq_div_pow]
  exact hpasses.total_eq

end ParallelSum32

/-- Every word has its parallel sum, and the sums of pairs and of halves are
those of the passes. -/
theorem exists_parallelSum32 (v : UInt32) :
    ∃ pairs nibbles sums bytes product, ParallelSum32 v pairs nibbles sums bytes product ∧
      Passes 4 v.toNat pairs.toNat nibbles.toNat (Width.setBits .w32 v) := by
  obtain ⟨_, _, h⟩ := Width.exists_passes .w32 v
  obtain ⟨pairs, hpairs, hpairsNat⟩ :=
    Checked.exists_sub (a := v) (b := (v >>> 1) &&& 0x55555555) h.odd_le
  -- from here on the passes speak of the words that were found
  obtain rfl := h.pairs_eq.trans hpairsNat.symm
  have hhalves := h.halves_eq
  obtain ⟨nibbles, hnibbles, hnibblesNat⟩ :=
    Checked.exists_add (a := pairs &&& 0x33333333) (b := (pairs >>> 2) &&& 0x33333333)
      (lt_of_eq_of_lt hhalves.symm h.halves_lt)
  obtain rfl := hhalves.trans hnibblesNat.symm
  obtain ⟨sums, hsums, -⟩ := Checked.exists_add (a := nibbles) (b := nibbles >>> 4) h.bytes_lt
  exact ⟨pairs, nibbles, sums, _, _, ⟨hpairs, hnibbles, hsums, rfl, rfl⟩, h⟩

/-- The parallel sum of 32 bits: no pass overflows, and the answer is the
number of set bits. -/
theorem popcount32_eq (v : UInt32) :
    popcount32 v = .ok (UInt32.ofNat (Width.setBits .w32 v)) := by
  obtain ⟨_, _, _, _, _, hsum, hpasses⟩ := exists_parallelSum32 v
  rw [hsum.popcount_eq, ← hsum.toNat_total hpasses, UInt32.ofNat_toNat]

/-- The words that the parallel sum of 64 bits goes through. -/
structure ParallelSum64 (v pairs nibbles sums bytes product : UInt64) : Prop where
  pairs_eq : Checked.sub v ((v >>> 1) &&& 0x5555555555555555) = .ok pairs
  nibbles_eq : Checked.add (pairs &&& 0x3333333333333333)
    ((pairs >>> 2) &&& 0x3333333333333333) = .ok nibbles
  sums_eq : Checked.add nibbles (nibbles >>> 4) = .ok sums
  bytes_eq : bytes = sums &&& 0x0F0F0F0F0F0F0F0F
  product_eq : product = bytes * 0x0101010101010101

namespace ParallelSum64

variable {v pairs nibbles sums bytes product : UInt64}

theorem popcount_eq (h : ParallelSum64 v pairs nibbles sums bytes product) :
    popcount64 v = .ok (product >>> 56) := by
  simp only [popcount64, h.pairs_eq, h.nibbles_eq, h.sums_eq, h.product_eq, h.bytes_eq, bind,
    Except.bind, pure, Except.pure]

theorem toNat_bytes (h : ParallelSum64 v pairs nibbles sums bytes product) :
    bytes.toNat = (nibbles.toNat + nibbles.toNat >>> 4) &&& LittleEndian.mask 8 0x0F := by
  rw [h.bytes_eq, UInt64.toNat_and, Checked.toNat_of_add h.sums_eq, UInt64.toNat_shiftRight]
  rfl

theorem toNat_product (h : ParallelSum64 v pairs nibbles sums bytes product) :
    product.toNat = bytes.toNat * LittleEndian.mask 8 1 % 256 ^ 8 := by
  rw [h.product_eq]
  exact UInt64.toNat_mul _ _

/-- What the last shift leaves is what the passes arrive at. -/
theorem toNat_total {total : Nat} (h : ParallelSum64 v pairs nibbles sums bytes product)
    (hpasses : Passes 8 v.toNat pairs.toNat nibbles.toNat total) :
    (product >>> 56).toNat = total := by
  rw [UInt64.toNat_shiftRight, h.toNat_product, h.toNat_bytes, Nat.shiftRight_eq_div_pow]
  exact hpasses.total_eq

end ParallelSum64

/-- Every word has its parallel sum, and the sums of pairs and of halves are
those of the passes. -/
theorem exists_parallelSum64 (v : UInt64) :
    ∃ pairs nibbles sums bytes product, ParallelSum64 v pairs nibbles sums bytes product ∧
      Passes 8 v.toNat pairs.toNat nibbles.toNat (Width.setBits .w64 v) := by
  obtain ⟨_, _, h⟩ := Width.exists_passes .w64 v
  obtain ⟨pairs, hpairs, hpairsNat⟩ :=
    Checked.exists_sub (a := v) (b := (v >>> 1) &&& 0x5555555555555555) h.odd_le
  obtain rfl := h.pairs_eq.trans hpairsNat.symm
  have hhalves := h.halves_eq
  obtain ⟨nibbles, hnibbles, hnibblesNat⟩ :=
    Checked.exists_add (a := pairs &&& 0x3333333333333333)
      (b := (pairs >>> 2) &&& 0x3333333333333333)
      (lt_of_eq_of_lt hhalves.symm h.halves_lt)
  obtain rfl := hhalves.trans hnibblesNat.symm
  obtain ⟨sums, hsums, -⟩ := Checked.exists_add (a := nibbles) (b := nibbles >>> 4) h.bytes_lt
  exact ⟨pairs, nibbles, sums, _, _, ⟨hpairs, hnibbles, hsums, rfl, rfl⟩, h⟩

/-- The parallel sum of 64 bits: no pass overflows, and the answer is the
number of set bits. -/
theorem popcount64_eq (v : UInt64) :
    popcount64 v = .ok (UInt64.ofNat (Width.setBits .w64 v)) := by
  obtain ⟨_, _, _, _, _, hsum, hpasses⟩ := exists_parallelSum64 v
  rw [hsum.popcount_eq, ← hsum.toNat_total hpasses, UInt64.ofNat_toNat]

end PagedMemory
