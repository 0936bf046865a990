/-
PagedMemory.Proofs.ZeroCounts — trailing and leading zeros by the positions
of the lowest and the highest set bit.

  - `LowestSetBit n i`, `HighestSetBit n i` — bit `i` of `n` is set and no bit
    below it is, or no bit above it.
  - `ZeroCounts width n t l` — the zeros at the two ends of a word of `width`
    bits: `width` both times for zero, else the position of the lowest set bit
    and the distance of the highest one from the top.
  - `SetBitSpan n s` — the positions from the lowest to the highest set bit.

Taking one from a number clears its lowest set bit, sets the bits below and
leaves those above alone (`LowestSetBit.testBit_pred`).  The bits that the
number lacks and its predecessor has are then those below the lowest set bit,
and the population count says how many these are.  Leading zeros are the
trailing ones of the word in reverse order.
-/
import PagedMemory.Guest.BitStats
import PagedMemory.Proofs.BitReversal
import Mathlib.Data.Nat.Bitwise

namespace PagedMemory

/-! ## The two ends of a number -/

/-- Bit `i` is set and none below it is. -/
structure LowestSetBit (n i : Nat) : Prop where
  set : n.testBit i = true
  below : ∀ j < i, n.testBit j = false

/-- Bit `i` is set and none above it is. -/
structure HighestSetBit (n i : Nat) : Prop where
  set : n.testBit i = true
  above : ∀ j, i < j → n.testBit j = false

theorem exists_lowestSetBit {n : Nat} (h : n ≠ 0) : ∃ i, LowestSetBit n i := by
  have hset : ∃ i, n.testBit i = true := Nat.exists_testBit_of_ne_zero h
  refine ⟨Nat.find hset, Nat.find_spec hset, ?_⟩
  intro j hj
  exact Bool.eq_false_iff.mpr (Nat.find_min hset hj)

theorem exists_highestSetBit {n : Nat} (h : n ≠ 0) : ∃ i, HighestSetBit n i := by
  obtain ⟨i, hset, habove⟩ := Nat.exists_most_significant_bit h
  exact ⟨i, hset, habove⟩

/-- A set bit of a number that fits a word is a bit of the word. -/
theorem lt_of_testBit {n i width : Nat} (hn : n < 2 ^ width) (hset : n.testBit i = true) :
    i < width :=
  (Nat.pow_lt_pow_iff_right (by decide)).mp (Nat.lt_of_le_of_lt (Nat.ge_two_pow_of_testBit hset) hn)

theorem LowestSetBit.pos {n i : Nat} (h : LowestSetBit n i) : 0 < n :=
  Nat.lt_of_lt_of_le (Nat.two_pow_pos i) (Nat.ge_two_pow_of_testBit h.set)

theorem LowestSetBit.le_highest {n low high : Nat} (hlow : LowestSetBit n low)
    (hhigh : HighestSetBit n high) : low ≤ high := by
  by_contra hgt
  have hclear := hhigh.above low (Nat.not_le.mp hgt)
  rw [hlow.set] at hclear
  cases hclear

/-- A number that is not zero has both ends, and they lie inside its word. -/
theorem exists_ends {n width : Nat} (h : n ≠ 0) (hn : n < 2 ^ width) :
    ∃ low high, LowestSetBit n low ∧ HighestSetBit n high ∧ low ≤ high ∧ high < width := by
  obtain ⟨low, hlow⟩ := exists_lowestSetBit h
  obtain ⟨high, hhigh⟩ := exists_highestSetBit h
  exact ⟨low, high, hlow, hhigh, hlow.le_highest hhigh, lt_of_testBit hn hhigh.set⟩

/-- The lowest set bit is what the number leaves modulo the next power. -/
theorem LowestSetBit.mod_eq {n i : Nat} (h : LowestSetBit n i) : n % 2 ^ (i + 1) = 2 ^ i := by
  apply Nat.eq_of_testBit_eq
  intro j
  rw [Nat.testBit_mod_two_pow, Nat.testBit_two_pow]
  obtain hlt | rfl | hgt := Nat.lt_trichotomy j i
  · simp [h.below j hlt, Nat.ne_of_gt hlt]
  · simp [h.set]
  · simp [Nat.ne_of_lt hgt, Nat.not_lt.mpr hgt]

/-- The predecessor: the lowest set bit is clear, those below it are set and
those above it are as they were. -/
theorem LowestSetBit.testBit_pred {n i : Nat} (h : LowestSetBit n i) (j : Nat) :
    (n - 1).testBit j = (decide (j < i) || (decide (i < j) && n.testBit j)) := by
  have hpos := Nat.two_pow_pos i
  have hlt : 2 ^ i < 2 ^ (i + 1) := Nat.pow_lt_pow_right (by decide) (Nat.lt_succ_self i)
  -- the borrow stops at bit `i`: what stands above it is the same in both numbers
  have hn : n = 2 ^ (i + 1) * (n / 2 ^ (i + 1)) + 2 ^ i := by
    rw [← h.mod_eq, Nat.div_add_mod]
  have hpred : n - 1 = 2 ^ (i + 1) * (n / 2 ^ (i + 1)) + (2 ^ i - 1) := by omega
  by_cases hj : j < i + 1
  · rw [hpred, Nat.testBit_two_pow_mul_add _ (by omega), if_pos hj, Nat.testBit_two_pow_sub_one]
    simp [show ¬ i < j by omega]
  · have hbit : n.testBit j = (n / 2 ^ (i + 1)).testBit (j - (i + 1)) := by
      rw [Nat.testBit_div_two_pow, Nat.sub_add_cancel (Nat.not_lt.mp hj)]
    rw [hpred, Nat.testBit_two_pow_mul_add _ (by omega), if_neg hj, hbit]
    simp [show i < j by omega, show ¬ j < i by omega]

/-- What a number of `width` bits lacks and its predecessor has are the bits
below its lowest set bit. -/
theorem LowestSetBit.testBit_mask {n i width : Nat} (h : LowestSetBit n i) (hn : n < 2 ^ width)
    {j : Nat} (hj : j < width) :
    ((2 ^ width - 1 - n) &&& (n - 1)).testBit j = decide (j < i) := by
  have hnot : 2 ^ width - 1 - n = 2 ^ width - (n + 1) := by omega
  rw [Nat.testBit_and, hnot, Nat.testBit_two_pow_sub_succ hn, h.testBit_pred]
  obtain hlt | rfl | hgt := Nat.lt_trichotomy j i
  · simp [hj, hlt, h.below j hlt]
  · simp
  · simp [hgt, Nat.not_lt.mpr (Nat.le_of_lt hgt)]

/-- The highest set bit is the lowest one of the bits in reverse order. -/
theorem HighestSetBit.lowest_reversed {n m high width : Nat} (h : HighestSetBit n high)
    (hhigh : high < width) (hreverse : ∀ i < width, m.testBit i = n.testBit (width - 1 - i)) :
    LowestSetBit m (width - 1 - high) := by
  constructor
  · rw [hreverse _ (by omega), show width - 1 - (width - 1 - high) = high by omega]
    exact h.set
  · intro j hj
    rw [hreverse j (by omega)]
    exact h.above _ (by omega)

/-! ## Counts -/

/-- A word whose set bits are those below position `i` has `i` of them. -/
theorem Width.setBits_of_below (w : Width) (v : Word w) {i : Nat} (hi : i ≤ w.bitCount)
    (h : ∀ j < w.bitCount, (w.value v).testBit j = decide (j < i)) : w.setBits v = i := by
  have hsplit : List.range w.bitCount =
      List.range i ++ (List.range (w.bitCount - i)).map (i + ·) := by
    rw [← List.range_add, Nat.add_sub_cancel' hi]
  have hbelow : (List.range i).countP (w.value v).testBit = i := by
    rw [List.countP_eq_length.mpr, List.length_range]
    intro j hj
    have hlt := List.mem_range.mp hj
    rw [h j (by omega)]
    exact decide_eq_true hlt
  have hrest : ((List.range (w.bitCount - i)).map (i + ·)).countP (w.value v).testBit = 0 := by
    rw [List.countP_eq_zero]
    intro j hj
    obtain ⟨k, hk, rfl⟩ := List.mem_map.mp hj
    have hlt := List.mem_range.mp hk
    rw [h _ (by omega)]
    simp
  rw [Width.setBits, hsplit, List.countP_append, hbelow, hrest, Nat.add_zero]

/-- The mask below the lowest set bit of a number has as many bits as lie
below that bit. -/
theorem Width.setBits_mask (w : Width) {n low : Nat} {mask : Word w} (h : LowestSetBit n low)
    (hn : n < 2 ^ w.bitCount)
    (hmask : w.value mask = (2 ^ w.bitCount - 1 - n) &&& (n - 1)) : w.setBits mask = low := by
  apply w.setBits_of_below mask (Nat.le_of_lt (lt_of_testBit hn h.set))
  intro j hj
  rw [hmask]
  exact h.testBit_mask hn hj

/-- Positions in a word are exact as words. -/
theorem toNat_position32 {i : Nat} (h : i < 32) : (UInt32.ofNat i).toNat = i :=
  UInt32.toNat_ofNat_of_lt' (Nat.lt_trans h (by decide))

theorem toNat_position64 {i : Nat} (h : i < 64) : (UInt64.ofNat i).toNat = i :=
  UInt64.toNat_ofNat_of_lt' (Nat.lt_trans h (by decide))

theorem trailingZeros32_eq {x : UInt32} {low : Nat} (h : LowestSetBit x.toNat low) :
    trailingZeros32 x = .ok (UInt32.ofNat low) := by
  have hone : (1 : UInt32) ≤ x := UInt32.le_iff_toNat_le.mpr h.pos
  have hmask : (~~~x &&& (x - 1)).toNat = (2 ^ 32 - 1 - x.toNat) &&& (x.toNat - 1) := by
    rw [UInt32.toNat_and, UInt32.toNat_not, UInt32.toNat_sub_of_le _ _ hone]
    rfl
  rw [trailingZeros32, popcount32_eq, Width.setBits_mask .w32 h x.toNat_lt hmask]

theorem leadingZeros32_eq {x : UInt32} {high : Nat} (h : HighestSetBit x.toNat high) :
    leadingZeros32 x = .ok (UInt32.ofNat (31 - high)) :=
  trailingZeros32_eq (h.lowest_reversed (lt_of_testBit x.toNat_lt h.set)
    fun _ hi => testBit_reverseBits32 x hi)

theorem trailingZeros64_eq {x : UInt64} {low : Nat} (h : LowestSetBit x.toNat low) :
    trailingZeros64 x = .ok (UInt64.ofNat low) := by
  have hone : (1 : UInt64) ≤ x := UInt64.le_iff_toNat_le.mpr h.pos
  have hmask : (~~~x &&& (x - 1)).toNat = (2 ^ 64 - 1 - x.toNat) &&& (x.toNat - 1) := by
    rw [UInt64.toNat_and, UInt64.toNat_not, UInt64.toNat_sub_of_le _ _ hone]
    rfl
  rw [trailingZeros64, popcount64_eq, Width.setBits_mask .w64 h x.toNat_lt hmask]

theorem leadingZeros64_eq {x : UInt64} {high : Nat} (h : HighestSetBit x.toNat high) :
    leadingZeros64 x = .ok (UInt64.ofNat (63 - high)) :=
  trailingZeros64_eq (h.lowest_reversed (lt_of_testBit x.toNat_lt h.set)
    fun _ hi => testBit_reverseBits64 x hi)

/-! ## What the counts say -/

/-- The zeros at the low end and at the high end of a number of `width`
bits. -/
inductive ZeroCounts (width : Nat) : (n trailing leading : Nat) → Prop
  | zero : ZeroCounts width 0 width width
  | between {n low high : Nat} : LowestSetBit n low → HighestSetBit n high → high < width →
      ZeroCounts width n low (width - 1 - high)

/-- The number of positions from the lowest to the highest set bit. -/
inductive SetBitSpan : (n span : Nat) → Prop
  | zero : SetBitSpan 0 0
  | between {n low high : Nat} : LowestSetBit n low → HighestSetBit n high → low ≤ high →
      SetBitSpan n (high - low + 1)

theorem zeroCounts32 (x : UInt32) :
    ∃ trailing leading, trailingZeros32 x = .ok trailing ∧ leadingZeros32 x = .ok leading ∧
      ZeroCounts 32 x.toNat trailing.toNat leading.toNat := by
  by_cases hx : x = 0
  · -- zero has no predecessor, but the difference wraps and the mask has all bits
    subst hx
    exact ⟨32, 32, rfl, rfl, .zero⟩
  · have hne : x.toNat ≠ 0 := fun h => hx (UInt32.toNat_inj.mp h)
    obtain ⟨low, high, hlow, hhigh, hle, hlt⟩ := exists_ends hne x.toNat_lt
    refine ⟨_, _, trailingZeros32_eq hlow, leadingZeros32_eq hhigh, ?_⟩
    rw [toNat_position32 (by omega), toNat_position32 (by omega)]
    exact .between hlow hhigh hlt

theorem zeroCounts64 (x : UInt64) :
    ∃ trailing leading, trailingZeros64 x = .ok trailing ∧ leadingZeros64 x = .ok leading ∧
      ZeroCounts 64 x.toNat trailing.toNat leading.toNat := by
  by_cases hx : x = 0
  · -- zero has no predecessor, but the difference wraps and the mask has all bits
    subst hx
    exact ⟨64, 64, rfl, rfl, .zero⟩
  · have hne : x.toNat ≠ 0 := fun h => hx (UInt64.toNat_inj.mp h)
    obtain ⟨low, high, hlow, hhigh, hle, hlt⟩ := exists_ends hne x.toNat_lt
    refine ⟨_, _, trailingZeros64_eq hlow, leadingZeros64_eq hhigh, ?_⟩
    rw [toNat_position64 (by omega), toNat_position64 (by omega)]
    exact .between hlow hhigh hlt

namespace Guest.BitStats

/-- Neither subtraction runs below zero, since the zeros at the two ends do
not overlap. -/
theorem exists_bitSpan (x : UInt64) :
    ∃ span, bitSpan x = .ok span ∧ SetBitSpan x.toNat span.toNat := by
  by_cases hx : x = 0
  · subst hx
    exact ⟨0, rfl, .zero⟩
  · have hne : x.toNat ≠ 0 := fun h => hx (UInt64.toNat_inj.mp h)
    obtain ⟨low, high, hlow, hhigh, hle, hlt⟩ := exists_ends hne x.toNat_lt
    have hleading : (UInt64.ofNat (63 - high)).toUInt32.toNat = 63 - high := by
      rw [UInt64.toNat_toUInt32, toNat_position64 (by omega)]
      omega
    have htrailing : (UInt64.ofNat low).toUInt32.toNat = low := by
      rw [UInt64.toNat_toUInt32, toNat_position64 (by omega)]
      omega
    -- the first difference is `high + 1`, which is more than `low`
    have hwidth : (64 : UInt32).toNat = 64 := rfl
    obtain ⟨upTo, hfirst, hupTo⟩ :=
      Checked.exists_sub (a := 64) (b := (UInt64.ofNat (63 - high)).toUInt32) (by omega)
    obtain ⟨span, hsecond, hspan⟩ :=
      Checked.exists_sub (a := upTo) (b := (UInt64.ofNat low).toUInt32) (by omega)
    have hvalue : span.toNat = high - low + 1 := by omega
    refine ⟨span, ?_, ?_⟩
    · rw [bitSpan, if_neg hx, leadingZeros64_eq hhigh, trailingZeros64_eq hlow]
      show (Checked.sub 64 (UInt64.ofNat (63 - high)).toUInt32 >>= fun upTo =>
        Checked.sub upTo (UInt64.ofNat low).toUInt32) = .ok span
      rw [hfirst]
      exact hsecond
    · rw [hvalue]
      exact .between hlow hhigh hle

end Guest.BitStats

/-- Of every word the trailing zeros are the position of the lowest set bit
and the leading zeros the distance of the highest one from the top; both are
the width of the word when no bit is set.  The span of the set bits is their
distance and one more, or zero.  No step of any of them overflows. -/
theorem zero_counts_locate_set_bits :
    (∀ x : UInt32, ∃ trailing leading,
      trailingZeros32 x = .ok trailing ∧ leadingZeros32 x = .ok leading ∧
        ZeroCounts 32 x.toNat trailing.toNat leading.toNat) ∧
    (∀ x : UInt64, ∃ trailing leading,
      trailingZeros64 x = .ok trailing ∧ leadingZeros64 x = .ok leading ∧
        ZeroCounts 64 x.toNat trailing.toNat leading.toNat) ∧
    (∀ x : UInt64, ∃ span,
      Guest.BitStats.bitSpan x = .ok span ∧ SetBitSpan x.toNat span.toNat) :=
  ⟨zeroCounts32, zeroCounts64, Guest.BitStats.exists_bitSpan⟩

end PagedMemory
