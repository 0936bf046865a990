/-
PagedMemory.Proofs.BigEndian — words in memory with the most significant byte
first.

Loads and stores are little-endian.  A program that wants the other order
swaps the bytes of a word before it stores it and after it has loaded it, and
`swapped_words_are_big_endian` says that this is what it gets: the bytes of
the word in big-endian order (`StoredBigEndian`), and the number that bytes
spell in big-endian order (`decode_reverse`).  What is written so is read
back, and what is read so can be written back.
-/
import PagedMemory.Proofs.OverlappingAccesses
import Mathlib.Algebra.BigOperators.Intervals
import Mathlib.Data.List.GetD

namespace PagedMemory

open Finset

/-- A byte string read backwards spells the sum of its bytes with the first
at the highest place. -/
theorem LittleEndian.decode_reverse (xs : List UInt8) :
    decode xs.reverse =
      ∑ k ∈ range xs.length, (xs.getD k 0).toNat * 256 ^ (xs.length - 1 - k) := by
  rw [decode_eq_sum, List.length_reverse, ← sum_range_reflect]
  refine sum_congr rfl ?_
  intro k hk
  have hlt := mem_range.mp hk
  have hback : xs.length - 1 - (xs.length - 1 - k) = k := by omega
  rw [List.getD_reverse _ (by omega), hback]

namespace Access

variable {w : Width} {b : Bytes} {offset : UInt64}

/-- The word `v` was put at `offset` with its most significant byte first,
and nothing else was changed. -/
structure StoredBigEndian (offset : UInt64) (v : Word w) (b b' : Bytes) : Prop where
  size_eq : b'.size = b.size
  /-- Byte `k` of the window is byte `w.byteCount - 1 - k` of the word, counted
  from the low end. -/
  inside : ∀ k < w.byteCount,
    (b'.byteAt (offset.toNat + k)).toNat = (w.value v >>> (8 * (w.byteCount - 1 - k))) % 256
  outside : ∀ i, i < offset.toNat ∨ offset.toNat + w.byteCount ≤ i → b'.byteAt i = b.byteAt i

theorem storedBigEndian_overwrite (v : Word w) (hfit : offset.toNat + w.byteCount ≤ b.size) :
    StoredBigEndian offset v b (b.overwrite offset.toNat (w.toBytes (w.swapBytes v))) where
  size_eq := Bytes.size_overwrite ..
  inside := by
    intro k hk
    have hlength := w.length_toBytes v
    rw [w.toBytes_swapBytes,
      Bytes.byteAt_overwrite _ _ _ _ (by rwa [List.length_reverse, hlength]),
      if_pos (by rw [List.length_reverse]; omega), Nat.add_sub_cancel_left,
      List.getD_reverse _ (by omega), hlength, w.getD_toBytes, if_pos (by omega),
      UInt8.toNat_ofNat', Nat.shiftRight_eq_div_pow, Nat.pow_mul]
  outside := (stored_overwrite hfit).outside

/-- The bytes of a word that was loaded are those of its window. -/
theorem toBytes_of_load {x : Word w} (h : load w b offset = .ok x) :
    w.toBytes x = b.readFrom offset.toNat w.byteCount := by
  have hrange := (inRange_iff w b offset).mpr ⟨x, h⟩
  obtain rfl : w.word (LittleEndian.decode (b.readFrom offset.toNat w.byteCount)) = x :=
    Except.ok.inj (hrange.load_eq.symm.trans h)
  exact Width.toBytes_word_decode (Bytes.length_readFrom ..)

/-- A word that was loaded and is then swapped is the number that the bytes of
the window spell with the most significant byte first. -/
theorem value_swapBytes_of_load {x : Word w} (h : load w b offset = .ok x) :
    w.value (w.swapBytes x) =
      ∑ k ∈ range w.byteCount,
        (b.byteAt (offset.toNat + k)).toNat * 256 ^ (w.byteCount - 1 - k) := by
  rw [← w.decode_toBytes, w.toBytes_swapBytes, toBytes_of_load h, LittleEndian.decode_reverse,
    Bytes.length_readFrom]
  refine sum_congr rfl ?_
  intro k hk
  rw [Bytes.getD_readFrom _ _ (mem_range.mp hk)]

/-- A word that was loaded may be stored back. -/
theorem outcome_store_of_load {x : Word w} (h : load w b offset = .ok x) :
    (store w offset x).outcome b = (.ok (), b) := by
  have hrange := (inRange_iff w b offset).mpr ⟨x, h⟩
  rw [hrange.outcome_store, toBytes_of_load h, Bytes.overwrite_readFrom hrange.le]

/-- A swap is its own inverse.  At every offset in range, to store a swapped
word is to put its bytes in big-endian order, and to swap a loaded word is to
read the bytes of the window in that order.  Each of the two undoes the
other. -/
theorem swapped_words_are_big_endian (w : Width) :
    (∀ v : Word w, w.swapBytes (w.swapBytes v) = v) ∧
    ∀ (b : Bytes) (offset : UInt64), InRange w offset b.size →
      (∀ v : Word w, ∃ b' x, (store w offset (w.swapBytes v)).outcome b = (.ok (), b') ∧
        StoredBigEndian offset v b b' ∧ load w b' offset = .ok x ∧ w.swapBytes x = v) ∧
      ∃ x, load w b offset = .ok x ∧
        w.value (w.swapBytes x) =
          ∑ k ∈ range w.byteCount,
            (b.byteAt (offset.toNat + k)).toNat * 256 ^ (w.byteCount - 1 - k) ∧
        (store w offset (w.swapBytes (w.swapBytes x))).outcome b = (.ok (), b) := by
  refine ⟨w.swapBytes_swapBytes, ?_⟩
  intro b offset h
  refine ⟨?_, ?_⟩
  · intro v
    refine ⟨_, _, h.outcome_store _, storedBigEndian_overwrite v h.le, ?_,
      w.swapBytes_swapBytes v⟩
    exact load_overwrite_self h.lt h.le
  · obtain ⟨x, hload⟩ := (inRange_iff w b offset).mp h
    refine ⟨x, hload, value_swapBytes_of_load hload, ?_⟩
    rw [w.swapBytes_swapBytes, outcome_store_of_load hload]

/-- The number 42 with its most significant byte first at address 3 of eight,
and another one put in its place. -/
theorem swapped_words_are_big_endian_at_three :
    let b : Bytes := ⟨#[0xFF, 0xFF, 0xFF, 0x00, 0x00, 0x00, 0x2A, 0xFF]⟩
    InRange .w32 3 b.size ∧
    (∃ x, load .w32 b 3 = .ok x ∧ Width.value .w32 (swapBytes32 x) = 42) ∧
    ∃ b', (store .w32 3 (swapBytes32 0x11223344)).outcome b = (.ok (), b') ∧
      b'.byteAt 2 = 0xFF ∧ (b'.byteAt 3).toNat = 0x11 ∧ (b'.byteAt 6).toNat = 0x44 := by
  intro b
  have h : InRange .w32 3 b.size := ⟨by decide, by decide⟩
  obtain ⟨hstore, x, hload, hvalue, -⟩ := (swapped_words_are_big_endian .w32).2 b 3 h
  obtain ⟨b', -, hgranted, hstored, -, -⟩ := hstore (0x11223344 : UInt32)
  refine ⟨h, ⟨x, hload, hvalue.trans (by decide)⟩, b', hgranted, ?_, ?_, ?_⟩
  · exact hstored.outside 2 (.inl (by decide))
  · exact hstored.inside 0 (by decide)
  · exact hstored.inside 3 (by decide)

end Access

end PagedMemory
