/-
PagedMemory.Proofs.OverlappingAccesses — words of different widths in one
memory.

The bytes come first: two stretches that are written at disjoint places may
be written in either order (`overwrite_comm`), a stretch that a later one
covers leaves no trace (`overwrite_of_covered`), and what was read may be put
back (`overwrite_readFrom`).

A word is the bytes of its low half followed by those of its high half
(`toBytes_halves`), so what holds of stretches carries over to words of all
widths at all offsets.  `InRange` says that an access is granted; where it
holds, an access is a plain read or write of bytes.
-/
import PagedMemory.Proofs.ByteOrder
import PagedMemory.Proofs.WordAccess

namespace PagedMemory

/-! ## Stretches of bytes -/

namespace Bytes

variable {b : Bytes} {i j : Nat} {xs ys : List UInt8}

/-- Disjoint stretches may be written in either order. -/
theorem overwrite_comm (hxs : i + xs.length ≤ b.size) (hys : j + ys.length ≤ b.size)
    (hdisjoint : i + xs.length ≤ j ∨ j + ys.length ≤ i) :
    overwrite (overwrite b i xs) j ys = overwrite (overwrite b j ys) i xs := by
  refine ext_byteAt (by simp) ?_
  intro a _
  rw [byteAt_overwrite _ _ _ _ (by simpa using hys), byteAt_overwrite _ _ _ _ hxs,
    byteAt_overwrite _ _ _ _ (by simpa using hxs), byteAt_overwrite _ _ _ _ hys]
  by_cases hin : i ≤ a ∧ a < i + xs.length
  · rw [if_pos hin, if_pos hin, if_neg (by omega)]
  · rw [if_neg hin, if_neg hin]

/-- A stretch that is covered by a later one leaves no trace. -/
theorem overwrite_of_covered (hys : j + ys.length ≤ b.size) (hle : j ≤ i)
    (hend : i + xs.length ≤ j + ys.length) :
    overwrite (overwrite b i xs) j ys = overwrite b j ys := by
  refine ext_byteAt (by simp) ?_
  intro a _
  rw [byteAt_overwrite _ _ _ _ (by simpa using hys), byteAt_overwrite _ _ _ _ hys,
    byteAt_overwrite _ _ _ _ (Nat.le_trans hend hys)]
  by_cases hin : j ≤ a ∧ a < j + ys.length
  · rw [if_pos hin, if_pos hin]
  · rw [if_neg hin, if_neg hin, if_neg (by omega)]

/-- What was read from a place may be put back there. -/
theorem overwrite_readFrom {n : Nat} (hfit : i + n ≤ b.size) :
    overwrite b i (readFrom b i n) = b := by
  refine ext_byteAt (by simp) ?_
  intro a _
  rw [byteAt_overwrite _ _ _ _ (by simpa using hfit), length_readFrom]
  by_cases hin : i ≤ a ∧ a < i + n
  · rw [if_pos hin, getD_readFrom _ _ (by omega), Nat.add_sub_cancel' hin.1]
  · rw [if_neg hin]

end Bytes

/-! ## Halves of words -/

namespace Width

/-- The low bits of a word, as a word of half the width. -/
def lowHalf (w half : Width) (v : Word w) : Word half := half.word (w.value v)

/-- The bits of a word behind its low half, as a word of half the width. -/
def highHalf (w half : Width) (v : Word w) : Word half :=
  half.word (w.value v >>> half.bitCount)

variable {w : Width}

/-- The bytes of a number are the bytes of the word that agrees with it. -/
theorem toBytes_word (w : Width) (n : Nat) :
    w.toBytes (w.word n) = LittleEndian.encode w.byteCount n := by
  rw [toBytes, value_word, two_pow_bitCount, LittleEndian.encode_mod]

/-- A word is its low half followed by its high half. -/
theorem toBytes_halves {half : Width} (h : w.byteCount = 2 * half.byteCount) (v : Word w) :
    w.toBytes v = half.toBytes (w.lowHalf half v) ++ half.toBytes (w.highHalf half v) := by
  rw [toBytes, h, Nat.two_mul, LittleEndian.encode_add, lowHalf, highHalf, toBytes_word,
    toBytes_word, Nat.shiftRight_eq_div_pow, two_pow_bitCount]

/-- The number that the halves of a word spell together. -/
theorem value_word_decode_append {half : Width} (h : w.byteCount = 2 * half.byteCount)
    {xs ys : List UInt8} (hxs : xs.length = half.byteCount) (hys : ys.length = half.byteCount) :
    w.value (w.word (LittleEndian.decode (xs ++ ys))) =
      half.value (half.word (LittleEndian.decode xs)) +
        2 ^ half.bitCount * half.value (half.word (LittleEndian.decode ys)) := by
  have hvalue (u : Width) (zs : List UInt8) (hzs : zs.length = u.byteCount) :
      u.value (u.word (LittleEndian.decode zs)) = LittleEndian.decode zs := by
    have hlt := LittleEndian.decode_lt zs
    rw [hzs, ← two_pow_bitCount] at hlt
    rw [value_word, Nat.mod_eq_of_lt hlt]
  have happend : (xs ++ ys).length = w.byteCount := by
    rw [List.length_append, hxs, hys, h, Nat.two_mul]
  rw [hvalue w _ happend, hvalue half _ hxs, hvalue half _ hys, LittleEndian.decode_append, hxs,
    two_pow_bitCount]

end Width

/-! ## Accesses in range -/

namespace Access

/-- The window of an access lies inside bytes of the given size. -/
structure InRange (w : Width) (offset : UInt64) (size : Nat) : Prop where
  /-- The end of the window is a 64-bit offset. -/
  lt : offset.toNat + w.byteCount < UInt64.size
  le : offset.toNat + w.byteCount ≤ size

variable {w w' half : Width} {b : Bytes} {offset offset' : UInt64}

theorem InRange.load_eq (h : InRange w offset b.size) :
    load w b offset = .ok (w.word (LittleEndian.decode (b.readFrom offset.toNat w.byteCount))) := by
  rw [Access.load_eq, if_pos h.lt, if_pos h.le]

theorem InRange.outcome_store (h : InRange w offset b.size) (v : Word w) :
    (store w offset v).outcome b = (.ok (), b.overwrite offset.toNat (w.toBytes v)) := by
  rw [Access.outcome_store, if_pos h.lt, if_pos h.le]

/-- Exactly the accesses in range are granted. -/
theorem inRange_iff (w : Width) (b : Bytes) (offset : UInt64) :
    InRange w offset b.size ↔ ∃ x, load w b offset = .ok x := by
  constructor
  · intro h
    exact ⟨_, h.load_eq⟩
  · rintro ⟨x, hx⟩
    rw [Access.load_eq] at hx
    split at hx
    · split at hx
      · exact ⟨‹_›, ‹_›⟩
      · cases hx
    · cases hx

/-- A store changes no size, so it leaves the same accesses in range. -/
theorem InRange.overwrite (h : InRange w offset b.size) (i : Nat) (xs : List UInt8) :
    InRange w offset (b.overwrite i xs).size := by
  rw [Bytes.size_overwrite]
  exact h

/-- Two stores in turn. -/
theorem outcome_store_store (h : InRange w offset b.size) (h' : InRange w' offset' b.size)
    (v : Word w) (v' : Word w') :
    (do store w offset v; store w' offset' v').outcome b =
      (.ok (), (b.overwrite offset.toNat (w.toBytes v)).overwrite offset'.toNat
        (w'.toBytes v')) := by
  rw [Routine.outcome_bind, h.outcome_store]
  exact (h'.overwrite _ _).outcome_store v'

/-! ## Overlaps -/

open Finset in
/-- A load behind a store takes the bytes of the stored word where the windows
overlap and the old bytes elsewhere. -/
theorem InRange.load_overwrite (h : InRange w offset b.size) (h' : InRange w' offset' b.size)
    (v' : Word w') :
    ∃ x, load w (b.overwrite offset'.toNat (w'.toBytes v')) offset = .ok x ∧
      w.value x = ∑ k ∈ range w.byteCount,
        (if offset'.toNat ≤ offset.toNat + k ∧
            offset.toNat + k < offset'.toNat + w'.byteCount then
          (w'.value v' >>> (8 * (offset.toNat + k - offset'.toNat))) % 256
        else (b.byteAt (offset.toNat + k)).toNat) * 256 ^ k := by
  obtain ⟨x, hload, hvalue⟩ := load_of_le h.lt
    (h.overwrite offset'.toNat (w'.toBytes v')).le
  refine ⟨x, hload, ?_⟩
  rw [hvalue]
  refine sum_congr rfl ?_
  intro k _
  rw [byteAt_overwrite_toBytes h'.le]
  split
  · rw [UInt8.toNat_ofNat', Nat.shiftRight_eq_div_pow, Nat.pow_mul]
  · rfl

/-! ## Halves of windows -/

/-- The offset of the high half of a window. -/
theorem toNat_highOffset (hhalf : w.byteCount = 2 * half.byteCount)
    (h : InRange w offset b.size) :
    (offset + UInt64.ofNat half.byteCount).toNat = offset.toNat + half.byteCount := by
  have hlt := h.lt
  have hcount : (UInt64.ofNat half.byteCount).toNat = half.byteCount :=
    UInt64.toNat_ofNat_of_lt (Width.byteCount_lt half)
  have hsum : offset.toNat + half.byteCount < 2 ^ 64 := by
    simp only [UInt64.size] at hlt
    omega
  rw [UInt64.toNat_add, hcount, Nat.mod_eq_of_lt hsum]

theorem InRange.low (hhalf : w.byteCount = 2 * half.byteCount) (h : InRange w offset b.size) :
    InRange half offset b.size := by
  obtain ⟨hlt, hle⟩ := h
  exact ⟨by omega, by omega⟩

theorem InRange.high (hhalf : w.byteCount = 2 * half.byteCount) (h : InRange w offset b.size) :
    InRange half (offset + UInt64.ofNat half.byteCount) b.size := by
  have hoffset := toNat_highOffset hhalf h
  obtain ⟨hlt, hle⟩ := h
  exact ⟨by omega, by omega⟩

/-- A store is the stores of both halves, the low one first. -/
theorem InRange.outcome_store_halves (hhalf : w.byteCount = 2 * half.byteCount)
    (h : InRange w offset b.size) (v : Word w) :
    (do store half offset (w.lowHalf half v)
        store half (offset + UInt64.ofNat half.byteCount) (w.highHalf half v)).outcome b =
      (store w offset v).outcome b := by
  rw [outcome_store_store (h.low hhalf) (h.high hhalf), h.outcome_store,
    toNat_highOffset hhalf h, Width.toBytes_halves hhalf, Bytes.overwrite_append,
    Width.length_toBytes]

/-- A load puts the loads of both halves together. -/
theorem InRange.load_halves (hhalf : w.byteCount = 2 * half.byteCount)
    (h : InRange w offset b.size) :
    ∃ x low high, load w b offset = .ok x ∧ load half b offset = .ok low ∧
      load half b (offset + UInt64.ofNat half.byteCount) = .ok high ∧
      w.value x = half.value low + 2 ^ half.bitCount * half.value high := by
  have hread : b.readFrom offset.toNat w.byteCount =
      b.readFrom offset.toNat half.byteCount ++
        b.readFrom (offset.toNat + half.byteCount) half.byteCount := by
    rw [hhalf, Nat.two_mul, Bytes.readFrom_add]
  refine ⟨_, _, _, h.load_eq, (h.low hhalf).load_eq, (h.high hhalf).load_eq, ?_⟩
  rw [hread, toNat_highOffset hhalf h]
  exact Width.value_word_decode_append hhalf (Bytes.length_readFrom ..) (Bytes.length_readFrom ..)

/-- Stores to disjoint windows may be made in either order. -/
theorem outcome_store_comm (h : InRange w offset b.size) (h' : InRange w' offset' b.size)
    (hdisjoint : offset.toNat + w.byteCount ≤ offset'.toNat ∨
      offset'.toNat + w'.byteCount ≤ offset.toNat) (v : Word w) (v' : Word w') :
    (do store w offset v; store w' offset' v').outcome b =
      (do store w' offset' v'; store w offset v).outcome b := by
  rw [outcome_store_store h h', outcome_store_store h' h, Bytes.overwrite_comm]
  · simpa using h.le
  · simpa using h'.le
  · simpa using hdisjoint

/-! ## Words of all widths -/

open Finset in
/-- Two accesses in range of any widths, at any distance from each other.  A
load behind a store finds the bytes of the stored word where the two windows
overlap and what was there before elsewhere.  Stores to disjoint windows
commute, and a store leaves no trace when a later one covers it.  What was
loaded may be stored back.  An access is the two accesses of half its width,
the low half first in memory, and the two stores may be made in either
order. -/
theorem mixed_width_accesses (b : Bytes) (w w' : Width) (offset offset' : UInt64)
    (h : InRange w offset b.size) (h' : InRange w' offset' b.size) :
    (∀ v' : Word w', ∃ b' x, (store w' offset' v').outcome b = (.ok (), b') ∧
      load w b' offset = .ok x ∧
      w.value x = ∑ k ∈ range w.byteCount,
        (if offset'.toNat ≤ offset.toNat + k ∧
            offset.toNat + k < offset'.toNat + w'.byteCount then
          (w'.value v' >>> (8 * (offset.toNat + k - offset'.toNat))) % 256
        else (b.byteAt (offset.toNat + k)).toNat) * 256 ^ k) ∧
    (offset.toNat + w.byteCount ≤ offset'.toNat ∨
        offset'.toNat + w'.byteCount ≤ offset.toNat →
      ∀ (v : Word w) (v' : Word w'), ∃ b',
        (do store w offset v; store w' offset' v').outcome b = (.ok (), b') ∧
        (do store w' offset' v'; store w offset v).outcome b = (.ok (), b')) ∧
    (offset'.toNat ≤ offset.toNat →
        offset.toNat + w.byteCount ≤ offset'.toNat + w'.byteCount →
      ∀ (v : Word w) (v' : Word w'),
        (do store w offset v; store w' offset' v').outcome b = (store w' offset' v').outcome b) ∧
    (∃ x, load w b offset = .ok x ∧ (store w offset x).outcome b = (.ok (), b)) ∧
    ∀ half : Width, w.byteCount = 2 * half.byteCount →
      (∀ v : Word w,
        (do store half offset (w.lowHalf half v)
            store half (offset + UInt64.ofNat half.byteCount) (w.highHalf half v)).outcome b =
          (store w offset v).outcome b ∧
        (do store half (offset + UInt64.ofNat half.byteCount) (w.highHalf half v)
            store half offset (w.lowHalf half v)).outcome b =
          (store w offset v).outcome b) ∧
      ∃ x low high, load w b offset = .ok x ∧ load half b offset = .ok low ∧
        load half b (offset + UInt64.ofNat half.byteCount) = .ok high ∧
        w.value x = half.value low + 2 ^ half.bitCount * half.value high := by
  refine ⟨?_, ?_, ?_, ?_, ?_⟩
  · intro v'
    obtain ⟨x, hload, hvalue⟩ := h.load_overwrite h' v'
    exact ⟨_, x, h'.outcome_store v', hload, hvalue⟩
  · intro hdisjoint v v'
    refine ⟨_, outcome_store_store h h' v v', ?_⟩
    rw [← outcome_store_comm h h' hdisjoint, outcome_store_store h h']
  · intro hle hend v v'
    rw [outcome_store_store h h', h'.outcome_store, Bytes.overwrite_of_covered _ hle]
    · simpa using hend
    · simpa using h'.le
  · refine ⟨_, h.load_eq, ?_⟩
    rw [h.outcome_store, Width.toBytes_word_decode (Bytes.length_readFrom ..),
      Bytes.overwrite_readFrom h.le]
  · intro half hhalf
    refine ⟨?_, h.load_halves hhalf⟩
    intro v
    have hoffset := toNat_highOffset hhalf h
    refine ⟨h.outcome_store_halves hhalf v, ?_⟩
    rw [outcome_store_comm (h.high hhalf) (h.low hhalf) (.inr (Nat.le_of_eq hoffset.symm)),
      h.outcome_store_halves hhalf]

/-- Eight bytes stored at address 1 of sixteen, over four that were stored before
at address 3, and with two stored right behind them. -/
theorem mixed_width_accesses_at_one :
    let b := Bytes.replicate 16 0xAA
    let wide : Word .w64 := (0x0102030405060708 : UInt64)
    let inner : Word .w32 := (0xDEADBEEF : UInt32)
    let behind : Word .w16 := (0x1234 : UInt16)
    (InRange .w64 1 b.size ∧ InRange .w32 3 b.size ∧ InRange .w16 9 b.size) ∧
    (do store .w32 3 inner; store .w64 1 wide).outcome b = (store .w64 1 wide).outcome b ∧
    (∃ b', (do store .w64 1 wide; store .w16 9 behind).outcome b = (.ok (), b') ∧
      (do store .w16 9 behind; store .w64 1 wide).outcome b = (.ok (), b')) ∧
    ∃ x low high, load .w64 b 1 = .ok x ∧ load .w32 b 1 = .ok low ∧
      load .w32 b (1 + UInt64.ofNat 4) = .ok high ∧
      Width.value .w64 x = Width.value .w32 low + 2 ^ 32 * Width.value .w32 high := by
  intro b wide inner behind
  have hsize : b.size = 16 := Bytes.size_replicate 16 0xAA
  have hwide : InRange .w64 1 b.size := ⟨by decide, by rw [hsize]; decide⟩
  have hinner : InRange .w32 3 b.size := ⟨by decide, by rw [hsize]; decide⟩
  have hbehind : InRange .w16 9 b.size := ⟨by decide, by rw [hsize]; decide⟩
  obtain ⟨-, -, hcovered, -, -⟩ := mixed_width_accesses b .w32 .w64 3 1 hinner hwide
  obtain ⟨-, hdisjoint, -, -, hhalves⟩ := mixed_width_accesses b .w64 .w16 1 9 hwide hbehind
  exact ⟨⟨hwide, hinner, hbehind⟩, hcovered (by decide) (by decide) inner wide,
    hdisjoint (.inl (by decide)) wide behind, (hhalves .w32 rfl).2⟩

end Access

end PagedMemory
