/-
PagedMemory.Proofs.SortBuffer — the buffer of the sorting guest, slot by
slot.

  - `slotWord`, `setSlot` — a slot read and written.  Where all slots lie
                       inside the bytes (`HasSlots`), the guest's own loads
                       and stores do exactly this (`loadWord_slot`,
                       `outcome_storeWord_slot`): no address overflows, is
                       misaligned, or lies outside.
  - `elements m b`   — the first `m` slots as signed numbers: the view
                       through which a phase of the guest is compared with
                       its plain counterpart.
  - `KeepsOutside m` — nothing outside the first `m` slots is changed.
-/
import PagedMemory.Guest.SortSum
import PagedMemory.Proofs.WordAccess

namespace PagedMemory

namespace Guest

namespace SortSum

/-! ## Addresses -/

/-- The first address of a slot. -/
def slotStart (k : Nat) : Nat := 0x400 + 4 * k

/-- The first address of a slot as an offset. -/
def slotOffset (k : Nat) : UInt64 := UInt64.ofNat (slotStart k)

theorem toNat_slotOffset {k : Nat} (hk : k ≤ 1024) : (slotOffset k).toNat = slotStart k := by
  apply UInt64.toNat_ofNat_of_lt
  simp only [slotStart, UInt64.size]
  omega

/-- The address of a slot never overflows. -/
theorem slotAddress_eq {k : UInt32} (hk : k.toNat < 1024) :
    slotAddress k = .ok (slotOffset k.toNat) := by
  have hmul : (Checked.mul k 4 : Except Fault UInt32) = .ok (k * 4) :=
    Checked.mul_eq_ok (by simp [UInt32.size]; omega)
  have hdistance : (k * 4).toNat = 4 * k.toNat := by
    simp only [UInt32.toNat_mul, UInt32.toNat_ofNat]
    omega
  have hadd : (Checked.add bufferStart (k * 4) : Except Fault UInt32) =
      .ok (bufferStart + k * 4) :=
    Checked.add_eq_ok (by simp [hdistance, bufferStart, UInt32.size]; omega)
  have haddress : (bufferStart + k * 4).toUInt64 = slotOffset k.toNat := by
    apply UInt64.toNat_inj.mp
    rw [toNat_slotOffset (by omega), UInt32.toNat_toUInt64, Checked.toNat_of_add hadd, hdistance]
    rfl
  simp [slotAddress, hmul, hadd, haddress, bind, Except.bind, pure, Except.pure]

/-- The slot behind a slot. -/
theorem add_slotOffset {k : Nat} (hk : k < 1024) :
    (Checked.add (slotOffset k) 4 : Except Fault UInt64) = .ok (slotOffset (k + 1)) := by
  have hstart := toNat_slotOffset (Nat.le_of_lt hk)
  have hadd : (Checked.add (slotOffset k) 4 : Except Fault UInt64) = .ok (slotOffset k + 4) :=
    Checked.add_eq_ok (by simp [hstart, slotStart, UInt64.size]; omega)
  have hsum : slotOffset k + 4 = slotOffset (k + 1) := by
    apply UInt64.toNat_inj.mp
    rw [Checked.toNat_of_add hadd, hstart, toNat_slotOffset hk]
    rfl
  rw [hadd, hsum]

/-! ## Slots -/

/-- All slots lie inside the bytes. -/
def HasSlots (b : Bytes) : Prop := slotStart 1024 ≤ b.size

/-- The word in a slot. -/
def slotWord (b : Bytes) (k : Nat) : UInt32 :=
  Width.w32.word (LittleEndian.decode (b.readFrom (slotStart k) 4))

/-- The bytes with another word in a slot. -/
def setSlot (b : Bytes) (k : Nat) (v : UInt32) : Bytes :=
  b.overwrite (slotStart k) (Width.w32.toBytes v)

section Slots

variable {b : Bytes} {j k : Nat} {v : UInt32}

theorem slot_lt (hk : k < 1024) : (slotOffset k).toNat + Width.w32.byteCount < UInt64.size := by
  rw [toNat_slotOffset (Nat.le_of_lt hk)]
  simp only [slotStart, Width.byteCount, UInt64.size]
  omega

theorem slot_le (hb : HasSlots b) (hk : k < 1024) :
    (slotOffset k).toNat + Width.w32.byteCount ≤ b.size := by
  rw [toNat_slotOffset (Nat.le_of_lt hk)]
  simp only [HasSlots, slotStart, Width.byteCount] at hb ⊢
  omega

theorem slot_aligned (hk : k < 1024) :
    Width.Alignment.byteCount (Fin.last Width.w32.log2Bytes) ∣ (slotOffset k).toNat := by
  rw [toNat_slotOffset (Nat.le_of_lt hk), slotStart]
  show 4 ∣ 0x400 + 4 * k
  omega

theorem load_slot (hb : HasSlots b) (hk : k < 1024) :
    Access.load .w32 b (slotOffset k) = .ok (slotWord b k) := by
  rw [Access.load_eq, if_pos (slot_lt hk), if_pos (slot_le hb hk),
    toNat_slotOffset (Nat.le_of_lt hk)]
  rfl

theorem loadWord_slot (hb : HasSlots b) (hk : k < 1024) :
    loadWord b (slotOffset k) = .ok (slotWord b k) := by
  rw [loadWord, Access.loadAligned_eq, if_pos (slot_aligned hk), load_slot hb hk]

theorem outcome_storeWord_slot (hb : HasSlots b) (hk : k < 1024) :
    (storeWord (slotOffset k) v).outcome b = (.ok (), setSlot b k v) := by
  rw [storeWord, Access.outcome_storeAligned, if_pos (slot_aligned hk), Access.outcome_store,
    if_pos (slot_lt hk), if_pos (slot_le hb hk), toNat_slotOffset (Nat.le_of_lt hk), setSlot]

@[simp] theorem size_setSlot (b : Bytes) (k : Nat) (v : UInt32) :
    (setSlot b k v).size = b.size := Bytes.size_overwrite ..

theorem HasSlots.setSlot (hb : HasSlots b) : HasSlots (setSlot b k v) := by
  rwa [HasSlots, size_setSlot]

/-- A slot holds what was put there, and every other slot what it held. -/
theorem slotWord_setSlot (hb : HasSlots b) (hk : k < 1024) (hj : j < 1024) :
    slotWord (setSlot b k v) j = if j = k then v else slotWord b j := by
  have hload := load_slot (k := j) (hb.setSlot (k := k) (v := v)) hj
  rw [setSlot, ← toNat_slotOffset (Nat.le_of_lt hk)] at hload
  apply Except.ok.inj
  rw [setSlot, ← toNat_slotOffset (Nat.le_of_lt hk), ← hload]
  split
  · subst j
    exact Access.load_overwrite_self (slot_lt hk) (slot_le hb hk)
  · rename_i hne
    rw [Access.load_overwrite_of_disjoint (slot_le hb hk), load_slot hb hj]
    rw [toNat_slotOffset (Nat.le_of_lt hk), toNat_slotOffset (Nat.le_of_lt hj)]
    simp only [slotStart, Width.byteCount]
    omega

end Slots

/-! ## The view -/

/-- The first `m` slots as signed numbers. -/
def elements (m : Nat) (b : Bytes) : Array Int32 :=
  (Array.range m).map fun k => (slotWord b k).toInt32

@[simp] theorem size_elements (m : Nat) (b : Bytes) : (elements m b).size = m := by
  simp [elements]

@[simp] theorem getElem_elements (m : Nat) (b : Bytes) (k : Nat) (h : k < (elements m b).size) :
    (elements m b)[k] = (slotWord b k).toInt32 := by
  simp [elements]

@[simp] theorem elements_zero (b : Bytes) : elements 0 b = #[] :=
  Array.eq_empty_of_size_eq_zero (size_elements 0 b)

/-- Two neighbours that change places in the buffer change places in the
view. -/
theorem elements_swap {m j : Nat} {b : Bytes} (hb : HasSlots b) (hm : m ≤ 1024) (hj : j + 1 < m) :
    elements m (setSlot (setSlot b j (slotWord b (j + 1))) (j + 1) (slotWord b j)) =
      (elements m b).swap j (j + 1) (by simp; omega) (by simpa using hj) := by
  apply Array.ext
  · simp
  · intro k hk hk'
    have hk : k < m := by simpa using hk
    rw [getElem_elements, slotWord_setSlot hb.setSlot (by omega) (by omega),
      slotWord_setSlot hb (by omega) (by omega), Array.getElem_swap]
    split
    · simp [*]
    · split
      · simp [*]
      · simp [*]

/-- A slot more is an element more. -/
theorem elements_succ (m : Nat) (b : Bytes) :
    elements (m + 1) b = (elements m b).push (slotWord b m).toInt32 := by
  simp [elements, Array.range_succ]

theorem elements_setSlot_of_le {m k : Nat} {b : Bytes} {v : UInt32} (hb : HasSlots b)
    (hk : k < 1024) (hmk : m ≤ k) : elements m (setSlot b k v) = elements m b := by
  apply Array.ext
  · simp
  · intro j hj _
    have hj : j < m := by simpa using hj
    rw [getElem_elements, getElem_elements, slotWord_setSlot hb hk (by omega), if_neg (by omega)]

/-! ## What is left alone -/

/-- Nothing outside the first `m` slots is changed. -/
structure KeepsOutside (m : Nat) (b b' : Bytes) : Prop where
  size_eq : b'.size = b.size
  byteAt_eq : ∀ a, a < slotStart 0 ∨ slotStart m ≤ a → b'.byteAt a = b.byteAt a

namespace KeepsOutside

variable {m : Nat} {b b₁ b' : Bytes}

theorem refl (m : Nat) (b : Bytes) : KeepsOutside m b b := ⟨rfl, fun _ _ => rfl⟩

theorem trans (h : KeepsOutside m b b₁) (h' : KeepsOutside m b₁ b') : KeepsOutside m b b' where
  size_eq := h'.size_eq.trans h.size_eq
  byteAt_eq a ha := (h'.byteAt_eq a ha).trans (h.byteAt_eq a ha)

theorem setSlot {k : Nat} (hb : HasSlots b) (hk : k < m) (hm : m ≤ 1024) (v : UInt32) :
    KeepsOutside m b (setSlot b k v) where
  size_eq := size_setSlot b k v
  byteAt_eq := by
    intro a ha
    have hfit := slot_le hb (k := k) (by omega)
    rw [toNat_slotOffset (by omega)] at hfit
    rw [SortSum.setSlot, Access.byteAt_overwrite_toBytes hfit, if_neg]
    simp only [slotStart, Width.byteCount] at ha ⊢
    omega

theorem hasSlots (h : KeepsOutside m b b') (hb : HasSlots b) : HasSlots b' := by
  rwa [HasSlots, h.size_eq]

end KeepsOutside

end SortSum

end Guest

end PagedMemory
