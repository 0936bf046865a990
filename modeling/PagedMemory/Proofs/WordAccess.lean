/-
PagedMemory.Proofs.WordAccess — the whole law of word accesses, and what is
read after a write.

All forms of an access of one width do the same where their promises about
the offset hold: a promise is looked at first, then the end of the window
must be a 64-bit offset, and then it must not lie behind the last byte.
`Stored` says what a granted store leaves, byte by byte.  A load through any
form then answers what a store through any form has put there
(`load_overwrite_self`), and a word beside it is as it was
(`load_overwrite_of_disjoint`).
-/
import PagedMemory.Proofs.AccessTheorems

namespace PagedMemory

namespace Access

variable {w : Width} {b b' : Bytes} {offset : UInt64} {v : Word w}

/-! ## Loads after stores -/

/-- A load reads its window and the size, nothing else. -/
theorem load_congr (hsize : b'.size = b.size)
    (hbytes : ∀ k < w.byteCount, b'.byteAt (offset.toNat + k) = b.byteAt (offset.toNat + k)) :
    load w b' offset = load w b offset := by
  have hread := Bytes.readFrom_congr hbytes
  simp only [load_eq, hsize, hread]

/-- The bytes of a word that was put somewhere are read back. -/
theorem readFrom_overwrite_self (start : Nat) (xs : List UInt8) (hfit : start + xs.length ≤ b.size) :
    (b.overwrite start xs).readFrom start xs.length = xs := by
  apply List.ext_getElem
  · simp
  · intro k hk hk'
    rw [Bytes.getElem_readFrom, Bytes.byteAt_overwrite _ _ _ _ hfit, if_pos (by omega),
      Nat.add_sub_cancel_left, List.getD_eq_getElem?_getD, List.getElem?_eq_getElem hk',
      Option.getD_some]

theorem load_overwrite_self (hlt : offset.toNat + w.byteCount < UInt64.size)
    (hfit : offset.toNat + w.byteCount ≤ b.size) :
    load w (b.overwrite offset.toNat (w.toBytes v)) offset = .ok v := by
  have hread := readFrom_overwrite_self (b := b) offset.toNat (w.toBytes v) (by simpa using hfit)
  rw [Width.length_toBytes] at hread
  simp [load_eq, hlt, hfit, hread, Width.word_decode_toBytes]

/-- A word in another window is not touched. -/
theorem load_overwrite_of_disjoint {start : Nat} {w' : Width} {v' : Word w'}
    (hfit : start + w'.byteCount ≤ b.size)
    (hdisjoint : start + w'.byteCount ≤ offset.toNat ∨ offset.toNat + w.byteCount ≤ start) :
    load w (b.overwrite start (w'.toBytes v')) offset = load w b offset := by
  refine load_congr (Bytes.size_overwrite ..) fun k hk => ?_
  rw [byteAt_overwrite_toBytes hfit, if_neg (by omega)]

/-! ## What a store leaves -/

/-- The word `v` was put at `offset`, and nothing else was changed. -/
structure Stored (offset : UInt64) (v : Word w) (b b' : Bytes) : Prop where
  size_eq : b'.size = b.size
  /-- Byte `k` of the window holds byte `k` of the word. -/
  inside : ∀ k < w.byteCount,
    (b'.byteAt (offset.toNat + k)).toNat = (w.value v >>> (8 * k)) % 256
  outside : ∀ i, i < offset.toNat ∨ offset.toNat + w.byteCount ≤ i → b'.byteAt i = b.byteAt i

theorem stored_overwrite (hfit : offset.toNat + w.byteCount ≤ b.size) :
    Stored offset v b (b.overwrite offset.toNat (w.toBytes v)) where
  size_eq := Bytes.size_overwrite ..
  inside := by
    intro k hk
    rw [byteAt_overwrite_toBytes hfit, if_pos (by omega), Nat.add_sub_cancel_left,
      UInt8.toNat_ofNat', Nat.shiftRight_eq_div_pow, Nat.pow_mul]
  outside := by
    intro i hi
    rw [byteAt_overwrite_toBytes hfit, if_neg (by omega)]

/-! ## The whole law -/

/-- A load and a store of one form stop with the same fault, and the bytes
stay as they are. -/
structure Stops (b : Bytes) (f : Fault) (loaded : Except Fault (Word w))
    (stored : Except Fault Unit × Bytes) : Prop where
  load_eq : loaded = .error f
  store_eq : stored = (.error f, b)

open Finset in
/-- A load and a store of one form are granted. -/
structure Granted (offset : UInt64) (v : Word w) (b : Bytes) (loaded : Except Fault (Word w))
    (stored : Except Fault Unit × Bytes) : Prop where
  load_eq : ∃ x, loaded = .ok x ∧
    w.value x = ∑ k ∈ range w.byteCount, (b.byteAt (offset.toNat + k)).toNat * 256 ^ k
  store_eq : ∃ b', stored = (.ok (), b') ∧ Stored offset v b b'

theorem stops_of_overflow (h : UInt64.size ≤ offset.toNat + w.byteCount) :
    Stops b .overflow (load w b offset) ((store w offset v).outcome b) where
  load_eq := by rw [Access.load_eq, if_neg (Nat.not_lt.mpr h)]
  store_eq := by rw [outcome_store, if_neg (Nat.not_lt.mpr h)]

theorem stops_of_outOfBounds (hlt : offset.toNat + w.byteCount < UInt64.size)
    (h : b.size < offset.toNat + w.byteCount) :
    Stops b .outOfBounds (load w b offset) ((store w offset v).outcome b) where
  load_eq := by rw [Access.load_eq, if_pos hlt, if_neg (Nat.not_le.mpr h)]
  store_eq := by rw [outcome_store, if_pos hlt, if_neg (Nat.not_le.mpr h)]

theorem granted_of_le (hlt : offset.toNat + w.byteCount < UInt64.size)
    (hfit : offset.toNat + w.byteCount ≤ b.size) :
    Granted offset v b (load w b offset) ((store w offset v).outcome b) where
  load_eq := load_of_le hlt hfit
  store_eq := ⟨_, by rw [outcome_store, if_pos hlt, if_pos hfit], stored_overwrite hfit⟩

/-- A store that was granted is read back. -/
theorem load_of_outcome_store (h : (store w offset v).outcome b = (.ok (), b')) :
    load w b' offset = .ok v := by
  rw [outcome_store] at h
  split at h
  · split at h
    · cases h
      exact load_overwrite_self ‹_› ‹_›
    · cases h
  · cases h

/-- A word access of any form, at any offset of any bytes.  Without a promise
it stops if the end of its window is no 64-bit offset, otherwise if it lies
behind the last byte, and otherwise it is granted.  With a promise it stops
if the promise is broken, wherever the window lies, and otherwise it is the
access without one.  So what is stored through a form is the same for each,
and each loads it. -/
theorem word_access_law (w : Width) (b : Bytes) (offset : UInt64) (v : Word w) :
    (if 2 ^ 64 - 1 < offset.toNat + w.byteCount then
      Stops b .overflow (load w b offset) ((store w offset v).outcome b)
    else if b.size < offset.toNat + w.byteCount then
      Stops b .outOfBounds (load w b offset) ((store w offset v).outcome b)
    else Granted offset v b (load w b offset) ((store w offset v).outcome b)) ∧
    (∀ a : w.Alignment,
      if a.byteCount ∣ offset.toNat then
        loadAligned w a b offset = load w b offset ∧
          (storeAligned w a offset v).outcome b = (store w offset v).outcome b
      else Stops b .misaligned (loadAligned w a b offset) ((storeAligned w a offset v).outcome b)) ∧
    ∀ a a' : w.Alignment, a.byteCount ∣ offset.toNat → a'.byteCount ∣ offset.toNat →
      (storeAligned w a offset v).outcome b = (storeAligned w a' offset v).outcome b ∧
      ∀ b', (storeAligned w a offset v).outcome b = (.ok (), b') →
        loadAligned w a' b' offset = .ok v := by
  refine ⟨?_, fun a => ?_, fun a a' ha ha' => ⟨?_, fun b' hstore => ?_⟩⟩
  · have hmax : UInt64.size = 2 ^ 64 := rfl
    split
    · exact stops_of_overflow (by omega)
    · split
      · exact stops_of_outOfBounds (by omega) (by omega)
      · exact granted_of_le (by omega) (by omega)
  · rw [loadAligned_eq, outcome_storeAligned]
    split
    · exact ⟨rfl, rfl⟩
    · exact ⟨rfl, rfl⟩
  · rw [outcome_storeAligned, outcome_storeAligned, if_pos ha, if_pos ha']
  · rw [outcome_storeAligned, if_pos ha] at hstore
    rw [loadAligned_eq, if_pos ha', load_of_outcome_store hstore]

/-- Four bytes stored at address four of eight through the form that promises
nothing, and loaded through the one that promises all. -/
theorem word_access_law_at_four :
    ((0 : Width.w32.Alignment).byteCount ∣ (4 : UInt64).toNat ∧
      (2 : Width.w32.Alignment).byteCount ∣ (4 : UInt64).toNat) ∧
    ∃ b', (storeAligned .w32 0 4 (0xDEADBEEF : UInt32)).outcome (Bytes.replicate 8 0) =
        (.ok (), b') ∧
      Stored (w := .w32) 4 (0xDEADBEEF : UInt32) (Bytes.replicate 8 0) b' ∧
      loadAligned .w32 2 b' 4 = .ok (0xDEADBEEF : UInt32) := by
  have h₀ : (0 : Width.w32.Alignment).byteCount ∣ (4 : UInt64).toNat := by decide
  have h₂ : (2 : Width.w32.Alignment).byteCount ∣ (4 : UInt64).toNat := by decide
  obtain ⟨hplain, hpromise, hforms⟩ :=
    word_access_law .w32 (Bytes.replicate 8 0) 4 (0xDEADBEEF : UInt32)
  rw [if_neg (by decide), if_neg (by simp [Width.byteCount])] at hplain
  obtain ⟨b', hstore, hstored⟩ := hplain.store_eq
  have haligned := hpromise 0
  rw [if_pos h₀] at haligned
  exact ⟨⟨h₀, h₂⟩, b', haligned.2.trans hstore, hstored,
    (hforms 0 2 h₀ h₂).2 b' (haligned.2.trans hstore)⟩

end Access

end PagedMemory
