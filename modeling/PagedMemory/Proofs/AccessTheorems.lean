/-
PagedMemory.Proofs.AccessTheorems — what word accesses answer and leave.

A window is granted or refused by its end alone (`window_eq`), so a load
and a store are granted or refused together (`load_eq`, `outcome_store`).
`load_of_le` and `byteAt_overwrite_toBytes` say byte by byte what they read
and write where they are granted.
`Call.run_cases` sums up every form of access: a store that is granted
overwrites exactly its window, and anything else leaves the bytes alone.
-/
import PagedMemory.Access
import PagedMemory.Proofs.RoutineTheorems
import PagedMemory.Proofs.WordTheorems

namespace PagedMemory

namespace Access

/-! ## Windows -/

theorem window_eq {size count : Nat} {offset : UInt64} (hcount : count < UInt64.size) :
    window size offset count =
      if offset.toNat + count < UInt64.size then
        if offset.toNat + count ≤ size then .ok offset.toNat else .error .outOfBounds
      else .error .overflow := by
  have hnat : (UInt64.ofNat count).toNat = count := UInt64.toNat_ofNat_of_lt hcount
  by_cases hsum : offset.toNat + count < UInt64.size
  · have hadd : Checked.add offset (UInt64.ofNat count) = .ok (offset + UInt64.ofNat count) :=
      Checked.add_eq_ok (by rwa [hnat])
    have hstop := Checked.toNat_of_add hadd
    rw [hnat] at hstop
    simp only [window, hadd, bind, Except.bind, hstop, if_pos hsum]
    rfl
  · have hadd : Checked.add offset (UInt64.ofNat count) = .error .overflow :=
      Checked.add_eq_error (by rw [hnat]; exact Nat.not_lt.mp hsum)
    simp only [window, hadd, bind, Except.bind, if_neg hsum]

/-! ## Loads and stores -/

theorem load_eq (w : Width) (b : Bytes) (offset : UInt64) :
    load w b offset =
      if offset.toNat + w.byteCount < UInt64.size then
        if offset.toNat + w.byteCount ≤ b.size then
          .ok (w.word (LittleEndian.decode (b.readFrom offset.toNat w.byteCount)))
        else .error .outOfBounds
      else .error .overflow := by
  simp only [load, window_eq w.byteCount_lt]
  split
  · split <;> rfl
  · rfl

theorem outcome_store (w : Width) (offset : UInt64) (v : Word w) (b : Bytes) :
    (store w offset v).outcome b =
      if offset.toNat + w.byteCount < UInt64.size then
        if offset.toNat + w.byteCount ≤ b.size then
          (.ok (), b.overwrite offset.toNat (w.toBytes v))
        else (.error .outOfBounds, b)
      else (.error .overflow, b) := by
  simp only [Routine.outcome, store, window_eq w.byteCount_lt]
  by_cases hsum : offset.toNat + w.byteCount < UInt64.size
  · by_cases hfit : offset.toNat + w.byteCount ≤ b.size
    · simp only [if_pos hsum, if_pos hfit]
    · simp only [if_pos hsum, if_neg hfit]
  · simp only [if_neg hsum]

open Finset in
/-- A word inside the bytes is the sum of its bytes, each at its own place. -/
theorem load_of_le {w : Width} {b : Bytes} {offset : UInt64}
    (hlt : offset.toNat + w.byteCount < UInt64.size)
    (hfit : offset.toNat + w.byteCount ≤ b.size) :
    ∃ v, load w b offset = .ok v ∧
      w.value v = ∑ k ∈ range w.byteCount, (b.byteAt (offset.toNat + k)).toNat * 256 ^ k := by
  refine ⟨w.word (LittleEndian.decode (b.readFrom offset.toNat w.byteCount)), ?_, ?_⟩
  · rw [load_eq, if_pos hlt, if_pos hfit]
  · have hvalue := LittleEndian.decode_lt (b.readFrom offset.toNat w.byteCount)
    rw [Bytes.length_readFrom, ← Width.two_pow_bitCount] at hvalue
    rw [Width.value_word, Nat.mod_eq_of_lt hvalue, LittleEndian.decode_eq_sum,
      Bytes.length_readFrom]
    refine sum_congr rfl fun k hk => ?_
    rw [Bytes.getD_readFrom _ _ (mem_range.mp hk)]

/-- A word put inside the bytes, byte by byte. -/
theorem byteAt_overwrite_toBytes {w : Width} {start : Nat} {v : Word w} {b : Bytes}
    (hfit : start + w.byteCount ≤ b.size) (i : Nat) :
    (b.overwrite start (w.toBytes v)).byteAt i =
      if start ≤ i ∧ i < start + w.byteCount then UInt8.ofNat (w.value v / 256 ^ (i - start))
      else b.byteAt i := by
  rw [Bytes.byteAt_overwrite _ _ _ _ (by rwa [Width.length_toBytes]), Width.length_toBytes,
    Width.getD_toBytes]
  split
  · rw [if_pos (by omega)]
  · rfl

/-! ## Promises -/

/-- A load with a promise is the load, unless the promise is broken. -/
theorem loadAligned_eq (w : Width) (a : w.Alignment) (b : Bytes) (offset : UInt64) :
    loadAligned w a b offset =
      if a.byteCount ∣ offset.toNat then load w b offset else .error .misaligned := by
  rw [loadAligned, checkAligned_eq]
  split <;> rfl

/-- A store with a promise is the store, unless the promise is broken. -/
theorem outcome_storeAligned (w : Width) (a : w.Alignment) (offset : UInt64) (v : Word w)
    (b : Bytes) :
    (storeAligned w a offset v).outcome b =
      if a.byteCount ∣ offset.toNat then (store w offset v).outcome b
      else (.error .misaligned, b) := by
  rw [storeAligned, Routine.outcome_bind, Routine.outcome_liftM, checkAligned_eq]
  by_cases halign : a.byteCount ∣ offset.toNat <;> simp [halign]

/-! ## Accesses as values -/

theorem outcome_store_cases (w : Width) (offset : UInt64) (v : Word w) (b : Bytes) :
    (∃ f, (store w offset v).outcome b = (.error f, b)) ∨
    (offset.toNat + w.byteCount ≤ b.size ∧
      (store w offset v).outcome b = (.ok (), b.overwrite offset.toNat (w.toBytes v))) := by
  rw [outcome_store]
  split
  · split
    · exact Or.inr ⟨‹_›, rfl⟩
    · exact Or.inl ⟨_, rfl⟩
  · exact Or.inl ⟨_, rfl⟩

/-- The bytes are left alone, by a store only if it is not granted; or a
store overwrites its window. -/
theorem Call.run_cases (c : Call) (b : Bytes) :
    ((c.run.outcome b).2 = b ∧
      ∀ w promise offset v, c = .store w promise offset v → ∃ f, (c.run.outcome b).1 = .error f) ∨
    (∃ w promise offset v, c = .store w promise offset v ∧
      offset.toNat + w.byteCount ≤ b.size ∧
      c.run.outcome b = (.ok .done, b.overwrite offset.toNat (w.toBytes v))) := by
  cases c with
  | load w promise offset =>
    refine Or.inl ⟨?_, fun _ _ _ _ h => by cases h⟩
    cases promise <;> simp [run, Routine.outcome_map, Routine.outcome_reading]
  | ofBytes w xs =>
    refine Or.inl ⟨?_, fun _ _ _ _ h => by cases h⟩
    simp [run, Routine.outcome_map, Routine.outcome_ofExcept]
  | writeOver w xs v =>
    refine Or.inl ⟨?_, fun _ _ _ _ h => by cases h⟩
    simp [run, Routine.outcome_map, Routine.outcome_ofExcept]
  | width w => exact Or.inl ⟨rfl, fun _ _ _ _ h => by cases h⟩
  | store w promise offset v =>
    have hplain := outcome_store_cases w offset v b
    have hrun : (∃ f, ((Call.store w promise offset v).run.outcome b) = (.error f, b)) ∨
        (offset.toNat + w.byteCount ≤ b.size ∧
          (Call.store w promise offset v).run.outcome b =
            (.ok .done, b.overwrite offset.toNat (w.toBytes v))) := by
      cases promise with
      | none =>
        rw [run, Routine.outcome_bind_pure]
        rcases hplain with ⟨f, hf⟩ | ⟨hfit, hok⟩
        · exact Or.inl ⟨f, by rw [hf]; rfl⟩
        · exact Or.inr ⟨hfit, by rw [hok]; rfl⟩
      | some a =>
        rw [run, Routine.outcome_bind_pure, outcome_storeAligned]
        split
        · rcases hplain with ⟨f, hf⟩ | ⟨hfit, hok⟩
          · exact Or.inl ⟨f, by rw [hf]; rfl⟩
          · exact Or.inr ⟨hfit, by rw [hok]; rfl⟩
        · exact Or.inl ⟨_, rfl⟩
    rcases hrun with ⟨f, hf⟩ | ⟨hfit, hok⟩
    · exact Or.inl ⟨by rw [hf], fun _ _ _ _ _ => ⟨f, by rw [hf]⟩⟩
    · exact Or.inr ⟨w, promise, offset, v, rfl, hfit, hok⟩

end Access

end PagedMemory
