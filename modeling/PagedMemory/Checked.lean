/-
PagedMemory.Checked — arithmetic on machine words that stops instead of
wrapping.

`Checked.add`, `Checked.sub` and `Checked.mul` answer the exact result when
the word can hold it and the fault `overflow` when it cannot.  Sums that
are meant to wrap use the words' own `+`, `-` and `*`.

`MachineWord` is what the widths have in common: as long as a result fits,
the wrapping operations are exact in `Nat`.  The lemmas on the checked
operations, when they answer and with what, rest on this alone.
-/
import PagedMemory.Routine

namespace PagedMemory

/-- Words that stand for the numbers below `size`, with operations that are
exact where their results fit. -/
class MachineWord (α : Type) [Add α] [Sub α] [Mul α] [OfNat α 1] (toNat : outParam (α → Nat))
    (size : outParam Nat) : Prop where
  toNat_one : toNat 1 = 1
  toNat_add : ∀ {a b : α}, toNat a + toNat b < size → toNat (a + b) = toNat a + toNat b
  toNat_sub : ∀ {a b : α}, toNat b ≤ toNat a → toNat (a - b) = toNat a - toNat b
  toNat_mul : ∀ {a b : α}, toNat a * toNat b < size → toNat (a * b) = toNat a * toNat b

instance : MachineWord UInt32 UInt32.toNat UInt32.size where
  toNat_one := rfl
  toNat_add := fun hfits => by rw [UInt32.toNat_add, Nat.mod_eq_of_lt hfits]
  toNat_sub := fun hle => UInt32.toNat_sub_of_le _ _ (UInt32.le_iff_toNat_le.mpr hle)
  toNat_mul := fun hfits => by rw [UInt32.toNat_mul, Nat.mod_eq_of_lt hfits]

instance : MachineWord UInt64 UInt64.toNat UInt64.size where
  toNat_one := rfl
  toNat_add := fun hfits => by rw [UInt64.toNat_add, Nat.mod_eq_of_lt hfits]
  toNat_sub := fun hle => UInt64.toNat_sub_of_le _ _ (UInt64.le_iff_toNat_le.mpr hle)
  toNat_mul := fun hfits => by rw [UInt64.toNat_mul, Nat.mod_eq_of_lt hfits]

namespace Checked

variable {α : Type} [Add α] [Sub α] [Mul α] [OfNat α 1] {toNat : α → Nat} {size : Nat}

/-- The exact sum. -/
@[inline] def add [MachineWord α toNat size] (a b : α) : Except Fault α :=
  if toNat a + toNat b < size then .ok (a + b) else .error .overflow

/-- The exact difference. -/
@[inline] def sub [MachineWord α toNat size] (a b : α) : Except Fault α :=
  if toNat b ≤ toNat a then .ok (a - b) else .error .overflow

/-- The exact product. -/
@[inline] def mul [MachineWord α toNat size] (a b : α) : Except Fault α :=
  if toNat a * toNat b < size then .ok (a * b) else .error .overflow

variable [MachineWord α toNat size] {a b c : α}

/-! ## Sums -/

theorem add_eq_ok (h : toNat a + toNat b < size) : add a b = .ok (a + b) := if_pos h

theorem add_eq_error (h : size ≤ toNat a + toNat b) : add a b = .error .overflow :=
  if_neg (Nat.not_lt.mpr h)

theorem toNat_of_add (h : add a b = .ok c) : toNat c = toNat a + toNat b := by
  by_cases hfits : toNat a + toNat b < size
  · rw [add_eq_ok hfits] at h
    cases h
    exact MachineWord.toNat_add hfits
  · rw [add_eq_error (Nat.not_lt.mp hfits)] at h
    cases h

/-- A sum that fits its word. -/
theorem exists_add (h : toNat a + toNat b < size) :
    ∃ c, add a b = .ok c ∧ toNat c = toNat a + toNat b :=
  ⟨_, add_eq_ok h, toNat_of_add (add_eq_ok h)⟩

/-- A counter that is not at its end counts on. -/
theorem next_eq_ok (h : toNat a + 1 < size) : add a 1 = .ok (a + 1) := by
  have hone : toNat (1 : α) = 1 := MachineWord.toNat_one
  exact add_eq_ok (by rwa [hone])

theorem toNat_next (h : toNat a + 1 < size) : toNat (a + 1) = toNat a + 1 := by
  have hone : toNat (1 : α) = 1 := MachineWord.toNat_one
  rw [toNat_of_add (next_eq_ok h), hone]

/-! ## Differences -/

theorem sub_eq_ok (h : toNat b ≤ toNat a) : sub a b = .ok (a - b) := if_pos h

theorem toNat_of_sub (h : sub a b = .ok c) : toNat c = toNat a - toNat b := by
  by_cases hle : toNat b ≤ toNat a
  · rw [sub_eq_ok hle] at h
    cases h
    exact MachineWord.toNat_sub hle
  · rw [sub, if_neg hle] at h
    cases h

/-- A difference that is not negative. -/
theorem exists_sub (h : toNat b ≤ toNat a) :
    ∃ c, sub a b = .ok c ∧ toNat c = toNat a - toNat b :=
  ⟨_, sub_eq_ok h, toNat_of_sub (sub_eq_ok h)⟩

/-! ## Products -/

theorem mul_eq_ok (h : toNat a * toNat b < size) : mul a b = .ok (a * b) := if_pos h

theorem toNat_of_mul (h : mul a b = .ok c) : toNat c = toNat a * toNat b := by
  by_cases hfits : toNat a * toNat b < size
  · rw [mul_eq_ok hfits] at h
    cases h
    exact MachineWord.toNat_mul hfits
  · rw [mul, if_neg hfits] at h
    cases h

end Checked

end PagedMemory
