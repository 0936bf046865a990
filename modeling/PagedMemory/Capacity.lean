/-
PagedMemory.Capacity — pages, and how many of them to keep in reserve.

  - `pageSize`, `pageCeiling`  — the size of a page and the largest number
                                 of pages that a 32-bit address can reach.
  - `pageBytes n`              — the size of `n` pages in bytes.
  - `nextCapacity c r m`       — the capacity policy: from `c` pages on, a
                                 half and eight more a step until `r` pages
                                 are covered, and then no more than `m`.

The steps are taken in 64-bit words and checked, so that an answer also
says that none of them overflowed.
-/
import PagedMemory.Checked

namespace PagedMemory

/-! ## Pages -/

/-- The size of a page in bytes. -/
def pageSize : Nat := 65536

/-- The largest number of pages: all of a 32-bit address space. -/
def pageCeiling : UInt32 := 65536

/-- The size of `n` pages in bytes.  A plain number stands for the 64-bit
product: it fits that word whatever `n` is (`pageBytes_lt`), so a check of
the product would never fail. -/
def pageBytes (n : UInt32) : Nat := pageSize * n.toNat

/-- The size of any number of pages fits a 64-bit offset. -/
theorem pageBytes_lt (n : UInt32) : pageBytes n < UInt64.size := by
  have hn := n.toNat_lt
  simp only [pageBytes, pageSize, UInt64.size]
  omega

/-- Sizes in bytes are ordered as the page counts are. -/
theorem pageBytes_le_iff {m n : UInt32} : pageBytes m ≤ pageBytes n ↔ m ≤ n := by
  rw [UInt32.le_iff_toNat_le, pageBytes, pageBytes, pageSize]
  omega

/-! ## The capacity policy -/

/-- One step of the policy: a half and eight more. -/
def widen (capacity : UInt64) : Except Fault UInt64 := do
  let step ← Checked.add (capacity / 2) 8
  Checked.add capacity step

/-- A step leads to exactly `c + c / 2 + 8`. -/
theorem toNat_of_widen {c next : UInt64} (h : widen c = .ok next) :
    next.toNat = c.toNat + (c.toNat / 2 + 8) := by
  simp only [widen] at h
  cases hstep : (Checked.add (c / 2) 8 : Except Fault UInt64) with
  | error f => rw [hstep] at h; cases h
  | ok step =>
    rw [hstep] at h
    rw [Checked.toNat_of_add h, Checked.toNat_of_add hstep]
    rfl

/-- Steps of the policy until `required` pages are covered. -/
def widenUntil (required capacity : UInt64) : Except Fault UInt64 :=
  if below : capacity < required then
    match h : widen capacity with
    | .ok next =>
      have : required.toNat - next.toNat < required.toNat - capacity.toNat := by
        have hnext := toNat_of_widen h
        have hbelow : capacity.toNat < required.toNat := UInt64.lt_iff_toNat_lt.1 below
        omega
      widenUntil required next
    | .error f => .error f
  else .ok capacity
termination_by required.toNat - capacity.toNat

/-- The capacity to reserve when `required` pages are needed and `capacity`
pages are reserved now; never more than `max`. -/
def nextCapacity (capacity required max : UInt32) : Except Fault UInt32 := do
  let reached ← widenUntil required.toUInt64 capacity.toUInt64
  return if reached > max.toUInt64 then max else reached.toUInt32

/-- Below 32 bits a step never overflows. -/
theorem widen_eq_ok {c : UInt64} (h : c.toNat < UInt32.size) :
    widen c = .ok (c + (c / 2 + 8)) := by
  simp only [UInt32.size] at h
  have hhalf : (c / 2).toNat = c.toNat / 2 := rfl
  have hstep : (Checked.add (c / 2) 8 : Except Fault UInt64) = .ok (c / 2 + 8) :=
    Checked.add_eq_ok (by rw [hhalf]; simp only [UInt64.size]; change c.toNat / 2 + 8 < _; omega)
  have hsum := Checked.toNat_of_add hstep
  rw [hhalf] at hsum
  change _ = c.toNat / 2 + 8 at hsum
  simp only [widen, hstep, bind, Except.bind]
  exact Checked.add_eq_ok (by rw [hsum]; simp only [UInt64.size]; omega)

end PagedMemory
