/-
PagedMemory.Proofs.PlainSort — filling, sorting and summing without a
memory.

Sorting only exchanges elements (`sorted_perm`), and `wordSum` does not
depend on their order, so the sum of what was sorted is the sum of what was
generated.  `toNat_wordSum_generated` gives it in plain numbers, through the
recurrence `nextValue` of the generator.
-/
import PagedMemory.Guest.PlainSortSum
import Mathlib.Algebra.BigOperators.Group.Finset.Basic
import Mathlib.Data.List.Perm.Basic

namespace PagedMemory

namespace Guest

namespace PlainSortSum

/-! ## Order -/

theorem exchange_perm {j : UInt64} {xs ys : Array Int32} (h : exchange j xs = .ok ys) :
    ys.Perm xs := by
  obtain ⟨next, -, hswap⟩ := Fault.bind_eq_ok.mp h
  split at hswap
  · rw [← Except.ok.inj hswap]
    split
    · exact Array.swap_perm _ _
    · exact .refl xs
  · cases hswap

theorem sweep_perm {count : Nat} {j : UInt64} {xs ys : Array Int32}
    (h : sweep count j xs = .ok ys) : ys.Perm xs := by
  induction count generalizing j xs with
  | zero =>
    cases h
    exact .refl _
  | succ count ih =>
    obtain ⟨exchanged, hexchange, hrest⟩ := Fault.bind_eq_ok.mp h
    obtain ⟨next, -, hsweep⟩ := Fault.bind_eq_ok.mp hrest
    exact (ih hsweep).trans (exchange_perm hexchange)

theorem sweeps_perm {n i : UInt64} {rounds : Nat} {xs ys : Array Int32}
    (h : sweeps n rounds i xs = .ok ys) : ys.Perm xs := by
  induction rounds generalizing i xs with
  | zero =>
    cases h
    exact .refl _
  | succ rounds ih =>
    obtain ⟨last, -, h⟩ := Fault.bind_eq_ok.mp h
    obtain ⟨count, -, h⟩ := Fault.bind_eq_ok.mp h
    obtain ⟨swept, hsweep, h⟩ := Fault.bind_eq_ok.mp h
    obtain ⟨next, -, hrest⟩ := Fault.bind_eq_ok.mp h
    exact (ih hrest).trans (sweep_perm hsweep)

/-- Sorting rearranges the generated values. -/
theorem sorted_perm {n seed : UInt32} {xs : Array Int32} (h : sorted n seed = .ok xs) :
    xs.Perm (generated (min n SortSum.slots).toNat seed).toArray :=
  sweeps_perm h

/-! ## Sums -/

/-- The sum of signed numbers, as words. -/
def wordSum (xs : Array Int32) : UInt32 := xs.foldl (fun sum x => sum + x.toUInt32) 0

theorem wordSum_perm {xs ys : Array Int32} (h : xs.Perm ys) : wordSum xs = wordSum ys := by
  rw [wordSum, wordSum, ← Array.foldl_toList, ← Array.foldl_toList]
  refine h.toList.foldl_eq' (fun x _ y _ z => ?_) 0
  rw [UInt32.add_assoc, UInt32.add_comm x.toUInt32, ← UInt32.add_assoc]

theorem sortSum_eq {n seed : UInt32} {xs : Array Int32} (h : sorted n seed = .ok xs) :
    sortSum n seed = .ok (wordSum xs) := by
  simp [sortSum, h, wordSum, bind, Except.bind, pure, Except.pure]

/-! ## The generator in plain numbers -/

/-- The recurrence of the generator. -/
def nextValue (x : Nat) : Nat := (x * 1103515245 + 12345) % 2 ^ 32

theorem toNat_nextRandom (x : UInt32) : (SortSum.nextRandom x).toNat = nextValue x.toNat := by
  have hfactor : (1103515245 : UInt32).toNat = 1103515245 := rfl
  have hsummand : (12345 : UInt32).toNat = 12345 := rfl
  rw [SortSum.nextRandom, UInt32.toNat_add, UInt32.toNat_mul, hfactor, hsummand, nextValue,
    Nat.mod_add_mod]

open Finset in
/-- Adding the generated values to a sum. -/
theorem toNat_foldl_generated (count : Nat) (x sum : UInt32) :
    ((generated count x).foldl (fun sum y => sum + y.toUInt32) sum).toNat =
      (sum.toNat + ∑ k ∈ range count, nextValue^[k + 1] x.toNat) % 2 ^ 32 := by
  induction count generalizing x sum with
  | zero =>
    rw [range_zero, sum_empty, Nat.add_zero, Nat.mod_eq_of_lt sum.toNat_lt]
    rfl
  | succ count ih =>
    have hstep : ∀ k, nextValue^[k + 1] (nextValue x.toNat) = nextValue^[k + 1 + 1] x.toNat :=
      fun k => (Function.iterate_succ_apply nextValue (k + 1) x.toNat).symm
    have hfirst : nextValue^[0 + 1] x.toNat = nextValue x.toNat := by
      rw [Nat.zero_add, Function.iterate_one]
    rw [generated, List.foldl_cons, ih, sum_range_succ', UInt32.toUInt32_toInt32,
      UInt32.toNat_add, toNat_nextRandom, hfirst]
    simp only [hstep]
    rw [Nat.mod_add_mod, Nat.add_assoc, Nat.add_comm (nextValue x.toNat)]

open Finset in
theorem toNat_wordSum_generated (count : Nat) (seed : UInt32) :
    (wordSum (generated count seed).toArray).toNat =
      (∑ k ∈ range count, nextValue^[k + 1] seed.toNat) % 2 ^ 32 := by
  have hzero : (0 : UInt32).toNat = 0 := rfl
  rw [wordSum, List.foldl_toArray, toNat_foldl_generated, hzero, Nat.zero_add]

end PlainSortSum

end Guest

end PagedMemory
