/-
PagedMemory.Proofs.CapacityPolicy — the capacity policy by the sequence that
it walks along.

  - `widening c i`       — element `i` of the sequence `c`, `c + c / 2 + 8`, ….
  - `FirstAtLeast r c i` — element `i` is the first that is at least `r`.

`reach` finds that element (`exists_firstAtLeast`), so what the policy
answers is the first element that covers the request, or the maximum if that
is less.  `capacity_policy` says so of the policy on words, and with it what
a caller may rely on: bounds, the order of two answers, and that a request
may be made in two steps.
-/
import PagedMemory.Proofs.CapacityTheorems

namespace PagedMemory

/-! ## The sequence -/

/-- Element `i` of the sequence of capacities from `c` on. -/
def widening (c : Nat) : Nat → Nat
  | 0 => c
  | i + 1 => widening c i + (widening c i / 2 + 8)

/-- The sequence from the second element on is the one that starts there. -/
theorem widening_succ (c i : Nat) : widening c (i + 1) = widening (c + (c / 2 + 8)) i := by
  induction i with
  | zero => rfl
  | succ i ih => rw [widening, ih, widening]

/-- Element `i` of the sequence is the first that is at least `required`. -/
structure FirstAtLeast (required c i : Nat) : Prop where
  le : required ≤ widening c i
  lt : ∀ j < i, widening c j < required

/-- A walk stops at the first element that covers the request. -/
theorem exists_firstAtLeast (required c : Nat) :
    ∃ i, FirstAtLeast required c i ∧ reach required c = widening c i := by
  fun_induction reach required c with
  | case1 c hlt ih =>
    obtain ⟨i, hfirst, hreach⟩ := ih
    refine ⟨i + 1, ⟨?_, ?_⟩, ?_⟩
    · rw [widening_succ]
      exact hfirst.le
    · intro j hj
      cases j with
      | zero => exact hlt
      | succ j =>
        rw [widening_succ]
        exact hfirst.lt j (by omega)
    · rw [hreach, widening_succ]
  | case2 c hge =>
    refine ⟨0, ⟨Nat.not_lt.mp hge, ?_⟩, rfl⟩
    intro j hj
    cases hj

/-! ## The order of answers -/

/-- A larger request is never answered with less. -/
theorem covering_mono {capacity r₁ r₂ max : UInt32} (h : r₁ ≤ r₂) :
    covering capacity r₁ max ≤ covering capacity r₂ max := by
  have hreach := reach_mono (UInt32.le_iff_toNat_le.mp h) capacity.toNat
  rw [UInt32.le_iff_toNat_le, toNat_covering, toNat_covering]
  omega

/-- A larger maximum never leads to less. -/
theorem covering_mono_max {capacity required m₁ m₂ : UInt32} (h : m₁ ≤ m₂) :
    covering capacity required m₁ ≤ covering capacity required m₂ := by
  rw [UInt32.le_iff_toNat_le] at h
  rw [UInt32.le_iff_toNat_le, toNat_covering, toNat_covering]
  omega

/-! ## The policy -/

/-- The policy always answers, so none of its steps overflows.  The answer is
the first element of the sequence that covers the request, or the maximum if
that is less.  It is no more than the maximum, no less than what is asked for
and what is there as far as these are allowed, and it never falls when the
request or the maximum rises.  A larger request may be made from the answer to
a smaller one, also if that was cut short by the maximum. -/
theorem capacity_policy (capacity required max : UInt32) :
    ∃ answer i, nextCapacity capacity required max = .ok answer ∧
      FirstAtLeast required.toNat capacity.toNat i ∧
      answer.toNat = min max.toNat (widening capacity.toNat i) ∧
      answer ≤ max ∧
      (required ≤ max → required ≤ answer) ∧
      (capacity ≤ max → capacity ≤ answer) ∧
      (∀ required', required ≤ required' →
        ∃ answer', nextCapacity capacity required' max = .ok answer' ∧ answer ≤ answer' ∧
          nextCapacity answer required' max = .ok answer') ∧
      (∀ max', max ≤ max' →
        ∃ answer', nextCapacity capacity required max' = .ok answer' ∧ answer ≤ answer') := by
  obtain ⟨i, hfirst, hreach⟩ := exists_firstAtLeast required.toNat capacity.toNat
  refine ⟨covering capacity required max, i, nextCapacity_eq _ _ _, hfirst, ?_, ?_, ?_, ?_, ?_, ?_⟩
  · rw [toNat_covering, hreach, Nat.min_comm]
  · exact UInt32.le_iff_toNat_le.mpr (covering_le capacity required max)
  · intro h
    exact UInt32.le_iff_toNat_le.mpr (le_covering (UInt32.le_iff_toNat_le.mp h))
  · intro h
    exact UInt32.le_iff_toNat_le.mpr (self_le_covering (UInt32.le_iff_toNat_le.mp h))
  · intro required' h
    refine ⟨_, nextCapacity_eq _ _ _, covering_mono h, ?_⟩
    rw [nextCapacity_eq, covering_covering (UInt32.le_iff_toNat_le.mp h)]
  · intro max' h
    exact ⟨_, nextCapacity_eq _ _ _, covering_mono_max h⟩

/-- From eight pages a request for nine leads to twenty, which sixteen cuts
short; a request for more than there can be then changes nothing, and with a
larger maximum there is more. -/
theorem capacity_policy_cut_short :
    ((9 : UInt32) ≤ 16 ∧ (8 : UInt32) ≤ 16 ∧ (9 : UInt32) ≤ 17 ∧ (16 : UInt32) ≤ 65536) ∧
    ∃ answer i, nextCapacity 8 9 16 = .ok answer ∧ FirstAtLeast 9 8 i ∧
      9 ≤ answer ∧ 8 ≤ answer ∧ answer ≤ 16 ∧
      (∃ answer', nextCapacity 8 17 16 = .ok answer' ∧ answer ≤ answer' ∧
        nextCapacity answer 17 16 = .ok answer') ∧
      ∃ answer', nextCapacity 8 9 65536 = .ok answer' ∧ answer ≤ answer' := by
  have hrequired : (9 : UInt32) ≤ 16 := by decide
  have hcapacity : (8 : UInt32) ≤ 16 := by decide
  have hlarger : (9 : UInt32) ≤ 17 := by decide
  have hroomier : (16 : UInt32) ≤ 65536 := by decide
  obtain ⟨answer, i, hanswer, hfirst, -, hmax, hcovers, hkeeps, hresumes, hrises⟩ :=
    capacity_policy 8 9 16
  exact ⟨⟨hrequired, hcapacity, hlarger, hroomier⟩, answer, i, hanswer, hfirst,
    hcovers hrequired, hkeeps hcapacity, hmax, hresumes 17 hlarger, hrises 65536 hroomier⟩

end PagedMemory
