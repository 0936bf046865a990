/-
PagedMemory.Proofs.CapacityTheorems — the capacity policy in closed form.

  - `reach r c`        — the first of `c`, `c + c / 2 + 8`, … that is at
                         least `r`, as plain numbers.
  - `covering c r m`   — the capacity that the policy answers;
                         `nextCapacity_eq` says that it always answers, so
                         its checked steps never overflow.

`reach_reach` is what everything about growth in pieces rests on: a walk
that stops at a smaller request and is resumed ends where the walk to the
larger request ends.  `covering_covering` carries it over to the capped
policy, also when the cap has cut the first walk short.
-/
import PagedMemory.Capacity

namespace PagedMemory

/-! ## Pages as numbers -/

@[simp] theorem toNat_pageCeiling : pageCeiling.toNat = 65536 := rfl

theorem toNat_min (a b : UInt32) : (min a b).toNat = min a.toNat b.toNat := by
  rw [show min a b = if a ≤ b then a else b from rfl]
  split
  · rename_i h
    rw [UInt32.le_iff_toNat_le] at h
    exact (Nat.min_eq_left h).symm
  · rename_i h
    rw [UInt32.le_iff_toNat_le] at h
    exact (Nat.min_eq_right (by omega)).symm

theorem pageBytes_eq_mul (n : UInt32) : pageBytes n = n.toNat * 65536 := Nat.mul_comm _ _

theorem pageBytes_mono {m n : UInt32} (h : m.toNat ≤ n.toNat) : pageBytes m ≤ pageBytes n :=
  pageBytes_le_iff.mpr (UInt32.le_iff_toNat_le.mpr h)

/-! ## The walk of the policy -/

/-- The first of `c`, `c + c / 2 + 8`, … that is at least `required`. -/
def reach (required c : Nat) : Nat :=
  if c < required then reach required (c + (c / 2 + 8)) else c
termination_by required - c

theorem reach_of_le {required c : Nat} (h : required ≤ c) : reach required c = c := by
  rw [reach, if_neg (Nat.not_lt.mpr h)]

theorem le_reach (required c : Nat) : required ≤ reach required c := by
  fun_induction reach required c with
  | case1 c _ ih => exact ih
  | case2 c h => exact Nat.not_lt.mp h

theorem self_le_reach (required c : Nat) : c ≤ reach required c := by
  fun_induction reach required c with
  | case1 c _ ih => omega
  | case2 c h => exact Nat.le_refl c

/-- A walk that stops half way and goes on ends where it would have ended. -/
theorem reach_reach {r₁ r₂ : Nat} (h : r₁ ≤ r₂) (c : Nat) :
    reach r₂ (reach r₁ c) = reach r₂ c := by
  fun_induction reach r₁ c with
  | case1 c hc ih =>
    rw [ih]
    conv => rhs; rw [reach, if_pos (Nat.lt_of_lt_of_le hc h)]
  | case2 c hc => rfl

theorem reach_mono {r₁ r₂ : Nat} (h : r₁ ≤ r₂) (c : Nat) : reach r₁ c ≤ reach r₂ c := by
  rw [← reach_reach h c]
  exact self_le_reach r₂ (reach r₁ c)

/-! ## The policy on words -/

/-- Towards a 32-bit request every step is exact: the walk on words is the
walk on numbers. -/
theorem widenUntil_eq (required capacity : UInt64) (h : required.toNat < UInt32.size) :
    ∃ reached, widenUntil required capacity = .ok reached ∧
      reached.toNat = reach required.toNat capacity.toNat := by
  fun_induction widenUntil required capacity with
  | case1 c hlt next hnext _ ih =>
    obtain ⟨reached, hok, hnat⟩ := ih
    refine ⟨reached, hok, ?_⟩
    conv => rhs; rw [reach, if_pos (UInt64.lt_iff_toNat_lt.mp hlt)]
    rw [hnat, toNat_of_widen hnext]
  | case2 c hlt f herror =>
    have hc : c.toNat < required.toNat := UInt64.lt_iff_toNat_lt.mp hlt
    rw [widen_eq_ok (Nat.lt_trans hc h)] at herror
    cases herror
  | case3 c hge =>
    refine ⟨c, rfl, (reach_of_le ?_).symm⟩
    exact Nat.not_lt.mp fun hlt => hge (UInt64.lt_iff_toNat_lt.mpr hlt)

/-- The capacity that the policy answers. -/
def covering (capacity required max : UInt32) : UInt32 :=
  UInt32.ofNat (min (reach required.toNat capacity.toNat) max.toNat)

@[simp] theorem toNat_covering (capacity required max : UInt32) :
    (covering capacity required max).toNat =
      min (reach required.toNat capacity.toNat) max.toNat := by
  have hmax := max.toNat_lt
  rw [covering, UInt32.toNat_ofNat', Nat.mod_eq_of_lt]
  exact Nat.lt_of_le_of_lt (Nat.min_le_right _ _) hmax

/-- The policy always answers: none of its steps overflows. -/
theorem nextCapacity_eq (capacity required max : UInt32) :
    nextCapacity capacity required max = .ok (covering capacity required max) := by
  obtain ⟨reached, hok, hnat⟩ :=
    widenUntil_eq required.toUInt64 capacity.toUInt64 required.toNat_lt_size
  rw [UInt32.toNat_toUInt64, UInt32.toNat_toUInt64] at hnat
  have hmax := max.toNat_lt
  simp only [nextCapacity, hok, bind, Except.bind, pure, Except.pure, Except.ok.injEq]
  apply UInt32.toNat_inj.mp
  rw [toNat_covering, ← hnat]
  split
  · rename_i h
    have hlt : max.toNat < reached.toNat := by simpa using UInt64.lt_iff_toNat_lt.mp h
    exact (Nat.min_eq_right (Nat.le_of_lt hlt)).symm
  · rename_i h
    have hle : reached.toNat ≤ max.toNat := by
      refine Nat.not_lt.mp fun hlt => h (UInt64.lt_iff_toNat_lt.mpr ?_)
      simpa using hlt
    rw [UInt64.toNat_toUInt32, Nat.mod_eq_of_lt (by omega), Nat.min_eq_left hle]

theorem covering_le (capacity required max : UInt32) :
    (covering capacity required max).toNat ≤ max.toNat := by
  rw [toNat_covering]
  exact Nat.min_le_right _ _

/-- A request that is allowed at all is covered. -/
theorem le_covering {capacity required max : UInt32} (h : required.toNat ≤ max.toNat) :
    required.toNat ≤ (covering capacity required max).toNat := by
  rw [toNat_covering]
  exact Nat.le_min.mpr ⟨le_reach _ _, h⟩

/-- The policy never gives reserved pages back. -/
theorem self_le_covering {capacity required max : UInt32} (h : capacity.toNat ≤ max.toNat) :
    capacity.toNat ≤ (covering capacity required max).toNat := by
  rw [toNat_covering]
  exact Nat.le_min.mpr ⟨self_le_reach _ _, h⟩

/-- A capacity that is large enough and allowed is kept. -/
theorem covering_of_le {capacity required max : UInt32} (h : required.toNat ≤ capacity.toNat)
    (hmax : capacity.toNat ≤ max.toNat) : covering capacity required max = capacity := by
  apply UInt32.toNat_inj.mp
  rw [toNat_covering, reach_of_le h, Nat.min_eq_left hmax]

/-- The policy may be asked for a smaller request first. -/
theorem covering_covering {capacity r₁ r₂ max : UInt32} (h : r₁.toNat ≤ r₂.toNat) :
    covering (covering capacity r₁ max) r₂ max = covering capacity r₂ max := by
  apply UInt32.toNat_inj.mp
  simp only [toNat_covering]
  by_cases hcap : reach r₁.toNat capacity.toNat ≤ max.toNat
  · rw [Nat.min_eq_left hcap, reach_reach h]
  · -- the cap has cut the first walk short, so it cuts the longer one too
    have hself := self_le_reach r₂.toNat max.toNat
    have hmono := reach_mono h capacity.toNat
    rw [Nat.min_eq_right (Nat.le_of_not_le hcap)]
    omega

end PagedMemory
