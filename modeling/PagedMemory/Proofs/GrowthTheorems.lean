/-
PagedMemory.Proofs.GrowthTheorems — what a growth answers and leaves, for
any counts, bytes and allocation, also where the owner of a memory has not
kept as many bytes as pages.

`Backing.tryGrow_eq` says it once: a growth is refused at the ceiling
(`Fits` fails), or refused by the allocator (`HasRoom` fails), or leaves
`Backing.grown`.  The lemmas after it describe `grown` through its counts,
its size, its allocation and its bytes; nothing later opens `tryGrow`.

`growRequests` are the sizes that a growth asks the allocator for.  They
are read off `tryGrowAsking`, which is `tryGrow` with a record of every
request, as `outcome_tryGrowAsking` says.

`grow_complete_law` is the whole law of `Backing.grow` in one statement.
-/
import PagedMemory.Backing.Basic
import PagedMemory.Proofs.CapacityTheorems
import PagedMemory.Proofs.RoutineTheorems

namespace PagedMemory

/-- What a storage asks the allocator for when it needs room for `size`
bytes. -/
def Storage.requests (size : Nat) (s : Storage) : List Nat :=
  if size ≤ s.allocation then [] else [size]

/-! ## The plan -/

/-- The capacity after a growth that fits under the ceiling. -/
def targetCapacity (pages capacity delta max : UInt32) : UInt32 :=
  if capacity < pages + delta then covering capacity (pages + delta) (min max pageCeiling)
  else capacity

namespace GrowPlan

variable {pages capacity delta max : UInt32}

/-- The pages asked for never overflow a 64-bit word. -/
theorem add_requested (pages delta : UInt32) :
    (Checked.add pages.toUInt64 delta.toUInt64 : Except Fault UInt64) =
      .ok (pages.toUInt64 + delta.toUInt64) := by
  have hp := pages.toNat_lt
  have hd := delta.toNat_lt
  apply Checked.add_eq_ok
  rw [UInt32.toNat_toUInt64, UInt32.toNat_toUInt64, UInt64.size]
  omega

theorem toNat_requested (pages delta : UInt32) :
    (pages.toUInt64 + delta.toUInt64).toNat = pages.toNat + delta.toNat := by
  rw [Checked.toNat_of_add (add_requested pages delta), UInt32.toNat_toUInt64,
    UInt32.toNat_toUInt64]

/-- A request beyond the ceiling is refused by the counts alone. -/
theorem make_of_exceeds (h : (min max pageCeiling).toNat < pages.toNat + delta.toNat) :
    make pages capacity delta max =
      .ok (.error (.exceedsCeiling (pages.toUInt64 + delta.toUInt64) (min max pageCeiling))) := by
  have hgt : pages.toUInt64 + delta.toUInt64 > (min max pageCeiling).toUInt64 := by
    rw [gt_iff_lt, UInt64.lt_iff_toNat_lt, toNat_requested, UInt32.toNat_toUInt64]
    exact h
  simp only [make, add_requested, bind, Except.bind, if_pos hgt]
  rfl

/-- Pages under the ceiling are counted exactly. -/
theorem toNat_add_of_fits (h : pages.toNat + delta.toNat ≤ (min max pageCeiling).toNat) :
    (pages + delta).toNat = pages.toNat + delta.toNat := by
  rw [toNat_min, toNat_pageCeiling] at h
  rw [UInt32.toNat_add, Nat.mod_eq_of_lt (by omega)]

/-- Any other request has a plan. -/
theorem make_of_fits (h : pages.toNat + delta.toNat ≤ (min max pageCeiling).toNat) :
    make pages capacity delta max =
      .ok (.ok ⟨pages + delta, targetCapacity pages capacity delta max⟩) := by
  have hle : ¬pages.toUInt64 + delta.toUInt64 > (min max pageCeiling).toUInt64 := by
    rw [gt_iff_lt, UInt64.lt_iff_toNat_lt, toNat_requested, UInt32.toNat_toUInt64]
    exact Nat.not_lt.mpr h
  have hpages : (pages.toUInt64 + delta.toUInt64).toUInt32 = pages + delta := by
    apply UInt32.toNat_inj.mp
    rw [UInt64.toNat_toUInt32, toNat_requested, UInt32.toNat_add]
  simp only [make, add_requested, bind, Except.bind, if_neg hle, hpages, targetCapacity]
  by_cases hlt : capacity < pages + delta
  · simp only [if_pos hlt, nextCapacity_eq]
    rfl
  · simp only [if_neg hlt]
    rfl

end GrowPlan

section Target

variable {pages capacity delta max : UInt32}

theorem targetCapacity_of_lt (h : capacity < pages + delta) :
    targetCapacity pages capacity delta max =
      covering capacity (pages + delta) (min max pageCeiling) := if_pos h

theorem targetCapacity_of_not_lt (h : ¬capacity < pages + delta) :
    targetCapacity pages capacity delta max = capacity := if_neg h

/-- The new capacity covers the new pages. -/
theorem le_targetCapacity (h : pages.toNat + delta.toNat ≤ (min max pageCeiling).toNat) :
    pages.toNat + delta.toNat ≤ (targetCapacity pages capacity delta max).toNat := by
  have hadd := GrowPlan.toNat_add_of_fits h
  rw [← hadd] at h ⊢
  rw [targetCapacity]
  split
  · exact le_covering h
  · rename_i hge
    exact Nat.not_lt.mp fun hlt => hge (UInt32.lt_iff_toNat_lt.mpr hlt)

/-- A growth never gives reserved pages back. -/
theorem capacity_le_targetCapacity
    (h : pages.toNat + delta.toNat ≤ (min max pageCeiling).toNat) :
    capacity.toNat ≤ (targetCapacity pages capacity delta max).toNat := by
  rw [targetCapacity]
  split
  · rename_i hlt
    rw [UInt32.lt_iff_toNat_lt, GrowPlan.toNat_add_of_fits h] at hlt
    exact self_le_covering (by omega)
  · exact Nat.le_refl _

/-- A growth never reserves more than the ceiling by itself. -/
theorem targetCapacity_le {bound : Nat} (hcapacity : capacity.toNat ≤ bound)
    (hmax : (min max pageCeiling).toNat ≤ bound) :
    (targetCapacity pages capacity delta max).toNat ≤ bound := by
  rw [targetCapacity]
  split
  · exact Nat.le_trans (covering_le _ _ _) hmax
  · exact hcapacity

end Target

namespace Backing

/-! ## What a growth comes to -/

/-- The new pages do not exceed the ceiling. -/
def Fits (delta max : UInt32) (b : Backing) : Prop :=
  b.pages.toNat + delta.toNat ≤ (min max pageCeiling).toNat

/-- The capacity after a growth that fits. -/
def target (delta max : UInt32) (b : Backing) : UInt32 :=
  targetCapacity b.pages b.capacity delta max

/-- The allocation holds the capacity already, or the allocator grants it. -/
def HasRoom (limit : Nat) (delta max : UInt32) (b : Backing) : Prop :=
  pageBytes (b.target delta max) ≤ b.storage.allocation ∨ pageBytes (b.target delta max) ≤ limit

instance (delta max : UInt32) (b : Backing) : Decidable (b.Fits delta max) :=
  inferInstanceAs (Decidable (_ ≤ _))

instance (limit : Nat) (delta max : UInt32) (b : Backing) : Decidable (b.HasRoom limit delta max) :=
  inferInstanceAs (Decidable (_ ∨ _))

/-- The memory after a growth that is not refused. -/
def grown (delta max : UInt32) (b : Backing) : Backing :=
  commit ⟨b.pages + delta, b.target delta max⟩
    ⟨b.storage.bytes, Nat.max b.storage.allocation (pageBytes (b.target delta max))⟩ b

theorem hasRoom_iff {limit : Nat} {delta max : UInt32} {b : Backing} :
    b.HasRoom limit delta max ↔
      b.storage.reserve limit (pageBytes (b.target delta max)) ≠ none := by
  rw [Ne, Storage.reserve_eq_none_iff, HasRoom]
  omega

/-- Room for the new capacity is found exactly when the allocation has it
or the allocator grants it, and then nothing else about the storage
changes. -/
theorem reserve_target (limit : Nat) (delta max : UInt32) (b : Backing) :
    b.storage.reserve limit (pageBytes (b.target delta max)) =
      if b.HasRoom limit delta max then
        some ⟨b.storage.bytes, Nat.max b.storage.allocation (pageBytes (b.target delta max))⟩
      else none := by
  cases hreserve : b.storage.reserve limit (pageBytes (b.target delta max)) with
  | none => exact (if_neg fun hroom => hasRoom_iff.mp hroom hreserve).symm
  | some roomy =>
    have hroom : b.HasRoom limit delta max := by
      rw [hasRoom_iff, hreserve]
      exact Option.some_ne_none roomy
    obtain ⟨bytes, allocation⟩ := roomy
    obtain ⟨rfl, rfl⟩ := Storage.reserve_eq_some hreserve
    exact (if_pos hroom).symm

/-- A plan that is refused ends the growth. -/
theorem tryGrow_of_make_error {limit : Nat} {delta max : UInt32} {b : Backing} {e : GrowError}
    (h : GrowPlan.make b.pages b.capacity delta max = .ok (.error e)) :
    tryGrow limit delta max b = .ok (.error e) b :=
  (Routine.bind_of_ok rfl).trans (Routine.bind_of_ok (Routine.liftM_of_ok h b))

/-- A plan is carried out when there is room for it. -/
theorem tryGrow_of_make_ok {limit : Nat} {delta max : UInt32} {b : Backing} {plan : GrowPlan}
    (h : GrowPlan.make b.pages b.capacity delta max = .ok (.ok plan)) :
    tryGrow limit delta max b =
      match b.storage.reserve limit (pageBytes plan.capacity) with
      | none => .ok (.error (.outOfMemory plan.capacity)) b
      | some roomy => .ok (.ok b.pages) (commit plan roomy b) := by
  have hlift := Routine.liftM_of_ok h b
  refine (Routine.bind_of_ok rfl).trans ((Routine.bind_of_ok hlift).trans ?_)
  cases hr : b.storage.reserve limit (pageBytes plan.capacity) <;> simp only [hr] <;> rfl

/-- Everything that a growth can do. -/
theorem tryGrow_eq (limit : Nat) (delta max : UInt32) (b : Backing) :
    tryGrow limit delta max b =
      if b.Fits delta max then
        if b.HasRoom limit delta max then .ok (.ok b.pages) (b.grown delta max)
        else .ok (.error (.outOfMemory (b.target delta max))) b
      else
        .ok (.error (.exceedsCeiling (b.pages.toUInt64 + delta.toUInt64) (min max pageCeiling)))
          b := by
  by_cases hfits : b.Fits delta max
  · rw [if_pos hfits, tryGrow_of_make_ok (GrowPlan.make_of_fits hfits)]
    have hreserve := reserve_target limit delta max b
    rw [target] at hreserve
    simp only [hreserve]
    by_cases hroom : b.HasRoom limit delta max
    · rw [if_pos hroom, if_pos hroom]
      rfl
    · rw [if_neg hroom, if_neg hroom]
      rfl
  · rw [if_neg hfits]
    exact tryGrow_of_make_error (GrowPlan.make_of_exceeds (Nat.not_le.mp hfits))

/-- A growth is refused at the ceiling, or refused by the allocator, or
granted. -/
theorem tryGrow_cases (limit : Nat) (delta max : UInt32) (b : Backing) :
    (¬b.Fits delta max ∧ tryGrow limit delta max b = .ok (.error (.exceedsCeiling
      (b.pages.toUInt64 + delta.toUInt64) (min max pageCeiling))) b) ∨
    (b.Fits delta max ∧ ¬b.HasRoom limit delta max ∧
      tryGrow limit delta max b = .ok (.error (.outOfMemory (b.target delta max))) b) ∨
    (b.Fits delta max ∧ b.HasRoom limit delta max ∧
      tryGrow limit delta max b = .ok (.ok b.pages) (b.grown delta max)) := by
  have htry := tryGrow_eq limit delta max b
  split at htry
  · split at htry
    · exact Or.inr (Or.inr ⟨‹_›, ‹_›, htry⟩)
    · exact Or.inr (Or.inl ⟨‹_›, ‹_›, htry⟩)
  · exact Or.inl ⟨‹_›, htry⟩

/-! ## The memory after a growth -/

section Grown

variable {limit : Nat} {delta max : UInt32} {b : Backing}

@[simp] theorem pages_grown : (b.grown delta max).pages = b.pages + delta := rfl

@[simp] theorem capacity_grown : (b.grown delta max).capacity = b.target delta max := rfl

theorem toNat_pages_grown (h : b.Fits delta max) :
    (b.grown delta max).pages.toNat = b.pages.toNat + delta.toNat :=
  GrowPlan.toNat_add_of_fits h

theorem pages_le_target (h : b.Fits delta max) :
    b.pages.toNat + delta.toNat ≤ (b.target delta max).toNat :=
  le_targetCapacity h

theorem size_grown (h : b.Fits delta max) :
    (b.grown delta max).storage.bytes.size = pageSize * (b.pages.toNat + delta.toNat) := by
  rw [← GrowPlan.toNat_add_of_fits h]
  exact Storage.size_resize _ _

/-- The reservation already has room for all new pages, so committing them
leaves the allocation alone. -/
theorem allocation_grown (h : b.Fits delta max) :
    (b.grown delta max).storage.allocation =
      Nat.max b.storage.allocation (pageBytes (b.target delta max)) := by
  have hpages : pageBytes (b.pages + delta) ≤ pageBytes (b.target delta max) := by
    apply pageBytes_mono
    rw [GrowPlan.toNat_add_of_fits h]
    exact pages_le_target h
  exact Nat.max_eq_left (Nat.le_trans hpages (Nat.le_max_right _ _))

/-- Committed bytes stay and everything behind them is zero, also bytes
that the owner had left behind the committed pages. -/
theorem byteAt_grown (h : b.Fits delta max) (i : Nat) :
    (b.grown delta max).storage.bytes.byteAt i =
      if i < Nat.min b.storage.bytes.size (pageBytes b.pages) then b.storage.bytes.byteAt i
      else 0 := by
  have hpages : pageBytes b.pages ≤ pageBytes (b.pages + delta) := by
    apply pageBytes_mono
    rw [GrowPlan.toNat_add_of_fits h]
    exact Nat.le_add_right _ _
  have hresize : (b.grown delta max).storage.bytes.byteAt i =
      if i < pageBytes (b.pages + delta) then
        (b.storage.bytes.truncate (pageBytes b.pages)).byteAt i
      else 0 := Storage.byteAt_resize _ _ _
  rw [hresize, Bytes.byteAt_truncate]
  by_cases hcommitted : i < pageBytes b.pages
  · rw [if_pos (Nat.lt_of_lt_of_le hcommitted hpages), if_pos hcommitted]
    by_cases hheld : i < b.storage.bytes.size
    · rw [if_pos (Nat.lt_min.mpr ⟨hheld, hcommitted⟩)]
    · rw [if_neg fun hlt => hheld (Nat.lt_min.mp hlt).1]
      exact Bytes.byteAt_of_le (Nat.not_lt.mp hheld)
  · rw [if_neg hcommitted, if_neg fun hlt => hcommitted (Nat.lt_min.mp hlt).2, ite_self]

end Grown

/-! ## Requests to the allocator -/

/-- `tryGrow` with a record of the sizes that the allocator is asked for,
by the reservation and by the change of size after it. -/
def tryGrowAsking (limit : Nat) (delta max : UInt32) :
    Routine (Backing × List Nat) (Except GrowError UInt32) := do
  let (b, asked) ← get
  match ← GrowPlan.make b.pages b.capacity delta max with
  | .error refusal => return .error refusal
  | .ok plan =>
    let reserving := b.storage.requests (pageBytes plan.capacity)
    match b.storage.reserve limit (pageBytes plan.capacity) with
    | none =>
      set (b, asked ++ reserving)
      return .error (.outOfMemory plan.capacity)
    | some roomy =>
      let resizing := (roomy.truncate (pageBytes b.pages)).requests (pageBytes plan.pages)
      set (commit plan roomy b, asked ++ reserving ++ resizing)
      return .ok b.pages

/-- The sizes that a growth asks the allocator for. -/
def growRequests (limit : Nat) (delta max : UInt32) (b : Backing) : List Nat :=
  ((tryGrowAsking limit delta max).outcome (b, [])).2.2

/-- Only a growth that fits asks for anything, and then at most once: for
the new capacity.  The pages are committed inside what that provides. -/
theorem tryGrowAsking_eq (limit : Nat) (delta max : UInt32) (b : Backing) (asked : List Nat) :
    tryGrowAsking limit delta max (b, asked) =
      if b.Fits delta max then
        if b.HasRoom limit delta max then
          .ok (.ok b.pages)
            (b.grown delta max, asked ++ b.storage.requests (pageBytes (b.target delta max)))
        else
          .ok (.error (.outOfMemory (b.target delta max)))
            (b, asked ++ b.storage.requests (pageBytes (b.target delta max)))
      else
        .ok (.error (.exceedsCeiling (b.pages.toUInt64 + delta.toUInt64) (min max pageCeiling)))
          (b, asked) := by
  by_cases hfits : b.Fits delta max
  · have hplan : GrowPlan.make b.pages b.capacity delta max =
        .ok (.ok ⟨b.pages + delta, b.target delta max⟩) := GrowPlan.make_of_fits hfits
    have hlift := Routine.liftM_of_ok hplan (b, asked)
    rw [if_pos hfits]
    refine (Routine.bind_of_ok rfl).trans ((Routine.bind_of_ok hlift).trans ?_)
    simp only [reserve_target]
    by_cases hroom : b.HasRoom limit delta max
    · -- the committed pages lie inside the reservation, so the change of size asks for nothing
      have hpages : pageBytes (b.pages + delta) ≤ pageBytes (b.target delta max) := by
        apply pageBytes_mono
        rw [GrowPlan.toNat_add_of_fits hfits]
        exact pages_le_target hfits
      have hnone : (Storage.truncate (pageBytes b.pages) ⟨b.storage.bytes,
          Nat.max b.storage.allocation (pageBytes (b.target delta max))⟩).requests
            (pageBytes (b.pages + delta)) = [] :=
        if_pos (Nat.le_trans hpages (Nat.le_max_right _ _))
      simp only [if_pos hroom, hnone, List.append_nil]
      rfl
    · simp only [if_neg hroom]
      rfl
  · have hrefused : GrowPlan.make b.pages b.capacity delta max = .ok (.error (.exceedsCeiling
        (b.pages.toUInt64 + delta.toUInt64) (min max pageCeiling))) :=
      GrowPlan.make_of_exceeds (Nat.not_le.mp hfits)
    rw [if_neg hfits]
    exact (Routine.bind_of_ok rfl).trans
      (Routine.bind_of_ok (Routine.liftM_of_ok hrefused (b, asked)))

/-- Without its record the recorded growth is the growth. -/
theorem outcome_tryGrowAsking (limit : Nat) (delta max : UInt32) (b : Backing) :
    (tryGrowAsking limit delta max).outcome (b, []) =
      (((tryGrow limit delta max).outcome b).1, ((tryGrow limit delta max).outcome b).2,
        growRequests limit delta max b) := by
  simp only [growRequests, Routine.outcome, tryGrowAsking_eq, tryGrow_eq]
  by_cases hfits : b.Fits delta max
  · by_cases hroom : b.HasRoom limit delta max <;> simp [hfits, hroom]
  · simp [hfits]

theorem growRequests_eq (limit : Nat) (delta max : UInt32) (b : Backing) :
    growRequests limit delta max b =
      if b.Fits delta max then b.storage.requests (pageBytes (b.target delta max)) else [] := by
  simp only [growRequests, Routine.outcome, tryGrowAsking_eq]
  by_cases hfits : b.Fits delta max
  · by_cases hroom : b.HasRoom limit delta max <;> simp [hfits, hroom]
  · simp [hfits]

/-! ## The whole law -/

theorem grow_eq (limit : Nat) (delta max : UInt32) (b : Backing) :
    grow limit delta max b =
      if b.Fits delta max ∧ b.HasRoom limit delta max then .ok b.pages (b.grown delta max)
      else .ok growFailed b := by
  rcases tryGrow_cases limit delta max b with
    ⟨hfits, htry⟩ | ⟨hfits, hroom, htry⟩ | ⟨hfits, hroom, htry⟩
  · rw [if_neg fun h => hfits h.1]
    exact Routine.map_of_ok htry
  · rw [if_neg fun h => hroom h.2]
    exact Routine.map_of_ok htry
  · rw [if_pos ⟨hfits, hroom⟩]
    exact Routine.map_of_ok htry

/-- A memory that can still grow has far fewer pages than the sentinel says. -/
theorem pages_ne_growFailed {delta max : UInt32} {b : Backing} (h : b.Fits delta max) :
    b.pages ≠ growFailed := by
  rw [Fits, toNat_min, toNat_pageCeiling] at h
  intro heq
  rw [heq, show growFailed.toNat = 0x0FFFFFFF from rfl] at h
  omega

/-- The law of growth for any bytes, counts and allocation and any limit of
the allocator.  It never stops with a fault. -/
theorem grow_complete_law (limit : Nat) (delta max : UInt32) (b : Backing) :
    let ceiling := min max pageCeiling
    let required := b.pages.toNat + delta.toNat
    (tryGrowAsking limit delta max).outcome (b, []) =
      (((tryGrow limit delta max).outcome b).1, ((tryGrow limit delta max).outcome b).2,
        growRequests limit delta max b) ∧
    if ceiling.toNat < required then
      grow limit delta max b = .ok growFailed b ∧ growRequests limit delta max b = []
    else
      ∃ c : UInt32, required ≤ c.toNat ∧
        (if b.capacity.toNat < required then
          nextCapacity b.capacity (UInt32.ofNat required) ceiling = .ok c
        else c = b.capacity) ∧
        if b.storage.allocation < pageBytes c ∧ limit < pageBytes c then
          grow limit delta max b = .ok growFailed b ∧
            growRequests limit delta max b = [pageBytes c]
        else
          b.pages ≠ growFailed ∧
          ∃ b', grow limit delta max b = .ok b.pages b' ∧
            b'.pages.toNat = required ∧
            b'.capacity = c ∧
            b'.storage.bytes.size = pageSize * required ∧
            b'.storage.allocation = Nat.max b.storage.allocation (pageBytes c) ∧
            (∀ i, b'.storage.bytes.byteAt i =
              if i < Nat.min b.storage.bytes.size (pageBytes b.pages) then
                b.storage.bytes.byteAt i
              else 0) ∧
            growRequests limit delta max b = b.storage.requests (pageBytes c) := by
  intro ceiling required
  refine ⟨outcome_tryGrowAsking limit delta max b, ?_⟩
  by_cases hfits : b.Fits delta max
  · rw [if_neg (Nat.not_lt.mpr hfits)]
    have hadd : (b.pages + delta).toNat = required := GrowPlan.toNat_add_of_fits hfits
    refine ⟨b.target delta max, pages_le_target hfits, ?_, ?_⟩
    · have hrequired : UInt32.ofNat required = b.pages + delta := by
        rw [← hadd, UInt32.ofNat_toNat]
      rw [hrequired, nextCapacity_eq, target, targetCapacity, ← hadd]
      by_cases hlt : b.capacity < b.pages + delta
      · rw [if_pos (UInt32.lt_iff_toNat_lt.mp hlt), if_pos hlt]
      · rw [if_neg fun h => hlt (UInt32.lt_iff_toNat_lt.mpr h), if_neg hlt]
    · rw [grow_eq, growRequests_eq, if_pos hfits]
      by_cases hroom : b.HasRoom limit delta max
      · rw [if_neg (by rw [HasRoom] at hroom; omega), if_pos ⟨hfits, hroom⟩]
        exact ⟨pages_ne_growFailed hfits, b.grown delta max, rfl, toNat_pages_grown hfits, rfl,
          size_grown hfits, allocation_grown hfits, byteAt_grown hfits, rfl⟩
      · rw [HasRoom, not_or] at hroom
        rw [if_pos (by omega), if_neg fun h => absurd h.2 (not_or.mpr hroom), Storage.requests,
          if_neg hroom.1]
        exact ⟨rfl, rfl⟩
  · rw [if_pos (Nat.not_le.mp hfits), grow_eq, growRequests_eq, if_neg hfits,
      if_neg fun h => hfits h.1]
    exact ⟨rfl, rfl⟩

end Backing

end PagedMemory
