/-
PagedMemory.Proofs.GrowthAnswers — what a growth answers, whichever way it
is asked for.

A memory is grown with a reason for a refusal (`tryGrow`) or with the
sentinel `growFailed` in place of a reason (`grow`), and either by the
memory itself or by an owner who keeps its parts.  `Refusal` says, without
running any of them, when a growth has to be refused and for which reason:
the ceiling is looked at before the allocator, the sum of the pages is not
wrapped, and the allocator's refusal names the capacity that the policy
asked for.

The sentinel stands for a refusal and for nothing else, also where an owner
claims to have as many pages as the sentinel says: such a memory is beyond
every ceiling, so it never grows.
-/
import PagedMemory.Proofs.RegionOutcomes

namespace PagedMemory

namespace Backing

/-! ## Reasons -/

/-- The capacity that a growth to `required` pages needs: what is reserved
already if that is enough, and otherwise what the policy answers. -/
def AsksFor (required : Nat) (ceiling : UInt32) (b : Backing) (capacity : UInt32) : Prop :=
  if b.capacity.toNat < required then
    nextCapacity b.capacity (UInt32.ofNat required) ceiling = .ok capacity
  else capacity = b.capacity

/-- The reason for which a growth has to be refused. -/
inductive Refusal (limit : Nat) (delta max : UInt32) (b : Backing) : GrowError → Prop where
  /-- The pages do not fit under the ceiling, whatever the allocator would
  say. -/
  | exceedsCeiling {requested : UInt64}
      (hsum : requested.toNat = b.pages.toNat + delta.toNat)
      (hbeyond : (min max pageCeiling).toNat < b.pages.toNat + delta.toNat) :
      Refusal limit delta max b (.exceedsCeiling requested (min max pageCeiling))
  /-- The pages fit, but the capacity that goes with them is neither
  allocated nor granted. -/
  | outOfMemory {capacity : UInt32}
      (hfits : b.pages.toNat + delta.toNat ≤ (min max pageCeiling).toNat)
      (hcapacity : b.AsksFor (b.pages.toNat + delta.toNat) (min max pageCeiling) capacity)
      (hheld : b.storage.allocation < pageBytes capacity)
      (hgranted : limit < pageBytes capacity) :
      Refusal limit delta max b (.outOfMemory capacity)

variable {limit : Nat} {delta max : UInt32} {b : Backing}

/-- A growth that fits asks for its target and for nothing else. -/
theorem asksFor_iff (hfits : b.Fits delta max) {capacity : UInt32} :
    b.AsksFor (b.pages.toNat + delta.toNat) (min max pageCeiling) capacity ↔
      capacity = b.target delta max := by
  have hadd := GrowPlan.toNat_add_of_fits hfits
  rw [AsksFor, target, targetCapacity, ← hadd, UInt32.ofNat_toNat, nextCapacity_eq]
  by_cases hlt : b.capacity < b.pages + delta
  · rw [if_pos (UInt32.lt_iff_toNat_lt.mp hlt), if_pos hlt, Except.ok.injEq, eq_comm]
  · rw [if_neg fun h => hlt (UInt32.lt_iff_toNat_lt.mpr h), if_neg hlt]

theorem refusal_of_not_fits (hfits : ¬b.Fits delta max) {e : GrowError} :
    b.Refusal limit delta max e ↔ e = .exceedsCeiling (b.pages.toUInt64 + delta.toUInt64)
      (min max pageCeiling) := by
  constructor
  · intro h
    cases h with
    | exceedsCeiling hsum hbeyond =>
      rw [← GrowPlan.toNat_requested] at hsum
      rw [UInt64.toNat_inj.mp hsum]
    | outOfMemory hle _ _ _ => exact absurd hle hfits
  · rintro rfl
    exact .exceedsCeiling (GrowPlan.toNat_requested _ _) (Nat.not_le.mp hfits)

theorem refusal_of_fits (hfits : b.Fits delta max) {e : GrowError} :
    b.Refusal limit delta max e ↔
      ¬b.HasRoom limit delta max ∧ e = .outOfMemory (b.target delta max) := by
  constructor
  · intro h
    cases h with
    | exceedsCeiling _ hbeyond => exact absurd hfits (Nat.not_le.mpr hbeyond)
    | outOfMemory _ hcapacity hheld hgranted =>
      obtain rfl := (asksFor_iff hfits).mp hcapacity
      exact ⟨not_or.mpr ⟨Nat.not_le.mpr hheld, Nat.not_le.mpr hgranted⟩, rfl⟩
  · rintro ⟨hroom, rfl⟩
    obtain ⟨hheld, hgranted⟩ := not_or.mp hroom
    exact .outOfMemory hfits ((asksFor_iff hfits).mpr rfl) (Nat.not_le.mp hheld)
      (Nat.not_le.mp hgranted)

/-! ## Answers -/

/-- A growth answers an error exactly for a reason, and otherwise the pages
that there were. -/
theorem exists_tryGrow (limit : Nat) (delta max : UInt32) (b : Backing) :
    ∃ answer b', tryGrow limit delta max b = .ok answer b' ∧
      (∀ e, answer = .error e ↔ b.Refusal limit delta max e) ∧
      ∀ old, answer = .ok old ↔ old = b.pages ∧ ¬∃ e, b.Refusal limit delta max e := by
  rcases tryGrow_cases limit delta max b with
    ⟨hfits, htry⟩ | ⟨hfits, hroom, htry⟩ | ⟨hfits, hroom, htry⟩
  · refine ⟨_, _, htry, fun e => ?_, fun old => ?_⟩
    · rw [refusal_of_not_fits hfits, Except.error.injEq, eq_comm]
    · simp [refusal_of_not_fits hfits]
  · refine ⟨_, _, htry, fun e => ?_, fun old => ?_⟩
    · simp [refusal_of_fits hfits, hroom, eq_comm]
    · simp [refusal_of_fits hfits, hroom]
  · refine ⟨_, _, htry, fun e => ?_, fun old => ?_⟩
    · simp [refusal_of_fits hfits, hroom]
    · simp [refusal_of_fits hfits, hroom, eq_comm]

/-- Where reasons cannot be told, the sentinel takes the place of each. -/
theorem grow_of_tryGrow {answer : Except GrowError UInt32} {b' : Backing}
    (h : tryGrow limit delta max b = .ok answer b') :
    grow limit delta max b = .ok (answer.toOption.getD growFailed) b' := by
  have hgrow : grow limit delta max b = .ok (grownOrCode answer) b' := Routine.map_of_ok h
  rw [hgrow]
  cases answer <;> rfl

/-- Pages that can grow are no sentinel, so the sentinel tells a refusal. -/
theorem eq_growFailed_iff {answer : Except GrowError UInt32} {b' : Backing}
    (h : tryGrow limit delta max b = .ok answer b') :
    answer.toOption.getD growFailed = growFailed ↔ ∃ e, answer = .error e := by
  rcases tryGrow_cases limit delta max b with ⟨-, htry⟩ | ⟨-, -, htry⟩ | ⟨hfits, -, htry⟩
  · cases htry.symm.trans h
    exact ⟨fun _ => ⟨_, rfl⟩, fun _ => rfl⟩
  · cases htry.symm.trans h
    exact ⟨fun _ => ⟨_, rfl⟩, fun _ => rfl⟩
  · cases htry.symm.trans h
    exact ⟨fun hcode => absurd hcode (pages_ne_growFailed hfits), fun ⟨_, he⟩ => by cases he⟩

end Backing

/-! ## The ways to ask -/

/-- A routine on the parts of a memory ends as it ends on the parts alone. -/
theorem Region.onBacking_of_ok {α : Type} {max : UInt32} {m : Routine Backing α} {r : Region max}
    {a : α} {b' : Backing} (h : m r.toBacking = .ok a b') : Region.onBacking m r = .ok a ⟨b'⟩ := by
  simp only [Region.onBacking, Routine.onPart, h]

/-- The memory's own growths and the growth by an owner of its parts end
alike, and the sentinel takes the place of every reason.  For any parts, the
sentinel is answered exactly where the growth has to be refused, and the
reason is the one that `Refusal` gives. -/
theorem growth_entry_points_agree (limit : Nat) (delta max : UInt32) :
    (∀ r : Region max, ∃ answer r',
      Region.tryGrow limit delta r = .ok answer r' ∧
      Region.grow limit delta r = .ok (answer.toOption.getD growFailed) r' ∧
      Backing.grow limit delta max r.toBacking =
        .ok (answer.toOption.getD growFailed) r'.toBacking) ∧
    ∀ b : Backing, ∃ answer value b',
      Backing.tryGrow limit delta max b = .ok answer b' ∧
      Backing.grow limit delta max b = .ok value b' ∧
      value = answer.toOption.getD growFailed ∧
      (value = growFailed ↔ ∃ e, b.Refusal limit delta max e) ∧
      (∀ e, answer = .error e ↔ b.Refusal limit delta max e) ∧
      ∀ old, answer = .ok old ↔ old = b.pages ∧ ¬∃ e, b.Refusal limit delta max e := by
  constructor
  · intro r
    obtain ⟨answer, b', htry, -⟩ := Backing.exists_tryGrow limit delta max r.toBacking
    have hgrow := Backing.grow_of_tryGrow htry
    exact ⟨answer, ⟨b'⟩, Region.onBacking_of_ok htry, Region.onBacking_of_ok hgrow, hgrow⟩
  · intro b
    obtain ⟨answer, b', htry, herror, hok⟩ := Backing.exists_tryGrow limit delta max b
    have hcode : answer.toOption.getD growFailed = growFailed ↔
        ∃ e, b.Refusal limit delta max e :=
      (Backing.eq_growFailed_iff htry).trans (exists_congr herror)
    exact ⟨answer, _, b', htry, Backing.grow_of_tryGrow htry, rfl, hcode, herror, hok⟩

end PagedMemory
