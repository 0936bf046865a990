/-
PagedMemory.Proofs.GrowthInPieces — growing in pieces equals growing at
once.

`Backing.Grows` is a growth that succeeds.  Under one limit of the
allocator, a growth by `d₁ + d₂` succeeds exactly when the growths by `d₁`
and then by `d₂` do, and both ways end in the same memory: the same bytes,
counts and allocation.  No hypothesis on the memory is needed; in
particular it may hold more or fewer bytes than pages, and its capacity may
lie below its pages or beyond the ceiling.

The proof follows the three parts of a growth.  The ceilings agree because
pages only add up.  The capacities agree because the policy may be asked
for a smaller request first (`covering_covering`).  The reservations agree
because the smaller capacity never needs more room than the larger one, and
once the smaller one is reserved nothing else has been lost.
-/
import PagedMemory.Proofs.GrowthTheorems
import PagedMemory.Region.Basic
import Mathlib.Algebra.Ring.Nat

namespace PagedMemory

/-! ## The parts of a growth -/

/-- A growth's capacity may be found in two steps. -/
theorem targetCapacity_targetCapacity {pages capacity d₁ d₂ max : UInt32}
    (h₂ : (pages + d₁).toNat + d₂.toNat ≤ (min max pageCeiling).toNat) :
    targetCapacity (pages + d₁) (targetCapacity pages capacity d₁ max) d₂ max =
      targetCapacity pages capacity (d₁ + d₂) max := by
  have hpages₂ := GrowPlan.toNat_add_of_fits h₂
  have hle : (pages + d₁).toNat ≤ (pages + d₁ + d₂).toNat := by
    rw [hpages₂]
    exact Nat.le_add_right _ _
  have hassoc : pages + (d₁ + d₂) = pages + d₁ + d₂ := (UInt32.add_assoc _ _ _).symm
  by_cases hc : capacity < pages + d₁
  · have hc₂ : capacity < pages + (d₁ + d₂) := by
      rw [UInt32.lt_iff_toNat_lt] at hc ⊢
      rw [hassoc]
      omega
    rw [targetCapacity_of_lt hc, targetCapacity_of_lt hc₂, hassoc]
    by_cases hreached : covering capacity (pages + d₁) (min max pageCeiling) < pages + d₁ + d₂
    · rw [targetCapacity_of_lt hreached, covering_covering hle]
    · -- the first walk has already covered the second request
      rw [targetCapacity_of_not_lt hreached, ← covering_covering hle]
      rw [UInt32.lt_iff_toNat_lt] at hreached
      exact (covering_of_le (Nat.not_lt.mp hreached) (covering_le _ _ _)).symm
  · rw [targetCapacity_of_not_lt hc, targetCapacity, targetCapacity, hassoc]

namespace Backing

/-- A memory is its bytes, its allocation and its counts. -/
theorem eq_of_parts {a b : Backing} (hbytes : a.storage.bytes = b.storage.bytes)
    (halloc : a.storage.allocation = b.storage.allocation) (hpages : a.pages = b.pages)
    (hcapacity : a.capacity = b.capacity) : a = b := by
  obtain ⟨⟨_, _⟩, _, _⟩ := a
  obtain ⟨⟨_, _⟩, _, _⟩ := b
  simp_all

variable {limit : Nat} {d₁ d₂ max : UInt32} {b : Backing}

theorem toNat_add_deltas (h : d₁.toNat + d₂.toNat < 2 ^ 32) :
    (d₁ + d₂).toNat = d₁.toNat + d₂.toNat := by
  rw [UInt32.toNat_add, Nat.mod_eq_of_lt h]

theorem fits_add (h : d₁.toNat + d₂.toNat < 2 ^ 32) :
    b.Fits (d₁ + d₂) max ↔ b.Fits d₁ max ∧ (b.grown d₁ max).Fits d₂ max := by
  have hdeltas := toNat_add_deltas h
  constructor
  · intro hfits
    have h₁ : b.Fits d₁ max := by
      rw [Fits] at hfits ⊢
      omega
    refine ⟨h₁, ?_⟩
    rw [Fits] at hfits ⊢
    rw [toNat_pages_grown h₁]
    omega
  · rintro ⟨h₁, h₂⟩
    rw [Fits, toNat_pages_grown h₁] at h₂
    rw [Fits]
    omega

theorem target_grown (h₂ : (b.grown d₁ max).Fits d₂ max) :
    (b.grown d₁ max).target d₂ max = b.target (d₁ + d₂) max :=
  targetCapacity_targetCapacity h₂

theorem target_le_target (h₂ : (b.grown d₁ max).Fits d₂ max) :
    pageBytes (b.target d₁ max) ≤ pageBytes (b.target (d₁ + d₂) max) := by
  rw [← target_grown h₂]
  exact pageBytes_mono (capacity_le_targetCapacity h₂)

/-- The intermediate reservation is refused only where the whole one is, and
it never makes room for the whole one by itself. -/
theorem hasRoom_add (h₁ : b.Fits d₁ max) (h₂ : (b.grown d₁ max).Fits d₂ max) :
    b.HasRoom limit (d₁ + d₂) max ↔
      b.HasRoom limit d₁ max ∧ (b.grown d₁ max).HasRoom limit d₂ max := by
  have hle := target_le_target h₂
  have halloc : (b.grown d₁ max).storage.allocation =
      Max.max b.storage.allocation (pageBytes (b.target d₁ max)) := allocation_grown h₁
  simp only [HasRoom, target_grown h₂, halloc]
  omega

/-- Two growths in turn leave the memory that one growth leaves. -/
theorem grown_grown (h : d₁.toNat + d₂.toNat < 2 ^ 32) (h₁ : b.Fits d₁ max)
    (h₂ : (b.grown d₁ max).Fits d₂ max) :
    (b.grown d₁ max).grown d₂ max = b.grown (d₁ + d₂) max := by
  have hfits : b.Fits (d₁ + d₂) max := (fits_add h).mpr ⟨h₁, h₂⟩
  have hsize : ((b.grown d₁ max).grown d₂ max).storage.bytes.size =
      (b.grown (d₁ + d₂) max).storage.bytes.size := by
    rw [size_grown h₂, size_grown hfits, toNat_pages_grown h₁, toNat_add_deltas h, Nat.add_assoc]
  have hheld : Nat.min b.storage.bytes.size (pageBytes b.pages) ≤
      Nat.min (b.grown d₁ max).storage.bytes.size (pageBytes (b.grown d₁ max).pages) := by
    rw [size_grown h₁, pageBytes, pageBytes, toNat_pages_grown h₁]
    change Min.min _ _ ≤ Min.min _ _
    simp only [pageSize]
    omega
  refine eq_of_parts (Bytes.ext_byteAt hsize fun i _ => ?_) ?_ (UInt32.add_assoc _ _ _)
    (target_grown h₂)
  · rw [byteAt_grown h₂, byteAt_grown h₁, byteAt_grown hfits]
    by_cases hi : i < Nat.min b.storage.bytes.size (pageBytes b.pages)
    · rw [if_pos (Nat.lt_of_lt_of_le hi hheld)]
    · rw [if_neg hi, ite_self]
  · have hle : pageBytes (b.target d₁ max) ≤ pageBytes (b.target (d₁ + d₂) max) :=
      target_le_target h₂
    rw [allocation_grown h₂, allocation_grown h₁, allocation_grown hfits, target_grown h₂]
    change Max.max (Max.max _ _) _ = Max.max _ _
    omega

/-! ## Successful growths -/

/-- A growth that succeeds: it answers `p` and leaves `b'`. -/
def Grows (limit : Nat) (delta max : UInt32) (b : Backing) (p : UInt32) (b' : Backing) : Prop :=
  grow limit delta max b = .ok p b' ∧ p ≠ growFailed

/-- Successful growths by every delta in turn. -/
def GrowsBy (limit : Nat) (max : UInt32) : List UInt32 → Backing → Backing → Prop
  | [], b, b' => b' = b
  | delta :: deltas, b, b' =>
    ∃ p b₁, b.Grows limit delta max p b₁ ∧ GrowsBy limit max deltas b₁ b'

theorem grows_iff {delta p : UInt32} {b' : Backing} :
    b.Grows limit delta max p b' ↔
      b.Fits delta max ∧ b.HasRoom limit delta max ∧ p = b.pages ∧ b' = b.grown delta max := by
  rw [Grows, grow_eq]
  constructor
  · rintro ⟨hgrow, hne⟩
    split at hgrow
    · rename_i h
      cases hgrow
      exact ⟨h.1, h.2, rfl, rfl⟩
    · cases hgrow
      exact absurd rfl hne
  · rintro ⟨hfits, hroom, rfl, rfl⟩
    rw [if_pos ⟨hfits, hroom⟩]
    exact ⟨rfl, pages_ne_growFailed hfits⟩

/-- One growth by the sum is two growths in turn. -/
theorem grows_add {p : UInt32} {b' : Backing} (h : d₁.toNat + d₂.toNat < 2 ^ 32) :
    b.Grows limit (d₁ + d₂) max p b' ↔
      ∃ q b₁, b.Grows limit d₁ max p b₁ ∧ b₁.Grows limit d₂ max q b' := by
  constructor
  · intro hgrows
    obtain ⟨hfits, hroom, rfl, rfl⟩ := grows_iff.mp hgrows
    obtain ⟨h₁, h₂⟩ := (fits_add h).mp hfits
    obtain ⟨hroom₁, hroom₂⟩ := (hasRoom_add h₁ h₂).mp hroom
    exact ⟨_, _, grows_iff.mpr ⟨h₁, hroom₁, rfl, rfl⟩,
      grows_iff.mpr ⟨h₂, hroom₂, rfl, (grown_grown h h₁ h₂).symm⟩⟩
  · rintro ⟨q, b₁, hfirst, hsecond⟩
    obtain ⟨h₁, hroom₁, rfl, rfl⟩ := grows_iff.mp hfirst
    obtain ⟨h₂, hroom₂, -, rfl⟩ := grows_iff.mp hsecond
    exact grows_iff.mpr ⟨(fits_add h).mpr ⟨h₁, h₂⟩, (hasRoom_add h₁ h₂).mpr ⟨hroom₁, hroom₂⟩, rfl,
      grown_grown h h₁ h₂⟩

/-- Growths in turn by any deltas, of which there is at least one, are one
growth by their sum. -/
theorem growsBy_iff {deltas : List UInt32} {total : UInt32} {b' : Backing} (hne : deltas ≠ [])
    (htotal : (deltas.map UInt32.toNat).sum = total.toNat) :
    GrowsBy limit max deltas b b' ↔ ∃ p, b.Grows limit total max p b' := by
  induction deltas generalizing b total with
  | nil => exact absurd rfl hne
  | cons delta rest ih =>
    have hsum : delta.toNat + (rest.map UInt32.toNat).sum = total.toNat := htotal
    have hlt := total.toNat_lt
    cases rest with
    | nil =>
      have hdelta : delta = total := UInt32.toNat_inj.mp (by simpa using hsum)
      subst hdelta
      constructor
      · rintro ⟨p, b₁, hgrows, rfl⟩
        exact ⟨p, hgrows⟩
      · rintro ⟨p, hgrows⟩
        exact ⟨p, b', hgrows, rfl⟩
    | cons next rest =>
      -- the later deltas are one growth by what is left of the total
      have hleft : (UInt32.ofNat (total.toNat - delta.toNat)).toNat = total.toNat - delta.toNat := by
        rw [UInt32.toNat_ofNat', Nat.mod_eq_of_lt (by omega)]
      have hadd : delta + UInt32.ofNat (total.toNat - delta.toNat) = total := by
        apply UInt32.toNat_inj.mp
        rw [UInt32.toNat_add, hleft, Nat.mod_eq_of_lt (by omega)]
        omega
      have hrest : ((next :: rest).map UInt32.toNat).sum =
          (UInt32.ofNat (total.toNat - delta.toNat)).toNat := by omega
      have htwo : delta.toNat + (UInt32.ofNat (total.toNat - delta.toNat)).toNat < 2 ^ 32 := by
        omega
      constructor
      · rintro ⟨p, b₁, hfirst, hlater⟩
        obtain ⟨q, hsecond⟩ := (ih (List.cons_ne_nil _ _) hrest).mp hlater
        refine ⟨p, ?_⟩
        rw [← hadd]
        exact (grows_add htwo).mpr ⟨q, b₁, hfirst, hsecond⟩
      · rintro ⟨p, hgrows⟩
        rw [← hadd] at hgrows
        obtain ⟨q, b₁, hfirst, hsecond⟩ := (grows_add htwo).mp hgrows
        exact ⟨p, b₁, hfirst, (ih (List.cons_ne_nil _ _) hrest).mpr ⟨q, hsecond⟩⟩

end Backing

/-! ## A linear memory in pieces -/

/-- A linear memory grows as its parts do. -/
theorem Region.grow_eq_ok_iff {limit : Nat} {delta max p : UInt32} {r r' : Region max} :
    Region.grow limit delta r = .ok p r' ↔
      Backing.grow limit delta max r.toBacking = .ok p r'.toBacking := by
  rw [Routine.eq_ok_iff_outcome, Routine.eq_ok_iff_outcome, Region.grow, Region.onBacking,
    Routine.outcome_onPart]
  obtain ⟨b'⟩ := r'
  simp [Prod.ext_iff]

/-- Growing in pieces is growing at once, in any memory and under any one
limit of the allocator: it succeeds exactly when each piece does, in the
order of the pieces, and it leaves what they leave. -/
theorem grow_in_pieces (limit : Nat) (max d₁ d₂ : UInt32)
    (hsum : d₁.toNat + d₂.toNat < 2 ^ 32) :
    (∀ (b b' : Backing) (p : UInt32), b.Grows limit (d₁ + d₂) max p b' ↔
      ∃ q b₁, b.Grows limit d₁ max p b₁ ∧ b₁.Grows limit d₂ max q b') ∧
    (∀ (b b₁ b' : Backing) (p q : UInt32), b.Grows limit d₁ max p b₁ →
      b₁.Grows limit d₂ max q b' → p = b.pages ∧ q.toNat = b.pages.toNat + d₁.toNat) ∧
    (∀ (b b' : Backing) (deltas : List UInt32), deltas ≠ [] →
      (deltas.map UInt32.toNat).sum = d₁.toNat + d₂.toNat →
        (Backing.GrowsBy limit max deltas b b' ↔ ∃ p, b.Grows limit (d₁ + d₂) max p b')) ∧
    (∀ (r r' : Region max) (p : UInt32),
      (Region.grow limit (d₁ + d₂) r = .ok p r' ∧ p ≠ growFailed) ↔
        ∃ q r₁, (Region.grow limit d₁ r = .ok p r₁ ∧ p ≠ growFailed) ∧
          Region.grow limit d₂ r₁ = .ok q r' ∧ q ≠ growFailed) := by
  refine ⟨fun b b' p => Backing.grows_add hsum, fun b b₁ b' p q hfirst hsecond => ?_,
    fun b b' deltas hne htotal => ?_, fun r r' p => ?_⟩
  · obtain ⟨h₁, -, rfl, rfl⟩ := Backing.grows_iff.mp hfirst
    obtain ⟨-, -, rfl, -⟩ := Backing.grows_iff.mp hsecond
    exact ⟨rfl, Backing.toNat_pages_grown h₁⟩
  · refine Backing.growsBy_iff hne ?_
    rw [htotal, Backing.toNat_add_deltas hsum]
  · simp only [Region.grow_eq_ok_iff]
    constructor
    · intro hgrows
      obtain ⟨q, b₁, hfirst, hsecond⟩ := (Backing.grows_add hsum).mp hgrows
      exact ⟨q, ⟨b₁⟩, hfirst, hsecond⟩
    · rintro ⟨q, r₁, hfirst, hsecond⟩
      exact (Backing.grows_add hsum).mpr ⟨q, r₁.toBacking, hfirst, hsecond⟩

/-- Nine pages under a limit of twenty: the first eight take a reserve of
eight, and the ninth makes it twenty, as nine at once do. -/
theorem grow_in_pieces_eight_and_one :
    (8 : UInt32).toNat + (1 : UInt32).toNat < 2 ^ 32 ∧
    ∃ q b₁ b', Backing.Grows 1310720 8 pageCeiling ⟨Storage.empty, 0, 0⟩ 0 b₁ ∧
      b₁.Grows 1310720 1 pageCeiling q b' ∧
      Backing.Grows 1310720 (8 + 1) pageCeiling ⟨Storage.empty, 0, 0⟩ 0 b' := by
  have hsum : (8 : UInt32).toNat + (1 : UInt32).toNat < 2 ^ 32 := by decide
  have hreach : reach 9 0 = 20 := by
    rw [reach, reach, reach]
    rfl
  have hcovering : covering 0 9 pageCeiling = 20 := by
    apply UInt32.toNat_inj.mp
    rw [toNat_covering]
    exact congrArg (min · 65536) hreach
  have htarget : Backing.target (8 + 1) pageCeiling ⟨Storage.empty, 0, 0⟩ = 20 :=
    (targetCapacity_of_lt (by decide)).trans hcovering
  have hroom : Backing.HasRoom 1310720 (8 + 1) pageCeiling ⟨Storage.empty, 0, 0⟩ := by
    refine Or.inr ?_
    rw [htarget]
    decide
  have hgrows : Backing.Grows 1310720 (8 + 1) pageCeiling ⟨Storage.empty, 0, 0⟩ 0
      (Backing.grown (8 + 1) pageCeiling ⟨Storage.empty, 0, 0⟩) :=
    Backing.grows_iff.mpr ⟨by decide, hroom, rfl, rfl⟩
  obtain ⟨q, b₁, hfirst, hsecond⟩ :=
    ((grow_in_pieces 1310720 pageCeiling 8 1 hsum).1 _ _ _).mp hgrows
  exact ⟨hsum, q, b₁, _, hfirst, hsecond, hgrows⟩

end PagedMemory
