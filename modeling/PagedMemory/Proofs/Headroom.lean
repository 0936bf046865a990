/-
PagedMemory.Proofs.Headroom — when the reserve that a memory reports is
really there.

A memory keeps an allocation for its whole capacity, with one exception: a
copy reports the capacity of its original, and its allocation is only as
large as its bytes until the first growth that is granted to it.
`ungrownCopy` is the ledger of these copies.

Inside its capacity a memory that is no such copy is granted every growth,
under any limit of the allocator.  Such a copy is refused exactly where it
has pages in reserve and the limit does not allow for all of them.  The
declared maximum is at most `pageCeiling` here: a larger capacity could not
be grown into at all.
-/
import PagedMemory.Proofs.RegionOutcomes
import PagedMemory.Proofs.SideBySide

namespace PagedMemory

namespace Region

variable {max : UInt32} {limit : Nat} {delta : UInt32} {r r' : Region max} {action : Action}
  {answer : Except Fault Answer}

/-! ## Growths inside the capacity -/

section Within

/-- The new pages do not exceed the pages in reserve. -/
def Within (delta : UInt32) (r : Region max) : Prop :=
  r.pages.toNat + delta.toNat ≤ r.capacity.toNat

theorem WellFormed.fits_of_within (h : r.WellFormed) (hmax : max ≤ pageCeiling)
    (hwithin : r.Within delta) : r.toBacking.Fits delta max := by
  have hceiling : min max pageCeiling = max := if_pos hmax
  rw [Backing.Fits, hceiling]
  exact Nat.le_trans hwithin (UInt32.le_iff_toNat_le.mp h.capacity_le)

/-- The policy is not asked for anything. -/
theorem target_of_within (hfits : r.toBacking.Fits delta max) (hwithin : r.Within delta) :
    r.toBacking.target delta max = r.capacity := by
  apply targetCapacity_of_not_lt
  rw [UInt32.not_lt, UInt32.le_iff_toNat_le, GrowPlan.toNat_add_of_fits hfits]
  exact hwithin

theorem hasRoom_of_within (hfits : r.toBacking.Fits delta max) (hwithin : r.Within delta) :
    r.toBacking.HasRoom limit delta max ↔
      pageBytes r.capacity ≤ r.storage.allocation ∨ pageBytes r.capacity ≤ limit := by
  rw [Backing.HasRoom, target_of_within hfits hwithin]

end Within

/-! ## The allocation -/

/-- What is known of the allocation of a memory, given whether it is a copy
that has not grown yet. -/
def Reserved (ungrown : Bool) (r : Region max) : Prop :=
  if ungrown then r.storage.allocation = r.bytes.size
  else pageBytes r.capacity ≤ r.storage.allocation

/-- The action is a growth that was granted, as its answer tells. -/
def Action.grew : Action → Except Fault Answer → Bool
  | .grow _, .ok (.number n) => n != growFailed.toNat
  | .tryGrow _, .ok (.grown (.ok _)) => true
  | _, _ => false

/-- An answer tells of a growth exactly where pages were asked for and not
refused. -/
theorem Action.grew_iff (limit : Nat) (r : Region max) :
    action.grew ((action.perform limit).outcome r).1 = true ↔
      action.delta? ≠ none ∧ ¬action.Refused ((action.perform limit).outcome r).1 := by
  cases action with
  | grow delta =>
    rw [perform, Routine.outcome_bind, outcome_grow]
    split <;> simp [grew, Refused, delta?]
  | tryGrow delta =>
    rw [perform, Routine.outcome_map, outcome_tryGrow]
    by_cases hfits : r.toBacking.Fits delta max
    · by_cases hroom : r.toBacking.HasRoom limit delta max
      · simp [hfits, hroom, Except.map, grew, Refused, delta?]
      · simp [hfits, hroom, Except.map, grew, Refused, delta?]
    · simp [hfits, Except.map, grew, Refused, delta?]
  | _ => simp [grew, delta?]

/-- A copy stops being an ungrown one with the first growth that it is
granted, and not before. -/
theorem Action.Effect.reserved {ungrown : Bool} (h : action.Effect limit r answer r')
    (hanswer : answer = ((action.perform limit).outcome r).1) (hr : Reserved ungrown r) :
    Reserved (ungrown && !action.grew answer) r' := by
  have hgrew : action.grew answer = true ↔ action.delta? ≠ none ∧ ¬action.Refused answer := by
    rw [hanswer]
    exact Action.grew_iff limit r
  cases h with
  | stays _ hdelta =>
    have hnot : action.grew answer = false :=
      Bool.eq_false_iff.mpr fun htrue => (hgrew.mp htrue).2 (hdelta (hgrew.mp htrue).1)
    rwa [hnot, Bool.not_false, Bool.and_true]
  | grows _ hdelta hgranted hfits _ =>
    have htrue : action.grew answer = true :=
      hgrew.mpr ⟨by rw [hdelta]; exact Option.some_ne_none _, hgranted⟩
    rw [htrue, Bool.not_true, Bool.and_false]
    exact Nat.le_trans (Nat.le_max_right _ _) (Nat.le_of_eq (Backing.allocation_grown hfits).symm)
  | writes _ hdelta _ hsize _ =>
    have hnot : action.grew answer = false :=
      Bool.eq_false_iff.mpr fun htrue => (hgrew.mp htrue).1 hdelta
    rw [hnot, Bool.not_false, Bool.and_true]
    rw [Reserved] at hr ⊢
    cases ungrown with
    | true => exact hr.trans hsize.symm
    | false => exact hr

/-! ## What the reserve is worth -/

/-- The pages in reserve are allocated: a growth that needs no others is
granted under every limit and finds its room there. -/
structure HasHeadroom (r : Region max) : Prop where
  covered : r.capacity.toNat * 65536 ≤ r.storage.allocation
  granted : ∀ limit delta, r.Within delta → ∃ r', Granted limit delta r r' ∧
    r'.capacity = r.capacity ∧ r'.storage.allocation = r.storage.allocation

/-- The pages in reserve, if there are any, are still to be allocated, all at
once: a growth that needs no others is granted where the limit allows for
them, and otherwise they are what the allocator refuses. -/
structure AwaitsHeadroom (r : Region max) : Prop where
  granted_iff : ∀ limit delta, r.Within delta → ((∃ r', Granted limit delta r r') ↔
    r.capacity = r.pages ∨ r.capacity.toNat * 65536 ≤ limit)
  refused : ∀ limit delta, r.Within delta → (¬∃ r', Granted limit delta r r') →
    OutOfMemory limit delta r r.capacity

theorem Reserved.hasHeadroom (h : Reserved false r) (hr : r.WellFormed) (hmax : max ≤ pageCeiling) :
    r.HasHeadroom where
  covered := by
    rw [← pageBytes_eq_mul]
    exact h
  granted := by
    intro limit delta hwithin
    have hfits := hr.fits_of_within hmax hwithin
    have hroom : r.toBacking.HasRoom limit delta max :=
      (hasRoom_of_within hfits hwithin).mpr (.inl h)
    refine ⟨_, granted_iff.mpr ⟨hfits, hroom, rfl⟩, target_of_within hfits hwithin, ?_⟩
    calc (r.toBacking.grown delta max).storage.allocation
        = Nat.max r.storage.allocation (pageBytes (r.toBacking.target delta max)) :=
          Backing.allocation_grown hfits
      _ = Nat.max r.storage.allocation (pageBytes r.capacity) := by
          rw [target_of_within hfits hwithin]
      _ = r.storage.allocation := Nat.max_eq_left h

/-- An allocation for the bytes alone holds the capacity only if nothing is in
reserve. -/
theorem Reserved.covers_iff (h : Reserved true r) (hr : r.WellFormed) :
    pageBytes r.capacity ≤ r.storage.allocation ↔ r.capacity = r.pages := by
  have hallocation : r.storage.allocation = pageBytes r.pages := Eq.trans h hr.size_eq
  rw [hallocation, pageBytes_le_iff]
  exact ⟨fun hle => UInt32.le_antisymm hle hr.pages_le, fun heq => UInt32.le_of_eq heq⟩

theorem Reserved.awaitsHeadroom (h : Reserved true r) (hr : r.WellFormed)
    (hmax : max ≤ pageCeiling) : r.AwaitsHeadroom := by
  have hgranted : ∀ limit delta, r.Within delta → ((∃ r', Granted limit delta r r') ↔
      r.toBacking.HasRoom limit delta max) := by
    intro limit delta hwithin
    have hfits := hr.fits_of_within hmax hwithin
    constructor
    · rintro ⟨r', hr'⟩
      exact (Region.granted_iff.mp hr').2.1
    · intro hroom
      exact ⟨_, Region.granted_iff.mpr ⟨hfits, hroom, rfl⟩⟩
  refine ⟨fun limit delta hwithin => ?_, fun limit delta hwithin hrefused => ?_⟩
  · rw [hgranted limit delta hwithin, hasRoom_of_within (hr.fits_of_within hmax hwithin) hwithin,
      h.covers_iff hr, pageBytes_eq_mul]
  · have hfits := hr.fits_of_within hmax hwithin
    rw [hgranted limit delta hwithin] at hrefused
    exact outOfMemory_iff.mpr ⟨hfits, hrefused, (target_of_within hfits hwithin).symm⟩

namespace Session

/-! ## Runs -/

/-- The copies that no growth has been granted to yet. -/
def ungrownCopy : Ledger Bool where
  made _ := false
  copied _ := true
  acted action answer _ ungrown := ungrown && !action.grew answer

theorem ungrownCopy_sound : ungrownCopy.Sound fun ungrown (r : Region max) => Reserved ungrown r where
  new := Nat.le_refl 0
  made := by
    intro limit pages r hmade
    obtain ⟨-, -, rfl⟩ := tryNew_eq_ok_iff.mp hmade
    exact Nat.le_of_eq (allocation_zeroed pages).symm
  copied _ _ := rfl
  acted limit action hr hreserved :=
    (Action.perform_effect limit action hr.size_eq).reserved rfl hreserved

/-- At every moment of every run, whatever has been copied and refused and
however the limit has changed: the reserve that a memory reports is
allocated, unless the memory is a copy that has not been granted a growth
yet, and then it is refused a growth into its reserve exactly where the
limit does not allow for all of it. -/
theorem headroom_is_real_but_for_ungrown_copies (hmax : max ≤ pageCeiling) {limit : Nat}
    {steps : List Step} {entries : List Entry} {s : Session max}
    (h : (⟨limit, []⟩ : Session max).run steps = some (entries, s)) :
    ∀ before after, steps = before ++ after →
      ∃ first s₁ rest, (⟨limit, []⟩ : Session max).run before = some (first, s₁) ∧
        entries = first ++ rest ∧
        ∀ (i : Nat) (r : Region max), s₁.regions[i]? = some r →
          ∃ ungrown, (ungrownCopy.recordAll [] before first)[i]? = some ungrown ∧
            if ungrown then r.AwaitsHeadroom else r.HasHeadroom := by
  intro before after hsteps
  obtain ⟨first, s₁, rest, hfirst, hentries, hnoted⟩ := ungrownCopy_sound.run h hsteps
  refine ⟨first, s₁, rest, hfirst, hentries, fun i r hr => ?_⟩
  obtain ⟨hwf, ungrown, hungrown, hreserved⟩ := hnoted i r hr
  refine ⟨ungrown, hungrown, ?_⟩
  cases ungrown with
  | true => exact hreserved.awaitsHeadroom hwf hmax
  | false => exact hreserved.hasHeadroom hwf hmax

/-- A copy with pages in reserve, beside its original that grows into the same
pages where nothing is granted and beside a memory that has none. -/
theorem headroom_is_real_but_for_ungrown_copies_in_sixteen :
    let steps : List Step := [.new, .new] ++ [.act 0 (.grow 1), .copy 0, .setLimit (some 0),
      .act 0 (.grow 7), .act 1 (.tryGrow 16)]
    (16 : UInt32) ≤ pageCeiling ∧
    ∃ entries s, (⟨defaultLimit, []⟩ : Session 16).run steps = some (entries, s) ∧
      ∀ (i : Nat) (r : Region 16), s.regions[i]? = some r →
        ∃ ungrown, (ungrownCopy.recordAll [] steps entries)[i]? = some ungrown ∧
          if ungrown then r.AwaitsHeadroom else r.HasHeadroom := by
  intro steps
  have hmax : (16 : UInt32) ≤ pageCeiling := by decide
  refine ⟨hmax, exists_run_of_new ?_ fun entries s hrun => ?_⟩
  · simp [Step.Names]
  · obtain ⟨first, s₁, rest, hfirst, -, hheadroom⟩ :=
      headroom_is_real_but_for_ungrown_copies hmax hrun _ [] (List.append_nil _).symm
    cases hrun.symm.trans hfirst
    exact hheadroom

end Session

end Region

end PagedMemory
