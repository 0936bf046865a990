/-
PagedMemory.Proofs.CapacityOfOrigin — the capacity of a memory is a function
of the pages that it was made with and the pages that it has now, never of
the growths in between.

`initialPages` is the ledger of the pages that memories were made with; a
copy takes over what its original was made with.  The capacity is what the
policy answers when it is asked once, from there to the pages of now.  A
growth asks it from the capacity of the moment; `covering_covering` says
that this makes no difference, also where the ceiling has cut an earlier
answer short.  The declared maximum is at most `pageCeiling` here, so that it
is the ceiling of every growth.
-/
import PagedMemory.Proofs.RegionOutcomes
import PagedMemory.Proofs.SideBySide

namespace PagedMemory

/-! ## The policy, asked once -/

/-- A growth may ask the policy also where the reserve covers the new pages. -/
theorem targetCapacity_eq_covering {pages capacity delta max : UInt32} (hmax : max ≤ pageCeiling)
    (hcapacity : capacity ≤ max) :
    targetCapacity pages capacity delta max = covering capacity (pages + delta) max := by
  have hceiling : min max pageCeiling = max := if_pos hmax
  by_cases hlt : capacity < pages + delta
  · rw [targetCapacity_of_lt hlt, hceiling]
  · have hle : (pages + delta).toNat ≤ capacity.toNat :=
      UInt32.le_iff_toNat_le.mp (UInt32.not_lt.mp hlt)
    rw [targetCapacity_of_not_lt hlt]
    exact (covering_of_le hle (UInt32.le_iff_toNat_le.mp hcapacity)).symm

namespace Region

variable {max : UInt32}

/-! ## Actions -/

theorem Action.Effect.capacity_eq {limit : Nat} {action : Action} {answer : Except Fault Answer}
    {r r' : Region max} {initial : UInt32} (h : action.Effect limit r answer r')
    (hmax : max ≤ pageCeiling) (hr : r.WellFormed)
    (hcapacity : r.capacity = covering initial r.pages max) :
    r'.capacity = covering initial r'.pages max := by
  cases h with
  | stays _ _ => exact hcapacity
  | @grows delta _ _ _ hfits _ =>
    have hle : r.pages.toNat ≤ (r.pages + delta).toNat := by
      rw [GrowPlan.toNat_add_of_fits hfits]
      exact Nat.le_add_right _ _
    calc r.toBacking.target delta max
        = covering r.capacity (r.pages + delta) max :=
          targetCapacity_eq_covering hmax hr.capacity_le
      _ = covering (covering initial r.pages max) (r.pages + delta) max := by rw [← hcapacity]
      _ = covering initial (r.pages + delta) max := covering_covering hle
  | writes _ _ _ _ _ => exact hcapacity

namespace Session

/-! ## Runs -/

/-- The pages that a memory, or the original that it was copied from, was
made with. -/
def initialPages : Ledger UInt32 where
  made pages := pages
  copied initial := initial
  acted _ _ _ initial := initial

theorem initialPages_sound (hmax : max ≤ pageCeiling) :
    initialPages.Sound fun initial (r : Region max) =>
      r.capacity = covering initial r.pages max where
  new := (covering_of_le (Nat.le_refl _) (Nat.zero_le _)).symm
  made := by
    intro limit pages r hmade
    obtain ⟨hle, -, rfl⟩ := tryNew_eq_ok_iff.mp hmade
    exact (covering_of_le (Nat.le_refl _) (UInt32.le_iff_toNat_le.mp hle)).symm
  copied _ hcapacity := hcapacity
  acted limit action hr hcapacity :=
    (Action.perform_effect limit action hr.size_eq).capacity_eq hmax hr hcapacity

/-- At every moment of every run, the capacity of a memory is the answer of
the policy to one question: from the pages that the memory was made with to
those that it has. -/
theorem capacity_of_initial_pages (hmax : max ≤ pageCeiling) {limit : Nat} {steps : List Step}
    {entries : List Entry} {s : Session max}
    (h : (⟨limit, []⟩ : Session max).run steps = some (entries, s)) :
    ∀ before after, steps = before ++ after →
      ∃ first s₁ rest, (⟨limit, []⟩ : Session max).run before = some (first, s₁) ∧
        entries = first ++ rest ∧
        ∀ (i : Nat) (r : Region max), s₁.regions[i]? = some r →
          ∃ initial, (initialPages.recordAll [] before first)[i]? = some initial ∧
            nextCapacity initial r.pages max = .ok r.capacity := by
  intro before after hsteps
  obtain ⟨first, s₁, rest, hfirst, hentries, hnoted⟩ := (initialPages_sound hmax).run h hsteps
  refine ⟨first, s₁, rest, hfirst, hentries, fun i r hr => ?_⟩
  obtain ⟨-, initial, hinitial, hcapacity⟩ := hnoted i r hr
  refine ⟨initial, hinitial, ?_⟩
  rw [nextCapacity_eq, hcapacity]

/-- Growths from nothing and of a copy, one of them refused by the allocator
and one at the ceiling. -/
theorem capacity_of_initial_pages_in_sixteen :
    let steps : List Step := [.new, .new] ++ [.act 0 (.grow 1), .copy 0, .act 0 (.tryGrow 9),
      .setLimit (some 0), .act 1 (.grow 3), .act 0 (.tryGrow 7)]
    (16 : UInt32) ≤ pageCeiling ∧
    ∃ entries s, (⟨defaultLimit, []⟩ : Session 16).run steps = some (entries, s) ∧
      ∀ (i : Nat) (r : Region 16), s.regions[i]? = some r →
        ∃ initial, (initialPages.recordAll [] steps entries)[i]? = some initial ∧
          nextCapacity initial r.pages 16 = .ok r.capacity := by
  intro steps
  have hmax : (16 : UInt32) ≤ pageCeiling := by decide
  refine ⟨hmax, exists_run_of_new ?_ fun entries s hrun => ?_⟩
  · simp [Step.Names]
  · obtain ⟨first, s₁, rest, hfirst, -, hcapacity⟩ :=
      capacity_of_initial_pages hmax hrun _ [] (List.append_nil _).symm
    cases hrun.symm.trans hfirst
    exact hcapacity

end Session

end Region

end PagedMemory
