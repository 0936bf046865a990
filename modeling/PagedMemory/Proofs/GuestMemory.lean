/-
PagedMemory.Proofs.GuestMemory — what holds of a guest's memory whatever is
done to it.

  - `Routine.trace_keeps`   — what every step keeps, every run keeps.
  - `Instance.outcome_onBytes`, `Instance.outcome_onMemory` — a routine on a
                              part of an instance.
  - `Instance.HasOnePage`   — a guest that may have one page has exactly
                              one: it has it from the start, can get no
                              other, and never loses it.
-/
import PagedMemory.Proofs.OneTimeInstallation
import PagedMemory.Proofs.RegionInvariant

namespace PagedMemory

/-! ## Runs of routines -/

/-- A property that every step keeps holds at the end of every run. -/
theorem Routine.trace_keeps {σ τ α β : Type} {perform : τ → Routine σ α} {look : σ → β}
    {P : σ → Prop} (hstep : ∀ x s, P s → P ((perform x).outcome s).2) (steps : List τ) {s : σ}
    (hs : P s) : P (trace perform look s steps).2 := by
  induction steps generalizing s with
  | nil => exact hs
  | cons x steps ih => exact ih (hstep x s hs)

namespace Instance

variable {max : UInt32} {γ : Type}

/-! ## Routines on a part -/

theorem outcome_onMemory {α : Type} (m : Routine (Region max) α) (i : Instance max γ) :
    (onMemory m).outcome i =
      ((m.outcome i.memory).1, { i with memory := (m.outcome i.memory).2 }) :=
  Routine.outcome_onPart ..

theorem outcome_onBytes {α : Type} (m : Routine Bytes α) (i : Instance max γ) :
    (onBytes m).outcome i =
      ((m.outcome i.memory.bytes).1,
        { i with memory := i.memory.withBytes (m.outcome i.memory.bytes).2 }) := by
  rw [onBytes, outcome_onMemory, Region.outcome_onBytes]

/-! ## One page -/

/-- A memory in order, with exactly one page. -/
structure HasOnePage (i : Instance 1 γ) : Prop where
  wellFormed : i.memory.WellFormed
  pages_eq : i.memory.pages = 1

variable {i : Instance 1 γ}

theorem HasOnePage.size_eq (h : i.HasOnePage) : i.memory.bytes.size = 65536 := by
  rw [h.wellFormed.size_eq, h.wellFormed.activeSize_eq, h.pages_eq]
  rfl

theorem HasOnePage.size_lt (h : i.HasOnePage) : i.memory.bytes.size < 2 ^ 32 := by
  rw [h.size_eq]
  decide

/-- Actions on the memory neither add a page nor take it away. -/
theorem HasOnePage.perform (h : i.HasOnePage) (limit : Nat) (action : Region.Action) :
    HasOnePage ((onMemory (action.perform limit)).outcome i).2 := by
  rw [outcome_onMemory]
  have heffect := Region.Action.perform_effect limit action h.wellFormed.size_eq
  have hwf := heffect.wellFormed h.wellFormed
  have hpages := heffect.advances.pages_le
  rw [h.pages_eq] at hpages
  exact ⟨hwf, UInt32.le_antisymm (UInt32.le_trans hwf.pages_le hwf.capacity_le) hpages⟩

/-- Other bytes, as many as there were, are a page as well. -/
theorem HasOnePage.withBytes (h : i.HasOnePage) {b' : Bytes}
    (hsize : b'.size = i.memory.bytes.size) :
    HasOnePage { i with memory := i.memory.withBytes b' } :=
  ⟨h.wellFormed.withBytes hsize, h.pages_eq⟩

theorem tryNew_onePage {limit : Nat} (h : 65536 ≤ limit) :
    (Region.tryNew limit 1 : Except _ (Region 1)) = .ok (Region.zeroed 1) :=
  Region.tryNew_eq_ok_iff.mpr ⟨UInt32.le_refl 1, h, rfl⟩

/-- A guest with one page is made, and nothing is installed in it. -/
theorem tryNewInstalled_eq {limit : Nat} (h : 65536 ≤ limit) (globals : γ) :
    (tryNewInstalled limit 1 globals : Except _ (Instance 1 γ)) =
      .ok ⟨Region.zeroed 1, globals, .initialized⟩ := by
  have hmemory := tryNew_onePage h
  have hfresh : (tryNew limit 1 globals : Except _ (Instance 1 γ)) =
      .ok ⟨Region.zeroed 1, globals, .uninitialized⟩ := by
    simp [tryNew, hmemory, bind, Except.bind, pure, Except.pure, Gate.new]
  simp only [tryNewInstalled, hfresh, bind, Except.bind]
  rw [outcome_init_of_uninitialized rfl]
  rfl

theorem hasOnePage_zeroed (globals : γ) (gate : Gate) :
    HasOnePage ⟨Region.zeroed 1, globals, gate⟩ where
  wellFormed := .of_tryNew (tryNew_onePage (Nat.le_refl _))
  pages_eq := rfl

/-- A guest that is made with its page has it after every run of steps that
keep it. -/
theorem exists_tryNewInstalled {τ α β : Type} {perform : τ → Routine (Instance 1 Unit) α}
    {look : Instance 1 Unit → β}
    (hstep : ∀ step i, HasOnePage i → HasOnePage ((perform step).outcome i).2) :
    ∃ i₀, (tryNewInstalled defaultLimit 1 () : Except _ (Instance 1 Unit)) = .ok i₀ ∧
      ∀ steps, HasOnePage (Routine.trace perform look i₀ steps).2 :=
  ⟨_, tryNewInstalled_eq (by decide) (), fun steps =>
    Routine.trace_keeps hstep steps (hasOnePage_zeroed () .initialized)⟩

end Instance

end PagedMemory
