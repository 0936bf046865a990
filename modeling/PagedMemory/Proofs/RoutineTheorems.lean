/-
PagedMemory.Proofs.RoutineTheorems — what the ways of combining routines
do to their outcomes.

`Routine.outcome` is the view through which every routine is described:
the answer or the fault, and the state that is left.  There is one lemma
for each combinator, so no later proof opens a `do` block by hand, and
`Steps.run_append` takes a run apart at any of its steps.
-/
import PagedMemory.Routine

namespace PagedMemory

namespace Routine

variable {σ τ α β : Type}

@[simp] theorem outcome_pure (a : α) (s : σ) :
    outcome (pure a : Routine σ α) s = (.ok a, s) := rfl

@[simp] theorem outcome_get (s : σ) : outcome (get : Routine σ σ) s = (.ok s, s) := rfl

@[simp] theorem outcome_modify (f : σ → σ) (s : σ) :
    outcome (modify f : Routine σ Unit) s = (.ok (), f s) := rfl

/-- The second routine starts from what the first one leaves, unless that
one stopped. -/
theorem outcome_bind (m : Routine σ α) (f : α → Routine σ β) (s : σ) :
    outcome (m >>= f) s =
      match outcome m s with
      | (.ok a, s') => outcome (f a) s'
      | (.error e, s') => (.error e, s') := by
  simp only [outcome, bind, EStateM.bind]
  cases m s <;> rfl

/-- A routine whose answer is replaced by a fixed one. -/
theorem outcome_bind_pure (m : Routine σ α) (b : β) (s : σ) :
    outcome (do let _ ← m; pure b) s = ((outcome m s).1.map fun _ => b, (outcome m s).2) := by
  rw [outcome_bind]
  cases h : outcome m s with
  | mk answer s' => cases answer <;> rfl

/-- A check that looks at no state, lifted, leaves the state alone. -/
theorem outcome_liftM (check : Except Fault α) (s : σ) :
    outcome (liftM check : Routine σ α) s = (check, s) := by
  cases check <;> rfl

theorem liftM_of_ok {check : Except Fault α} {a : α} (h : check = .ok a) (s : σ) :
    (liftM check : Routine σ α) s = .ok a s := by
  rw [h]
  rfl

theorem map_of_ok {f : α → β} {m : Routine σ α} {s s' : σ} {a : α} (h : m s = .ok a s') :
    (f <$> m) s = .ok (f a) s' := by
  simp only [Functor.map, EStateM.map, h]

theorem outcome_map (f : α → β) (m : Routine σ α) (s : σ) :
    outcome (f <$> m) s = ((outcome m s).1.map f, (outcome m s).2) := by
  simp only [outcome, Functor.map, EStateM.map]
  cases m s <;> rfl

/-- A part of the state is changed as the routine changes it and nothing
else is, also when the routine stops. -/
theorem outcome_onPart (part : σ → τ) (replace : τ → σ → σ) (m : Routine τ α) (s : σ) :
    outcome (onPart part replace m) s =
      ((outcome m (part s)).1, replace (outcome m (part s)).2 s) := by
  simp only [outcome, onPart]
  cases m (part s) <;> rfl

/-- A routine is determined by its outcomes. -/
theorem eq_ok_iff_outcome {m : Routine σ α} {s s' : σ} {a : α} :
    m s = .ok a s' ↔ outcome m s = (.ok a, s') := by
  simp only [outcome]
  cases m s <;> simp

end Routine

/-! ## Runs -/

namespace Steps

variable {σ τ ε : Type} {step : σ → τ → Option (ε × σ)} {s s'' : σ} {entries : List ε}

/-- A run is its first step and a run from where that leads. -/
theorem run_cons {x : τ} {xs : List τ} :
    run step s (x :: xs) = some (entries, s'') ↔
      ∃ entry s' rest, step s x = some (entry, s') ∧ run step s' xs = some (rest, s'') ∧
        entries = entry :: rest := by
  simp only [run, Option.bind_eq_bind, Option.bind_eq_some_iff]
  constructor
  · rintro ⟨⟨entry, s'⟩, hstep, ⟨rest, s₂⟩, hrun, hpure⟩
    cases hpure
    exact ⟨entry, s', rest, hstep, hrun, rfl⟩
  · rintro ⟨entry, s', rest, hstep, hrun, rfl⟩
    exact ⟨(entry, s'), hstep, (rest, s''), hrun, rfl⟩

/-- A run of two lists of steps is a run of the first and then, from where
it ends, a run of the second. -/
theorem run_append {xs ys : List τ} :
    run step s (xs ++ ys) = some (entries, s'') ↔
      ∃ first s' second, run step s xs = some (first, s') ∧
        run step s' ys = some (second, s'') ∧ entries = first ++ second := by
  induction xs generalizing s entries with
  | nil =>
    constructor
    · intro h
      exact ⟨[], s, entries, rfl, h, rfl⟩
    · rintro ⟨first, s', second, hfirst, hsecond, rfl⟩
      cases hfirst
      exact hsecond
  | cons x xs ih =>
    simp only [List.cons_append, run_cons]
    constructor
    · rintro ⟨entry, s₁, rest, hstep, hrun, rfl⟩
      obtain ⟨first, s', second, hfirst, hsecond, rfl⟩ := ih.mp hrun
      exact ⟨entry :: first, s', second, ⟨entry, s₁, first, hstep, hfirst, rfl⟩, hsecond, rfl⟩
    · rintro ⟨_, s', second, ⟨entry, s₁, first, hstep, hfirst, rfl⟩, hsecond, rfl⟩
      exact ⟨entry, s₁, first ++ second, hstep, ih.mpr ⟨first, s', second, hfirst, hsecond, rfl⟩,
        rfl⟩

end Steps

end PagedMemory
