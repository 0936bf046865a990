/-
PagedMemory.Routine — how a computation on a memory stops early, and the
state-passing computations that can stop so.

  - `Fault`        — the causes: a broken alignment promise, an
                     arithmetic overflow, a window outside the bytes, a
                     byte string of the wrong length, an installer that
                     gave up.
  - `Routine σ α`  — a computation on a state `σ` that ends with an `α` or
                     stops with a fault.  A fault does not undo anything:
                     both ends carry the state that was reached.
  - `Routine.attempt`, `Routine.onPart` — running a routine to an ordinary
                     value, and running it on a part of a larger state.
  - `Routine.trace` — a list of routines one after the other: a fault in one
                     is its answer and the next goes on from the state that
                     was reached.
  - `Steps.run`    — steps that may have no meaning, such as one that names a
                     thing that was never made; then the whole run has none.
-/
namespace PagedMemory

/-! ## Faults -/

/-- Why a computation stopped. -/
inductive Fault where
  /-- An offset is no multiple of the alignment promised for it. -/
  | misaligned
  /-- The exact result of an addition, subtraction or multiplication does
  not fit its word. -/
  | overflow
  /-- A window does not lie inside the bytes it is taken from. -/
  | outOfBounds
  /-- A byte string is not as long as the word read from it or written
  into it. -/
  | lengthMismatch
  /-- An installer gave up. -/
  | installerStopped
  deriving DecidableEq, Repr

/-- A sequence of checks answers when each of them does. -/
theorem Fault.bind_eq_ok {α β : Type} {check : Except Fault α} {f : α → Except Fault β} {b : β} :
    (check >>= f) = .ok b ↔ ∃ a, check = .ok a ∧ f a = .ok b := by
  cases check <;> simp [bind, Except.bind]

/-! ## Routines -/

/-- A computation on a state `σ` that may stop with a fault.  Whatever it
changed before the fault stays changed. -/
abbrev Routine (σ α : Type) : Type := EStateM Fault σ α

namespace Routine

variable {σ τ α β : Type}

/-- A check that looks at no state, as a routine. -/
def ofExcept (check : Except Fault α) : Routine σ α := fun s =>
  match check with
  | .ok a => .ok a s
  | .error f => .error f s

instance : MonadLift (Except Fault) (Routine σ) where
  monadLift := ofExcept

/-- A check that looks at the state and leaves it alone. -/
def reading (look : σ → Except Fault α) : Routine σ α := fun s =>
  match look s with
  | .ok a => .ok a s
  | .error f => .error f s

/-- A routine on a part of the state: `part` takes the part out and
`replace` puts it back, also when the routine stops half way. -/
def onPart (part : σ → τ) (replace : τ → σ → σ) (m : Routine τ α) : Routine σ α := fun s =>
  match m (part s) with
  | .ok a t => .ok a (replace t s)
  | .error f t => .error f (replace t s)

/-- A fault becomes an ordinary answer, so the computation goes on from the
state that was reached. -/
def attempt (m : Routine σ α) : Routine σ (Except Fault α) := fun s =>
  match m s with
  | .ok a s' => .ok (.ok a) s'
  | .error f s' => .ok (.error f) s'

/-- The answer of a routine and the state it leaves. -/
def outcome (m : Routine σ α) (s : σ) : Except Fault α × σ :=
  match m s with
  | .ok a s' => (.ok a, s')
  | .error f s' => (.error f, s')

@[simp] theorem ofExcept_ok (a : α) (s : σ) : ofExcept (.ok a) s = .ok a s := rfl

@[simp] theorem ofExcept_error (f : Fault) (s : σ) :
    (ofExcept (.error f) : Routine σ α) s = .error f s := rfl

/-- A routine that ends hands its answer and its state to the next. -/
theorem bind_of_ok {m : Routine σ α} {f : α → Routine σ β} {s s' : σ} {a : α}
    (h : m s = .ok a s') : (m >>= f) s = f a s' := by
  simp only [bind, EStateM.bind, h]

/-- A check never changes the state. -/
theorem outcome_ofExcept (check : Except Fault α) (s : σ) :
    outcome (ofExcept check) s = (check, s) := by
  cases check <;> rfl

/-- A reading never changes the state. -/
theorem outcome_reading (look : σ → Except Fault α) (s : σ) :
    outcome (reading look) s = (look s, s) := by
  simp only [outcome, reading]
  cases look s <;> rfl

end Routine

/-! ## Lists of steps -/

/-- All steps in order with an entry for each, if all of them have a
meaning. -/
def Steps.run {σ τ ε : Type} (step : σ → τ → Option (ε × σ)) :
    σ → List τ → Option (List ε × σ)
  | s, [] => some ([], s)
  | s, first :: rest => do
    let (entry, s') ← step s first
    let (entries, s'') ← run step s' rest
    return (entry :: entries, s'')

/-- The outcome of every routine in turn, each with what `look` sees of the
state it leaves. -/
def Routine.trace {σ τ α β : Type} (perform : τ → Routine σ α) (look : σ → β) :
    σ → List τ → List (Except Fault α × β) × σ
  | s, [] => ([], s)
  | s, first :: rest =>
    let (answer, s') := (perform first).outcome s
    let (entries, s'') := trace perform look s' rest
    ((answer, look s') :: entries, s'')

end PagedMemory
