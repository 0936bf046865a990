/-
PagedMemory.Backing.Basic — growth of a memory whose parts its owner keeps:
the storage, the committed pages and the reserved pages.

  - `GrowPlan`         — the page count and the capacity that a growth is
                         after.  `GrowPlan.make` decides it from the counts
                         alone, so a request beyond the ceiling is refused
                         before any allocator is asked.
  - `Backing.tryGrow`  — plan, reserve, then commit the new pages as zeros.
                         A refusal leaves everything as it was.
  - `Backing.grow`     — the same, with the sentinel `growFailed` in place
                         of a reason.

The owner is expected to keep as many bytes committed as there are pages.
Where it does not, the bytes past the committed pages are dropped before
the new ones are added, and missing ones count as zero.
-/
import PagedMemory.Capacity
import PagedMemory.Error
import PagedMemory.Storage

namespace PagedMemory

/-! ## Planning a growth -/

/-- The counts after a growth. -/
structure GrowPlan where
  pages : UInt32
  capacity : UInt32
  deriving DecidableEq, Repr

/-- The plan for `delta` more pages.  The ceiling is `max`, and never more
than a 32-bit address can reach.  The reserve changes only when it does not
cover the new pages already. -/
def GrowPlan.make (pages capacity delta max : UInt32) :
    Except Fault (Except GrowError GrowPlan) := do
  let ceiling := min max pageCeiling
  let requested ← Checked.add pages.toUInt64 delta.toUInt64
  if requested > ceiling.toUInt64 then
    return .error (.exceedsCeiling requested ceiling)
  let newPages := requested.toUInt32
  if capacity < newPages then
    let newCapacity ← nextCapacity capacity newPages ceiling
    return .ok ⟨newPages, newCapacity⟩
  return .ok ⟨newPages, capacity⟩

/-! ## Growing -/

/-- A memory as its owner keeps it. -/
structure Backing where
  /-- The committed bytes and their allocation. -/
  storage : Storage
  /-- The committed pages. -/
  pages : UInt32
  /-- The reserved pages. -/
  capacity : UInt32
  deriving DecidableEq

namespace Backing

/-- The memory after a plan for which there is room: the committed bytes
are kept and the new pages are zero. -/
def commit (plan : GrowPlan) (roomy : Storage) (b : Backing) : Backing where
  storage := (roomy.truncate (pageBytes b.pages)).resize (pageBytes plan.pages)
  pages := plan.pages
  capacity := plan.capacity

/-- `delta` more pages under the ceiling `max`.  The answer is the page
count before, or why the memory did not grow. -/
def tryGrow (limit : Nat) (delta max : UInt32) : Routine Backing (Except GrowError UInt32) := do
  let b ← get
  match ← GrowPlan.make b.pages b.capacity delta max with
  | .error refusal => return .error refusal
  | .ok plan =>
    match b.storage.reserve limit (pageBytes plan.capacity) with
    | none => return .error (.outOfMemory plan.capacity)
    | some roomy =>
      set (commit plan roomy b)
      return .ok b.pages

/-- The page count that a growth answers where reasons cannot be told. -/
def grownOrCode : Except GrowError UInt32 → UInt32
  | .ok old => old
  | .error refusal => refusal.code

/-- `delta` more pages under the ceiling `max`.  The answer is the page
count before, or `growFailed`. -/
def grow (limit : Nat) (delta max : UInt32) : Routine Backing UInt32 :=
  grownOrCode <$> tryGrow limit delta max

/-- A routine on the committed bytes alone. -/
def onBytes {α : Type} : Routine Bytes α → Routine Backing α :=
  Routine.onPart (·.storage.bytes) fun bytes b => { b with storage := { b.storage with bytes } }

/-- Every committed byte replaced by one and the same. -/
def fill (x : UInt8) : Routine Backing Unit :=
  onBytes (modify (·.fill x))

end Backing

end PagedMemory
