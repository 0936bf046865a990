/-
PagedMemory.Error — the refusals that the operations on a memory answer,
and their wording.

A refusal is an ordinary answer that changes nothing, unlike a fault, which
stops a computation.

  - `GrowError`         — a memory could not grow.
  - `AccessError`       — a data segment does not fit the committed memory.
  - `ConstructionError` — a memory could not be made.

`message` is the text for a user, `shape` the value as diagnostics show it.
-/
import PagedMemory.Text.Shape

namespace PagedMemory

/-- What a failed growth answers where only a page count can be answered.
It is larger than every page count that a memory can have. -/
def growFailed : UInt32 := 0x0FFFFFFF

/-- Why a memory did not grow. -/
inductive GrowError where
  /-- The committed pages and the delta together exceed the ceiling. -/
  | exceedsCeiling (requested : UInt64) (max : UInt32)
  /-- The allocator refused room for this many pages. -/
  | outOfMemory (pages : UInt32)
  deriving DecidableEq, Repr

/-- Why a data segment was not copied. -/
inductive AccessError where
  | outOfBounds
  deriving DecidableEq, Repr

/-- Why a memory was not made. -/
inductive ConstructionError where
  /-- More pages are to be committed at the start than are ever allowed. -/
  | initialPagesExceedMax (initial max : UInt32)
  /-- The allocator refused room for the initial pages. -/
  | outOfMemory (pages : UInt32)
  deriving DecidableEq, Repr

/-- The page count that stands for a failed growth, whatever its reason. -/
def GrowError.code (_ : GrowError) : UInt32 := growFailed

/-! ## Wording -/

/-- The text of a failed growth. -/
def GrowError.message : GrowError → String
  | .exceedsCeiling requested max =>
    "memory.grow to " ++ toString requested.toNat ++ " pages exceeds the "
      ++ toString max.toNat ++ "-page ceiling"
  | .outOfMemory pages =>
    "could not reserve backing storage for " ++ toString pages.toNat ++ " pages"

/-- The text of a refused segment. -/
def AccessError.message : AccessError → String
  | .outOfBounds => "access outside committed linear memory"

/-- The text of a failed construction. -/
def ConstructionError.message : ConstructionError → String
  | .initialPagesExceedMax initial max =>
    "initial memory of " ++ toString initial.toNat ++ " pages exceeds maximum of "
      ++ toString max.toNat
  | .outOfMemory pages =>
    "could not allocate initial memory of " ++ toString pages.toNat ++ " pages"

/-! ## Diagnostics -/

/-- A failed growth with its numbers. -/
def GrowError.shape : GrowError → Shape
  | .exceedsCeiling requested max =>
    .record "ExceedsCeiling"
      [("requested", .number requested.toNat), ("max", .number max.toNat)]
  | .outOfMemory pages => .record "OutOfMemory" [("pages", .number pages.toNat)]

/-- A refused segment. -/
def AccessError.shape : AccessError → Shape
  | .outOfBounds => .atom "OutOfBounds"

/-- A failed construction with its numbers. -/
def ConstructionError.shape : ConstructionError → Shape
  | .initialPagesExceedMax initial max =>
    .record "MemoryInitialPagesExceedsMax"
      [("initial", .number initial.toNat), ("max", .number max.toNat)]
  | .outOfMemory pages => .record "OutOfMemory" [("pages", .number pages.toNat)]

end PagedMemory
