/-
PagedMemory.Region.Basic — a linear memory with a declared maximum.

`Region max` owns its storage and its page counts.  At every moment the
first `pages` pages are committed: exactly they can be loaded and stored.
Pages in reserve cannot be reached before a growth commits them.

  - `Region.new`, `Region.tryNew` — an empty memory, and one with zeroed
                              pages committed from the start.
  - `Region.copy`           — the same contents in a storage of their own.
                              The copy reports the same reserve, but its
                              allocation is only as large as its bytes.
  - `Region.tryGrow`, `Region.grow` — more pages.
  - `Region.load`, `Region.store` — words at any offset.
  - `Region.initData`       — a data segment, copied whole or not at all.
-/
import PagedMemory.Access
import PagedMemory.Backing.Basic
import PagedMemory.Text.Shape

namespace PagedMemory

/-- A linear memory that never holds more than `max` pages. -/
structure Region (max : UInt32) extends Backing
  deriving DecidableEq

namespace Region

variable {max : UInt32}

/-! ## Making a memory -/

/-- No pages at all. -/
def new : Region max := ⟨Storage.empty, 0, 0⟩

/-- The given number of zeroed pages. -/
def tryNew (limit : Nat) (initial : UInt32) : Except ConstructionError (Region max) :=
  if initial > max then .error (.initialPagesExceedMax initial max)
  else
    match Storage.empty.reserve limit (pageBytes initial) with
    | none => .error (.outOfMemory initial)
    | some roomy => .ok ⟨roomy.resize (pageBytes initial), initial, initial⟩

/-- The same contents and counts in a storage of their own. -/
def copy (r : Region max) : Region max := { r with storage := r.storage.copy }

/-! ## Sizes -/

/-- The committed bytes. -/
def bytes (r : Region max) : Bytes := r.storage.bytes

/-- The committed size in bytes. -/
def activeSize (r : Region max) : Nat := pageBytes r.pages

/-! ## Growing -/

/-- A routine on the storage and the counts. -/
def onBacking {α : Type} : Routine Backing α → Routine (Region max) α :=
  Routine.onPart (·.toBacking) fun b _ => ⟨b⟩

/-- `delta` more pages: the page count before, or why not. -/
def tryGrow (limit : Nat) (delta : UInt32) : Routine (Region max) (Except GrowError UInt32) :=
  onBacking (Backing.tryGrow limit delta max)

/-- `delta` more pages: the page count before, or `growFailed`. -/
def grow (limit : Nat) (delta : UInt32) : Routine (Region max) UInt32 :=
  onBacking (Backing.grow limit delta max)

/-! ## Contents -/

/-- A routine on the committed bytes. -/
def onBytes {α : Type} (m : Routine Bytes α) : Routine (Region max) α :=
  onBacking (Backing.onBytes m)

/-- The word at an offset. -/
def load (w : Width) (r : Region max) (offset : UInt64) : Except Fault (Word w) :=
  Access.load w r.bytes offset

/-- A word put at an offset. -/
def store (w : Width) (offset : UInt64) (v : Word w) : Routine (Region max) Unit :=
  onBytes (Access.store w offset v)

/-- Every committed byte replaced by one and the same. -/
def fill (x : UInt8) : Routine (Region max) Unit :=
  onBacking (Backing.fill x)

/-- A data segment copied to an offset.  It is refused, and nothing is
copied, unless its end is a 64-bit offset and all of it lies inside the
committed pages and inside the storage. -/
def initData (offset : UInt64) (data : List UInt8) :
    Routine (Region max) (Except AccessError Unit) := do
  let r ← get
  let stop := offset.toNat + data.length
  if stop ≥ UInt64.size then return .error .outOfBounds
  if stop > r.activeSize then return .error .outOfBounds
  if stop > r.bytes.size then return .error .outOfBounds
  onBytes (modify (·.overwrite offset.toNat data))
  return .ok ()

/-! ## Showing -/

/-- The page counts as they are shown in diagnostics. -/
def shape (r : Region max) : Shape :=
  .record "LinearMemory"
    [("pages", .number r.pages.toNat), ("capacity", .number r.capacity.toNat),
      ("max_pages", .number max.toNat)]

end Region

end PagedMemory
