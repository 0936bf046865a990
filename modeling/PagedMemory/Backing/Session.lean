/-
PagedMemory.Backing.Session — steps on a memory whose parts its owner
keeps, including the owner's own changes to those parts.

The owner may set the counts, shorten the storage and append to it; such
steps can leave more or fewer bytes than the committed pages, and growth
has to cope with that.
-/
import PagedMemory.Access
import PagedMemory.Backing.Basic
import PagedMemory.Answer
import PagedMemory.Routine

namespace PagedMemory

namespace Backing

/-- A step on a memory whose parts its owner keeps. -/
inductive Step where
  | inspect (i : Inspection)
  | grow (delta max : UInt32)
  | access (c : Access.Call)
  | fill (x : UInt8)
  /-- The counts set by hand, each if it is given. -/
  | setCounts (pages capacity : Option UInt32)
  /-- The storage shortened; its allocation stays. -/
  | truncate (length : Nat)
  /-- Bytes added at the end of the storage. -/
  | append (data : List UInt8)
  /-- A new limit for the allocator, or the default one again. -/
  | setLimit (bytes : Option Nat)

/-- A memory and the allocator's limit. -/
structure Session where
  limit : Nat
  backing : Backing

/-- A memory of `length` equal bytes and any counts. -/
def Session.start (length : Nat) (x : UInt8) (pages capacity : UInt32) : Session :=
  ⟨defaultLimit, ⟨Storage.ofBytes (Bytes.replicate length x), pages, capacity⟩⟩

/-- A routine on the memory. -/
def Session.onBacking {α : Type} : Routine Backing α → Routine Session α :=
  Routine.onPart (·.backing) fun backing s => { s with backing }

/-- A change to the storage alone. -/
def Session.onStorage (change : Storage → Storage) : Routine Session Answer := do
  modify fun s => { s with backing.storage := change s.backing.storage }
  return .done

/-- What a step answers and does. -/
def Step.perform : Step → Routine Session Answer
  | .inspect i => do
    let s ← get
    return i.answer s.backing.storage.bytes
  | .grow delta max => do
    let s ← get
    let answer ← Session.onBacking (Backing.grow s.limit delta max)
    return .number answer.toNat
  | .access c => Session.onBacking (onBytes c.run)
  | .fill x => do
    Session.onBacking (Backing.fill x)
    return .done
  | .setCounts pages capacity => do
    modify fun s => { s with
      backing.pages := pages.getD s.backing.pages
      backing.capacity := capacity.getD s.backing.capacity }
    return .done
  | .truncate length => Session.onStorage (·.truncate length)
  | .append data => Session.onStorage (·.append data.toByteArray)
  | .setLimit bytes => do
    modify fun s => { s with limit := bytes.getD defaultLimit }
    return .done

/-- The counts and the length of the storage. -/
structure Readings where
  pages : UInt32
  capacity : UInt32
  length : Nat
  deriving DecidableEq, Repr

/-- The counts and the length of the storage. -/
def readings (b : Backing) : Readings := ⟨b.pages, b.capacity, b.storage.bytes.size⟩

/-- All steps in order, each with the counts it leaves. -/
def Session.run (s : Session) (steps : List Step) :
    List (Except Fault Answer × Readings) × Session :=
  Routine.trace Step.perform (·.backing.readings) s steps

end Backing

end PagedMemory
