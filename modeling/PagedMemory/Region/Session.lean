/-
PagedMemory.Region.Session — several linear memories under one allocator.

Memories are numbered from zero in the order they are made; a construction
that is refused takes no number.  Every step acts on one memory or makes a
new one.  A step that names a memory that was never made has no meaning,
and neither has a run that contains it.
-/
import PagedMemory.Region.Action
import PagedMemory.Routine

namespace PagedMemory

namespace Region

/-- The memories made so far and the allocator's limit. -/
structure Session (max : UInt32) where
  limit : Nat := defaultLimit
  regions : List (Region max) := []

namespace Session

/-- A step of a session. -/
inductive Step where
  /-- An empty memory. -/
  | new
  /-- A memory with some pages committed. -/
  | tryNew (pages : UInt32)
  /-- A copy of a memory. -/
  | copy (source : Nat)
  /-- An action on a memory. -/
  | act (target : Nat) (action : Action)
  /-- A new limit for the allocator, or the default one again. -/
  | setLimit (bytes : Option Nat)

/-- What a step leads to. -/
inductive Result where
  | made (number : Nat)
  | refused (e : ConstructionError)
  | acted (answer : Except Fault Answer)
  | limitSet

/-- A result together with the sizes of the memory acted on or made. -/
structure Entry where
  result : Result
  readings : Option Readings

variable {max : UInt32}

/-- A memory is added under the next number. -/
def add (r : Region max) (s : Session max) : Entry × Session max :=
  (⟨.made s.regions.length, some r.readings⟩, { s with regions := s.regions ++ [r] })

/-- One step, unless it names a memory that was never made. -/
def step (s : Session max) : Step → Option (Entry × Session max)
  | .new => some (s.add Region.new)
  | .tryNew pages =>
    match Region.tryNew s.limit pages with
    | .error e => some (⟨.refused e, none⟩, s)
    | .ok r => some (s.add r)
  | .copy source => do
    let r ← s.regions[source]?
    return s.add r.copy
  | .act target action => do
    let r ← s.regions[target]?
    let (answer, r') := (action.perform s.limit).outcome r
    return (⟨.acted answer, some r'.readings⟩, { s with regions := s.regions.set target r' })
  | .setLimit bytes => some (⟨.limitSet, none⟩, { s with limit := bytes.getD defaultLimit })

/-- All steps in order, with an entry for each. -/
def run (s : Session max) (steps : List Step) : Option (List Entry × Session max) :=
  Steps.run step s steps

end Session

end Region

end PagedMemory
