/-
PagedMemory.Guest.Segments — a guest that is set up from segments.

Its element segment fills three of the four slots of a function table.  Of
its two data segments the first is a greeting and the second does not fit
one page: it is refused whole, the refusal is recorded, and the guest
carries on.

  - `installElements`, `installData` — the installers.
  - `init`      — the installers, at most once.
  - `apply`     — a call through the table.
  - `greeting`  — the greeting as the memory holds it now.
-/
import PagedMemory.Instance.Basic
import PagedMemory.Region.Action
import PagedMemory.Routine

namespace PagedMemory

namespace Guest

namespace Segments

/-! ## Data of the guest -/

/-- The largest page count. -/
def maxPages : UInt32 := 1

/-- The address of the greeting. -/
def greetingAddress : UInt64 := 0x100

/-- The greeting, in ASCII. -/
def greetingBytes : List UInt8 :=
  [0x68, 0x65, 0x6c, 0x6c, 0x6f, 0x2c, 0x20, 0x70, 0x65, 0x6c, 0x61, 0x67, 0x6f, 0x73]

/-- The address of the second data segment. -/
def tailAddress : UInt64 := 0xFFFC

/-- The second data segment, one byte longer than the room behind its
address in a page. -/
def tailBytes : List UInt8 := [0xDE, 0xAD, 0xBE, 0xEF, 0x00]

/-- The globals of the guest: a function table, and what the installers
record about themselves. -/
structure Globals where
  /-- Numbers of functions. -/
  table : Vector (Option UInt32) 4 := #v[none, none, none, none]
  /-- How often each installer has been started. -/
  elementRuns : UInt32 := 0
  dataRuns : UInt32 := 0
  /-- How many starts there had been, of either, when each installer was
  last started. -/
  elementOrder : UInt32 := 0
  dataOrder : UInt32 := 0
  /-- The last refusal of a data segment. -/
  dataFault : Option AccessError := none
  deriving DecidableEq

end Segments

/-- A guest with a table and two data segments. -/
abbrev Segments : Type := Instance Segments.maxPages Segments.Globals

namespace Segments

variable {ω : Type}

/-! ## Installing -/

/-- A change to the globals. -/
def onGlobals (change : Globals → Globals) : Installer maxPages Globals ω Unit :=
  modify fun s => { s with globals := change s.globals }

/-- A data segment copied into the memory. -/
def copySegment (address : UInt64) (data : List UInt8) :
    Installer maxPages Globals ω (Except AccessError Unit) :=
  Routine.onPart (·.memory) (fun memory s => { s with memory }) (Region.initData address data)

/-- Slots 0, 1 and 2 of the table filled. -/
def fillTable (table : Vector (Option UInt32) 4) : Vector (Option UInt32) 4 :=
  ((table.set 0 (some 0)).set 1 (some 1)).set 2 (some 2)

/-- The element segment. -/
def installElements : Installer maxPages Globals ω Unit := do
  let s ← get
  let runs ← Checked.add s.globals.elementRuns 1
  onGlobals ({ · with elementRuns := runs })
  let order ← Checked.add runs s.globals.dataRuns
  onGlobals fun g => { g with elementOrder := order, table := fillTable g.table }

/-- The data segments in order; the first that is refused is recorded and
ends the installation. -/
def installData : Installer maxPages Globals ω Unit := do
  let s ← get
  let runs ← Checked.add s.globals.dataRuns 1
  onGlobals ({ · with dataRuns := runs })
  let order ← Checked.add s.globals.elementRuns runs
  onGlobals ({ · with dataOrder := order })
  match ← copySegment greetingAddress greetingBytes with
  | .error e => onGlobals ({ · with dataFault := some e })
  | .ok () =>
    match ← copySegment tailAddress tailBytes with
    | .error e => onGlobals ({ · with dataFault := some e })
    | .ok () => pure ()

/-- The installers on the first call, nothing on later ones.  The answer
says whether they ran. -/
def init : Routine Segments Bool :=
  Routine.onPart (fun g => (g, ())) (fun s _ => s.1) (Instance.init installElements installData)

/-! ## Making the guest -/

/-- Some zeroed pages, nothing installed. -/
def tryNew (initial : UInt32) : Except ConstructionError Segments :=
  Instance.tryNew defaultLimit initial {}

/-- One page and everything installed. -/
def new : Except ConstructionError Segments := do
  let fresh ← tryNew 1
  return (init.outcome fresh).2

/-! ## Using the guest -/

/-- The function with a number: sum, difference and product modulo
`2 ^ 32`. -/
def function? (number a b : UInt32) : Option UInt32 :=
  if number = 0 then some (a + b)
  else if number = 1 then some (a - b)
  else if number = 2 then some (a * b)
  else none

/-- A call through the table; nothing for an empty or missing slot. -/
def apply (g : Segments) (op a b : UInt32) : Option UInt32 := do
  let slot ← g.globals.table[op.toNat]?
  let number ← slot
  function? number a b

/-- The greeting as the memory holds it now. -/
def greeting (g : Segments) : Except Fault Bytes :=
  match g.memory.bytes.window? greetingAddress (UInt64.ofNat greetingBytes.length) with
  | some window => .ok window
  | none => .error .outOfBounds

/-- A slot of the table set to a function number or emptied. -/
def setSlot (slot : Fin 4) (number : Option UInt32) : Routine Segments Unit :=
  modify fun g => { g with globals.table := g.globals.table.set slot number }

/-- The globals as they are shown in diagnostics. -/
def Globals.shape (g : Globals) : Shape :=
  .record "Globals"
    [("table", .list (g.table.toList.map fun slot =>
        .optional (slot.map fun number => .number number.toNat))),
      ("elem_runs", .number g.elementRuns.toNat), ("data_runs", .number g.dataRuns.toNat),
      ("elem_order", .number g.elementOrder.toNat), ("data_order", .number g.dataOrder.toNat),
      ("data_fault", .optional (g.dataFault.map AccessError.shape))]

/-- A step of a session with the guest. -/
inductive Step where
  | init
  | apply (op a b : UInt32)
  | greeting
  | showGlobals
  | setSlot (slot : Fin 4) (number : Option UInt32)
  | memory (action : Region.Action)

/-- What a step answers and does. -/
def Step.perform : Step → Routine Segments Answer
  | .init => .flag <$> Segments.init
  | .apply op a b => do
    let g ← get
    return .optional ((g.apply op a b).map (·.toNat))
  | .greeting => do
    let window ← Routine.reading Segments.greeting
    return .window (some window)
  | .showGlobals => do
    let g ← get
    return .text g.globals.shape.inline
  | .setSlot slot number => do
    Segments.setSlot slot number
    return .done
  | .memory action => Instance.onMemory (action.perform defaultLimit)

/-- All steps in order, each with what `look` sees of the guest it leaves. -/
def run {β : Type} (look : Segments → β) (g : Segments) (steps : List Step) :
    List (Except Fault Answer × β) × Segments :=
  Routine.trace Step.perform look g steps

end Segments

end Guest

end PagedMemory
