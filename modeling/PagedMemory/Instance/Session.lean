/-
PagedMemory.Instance.Session — several instances whose globals are lists of
numbers, under one allocator.

Installers are given as lists of actions.  An installer that runs notes its
name and then the answer of each action.  A fault inside an action is that
action's answer and the installer goes on; only the action that says so
stops it.
-/
import PagedMemory.Gate.Session
import PagedMemory.Instance.Basic
import PagedMemory.Region.Action
import PagedMemory.Routine

namespace PagedMemory

namespace Instance

/-- An action of an installer. -/
inductive InstallerAction where
  | region (action : Region.Action)
  /-- A number appended to the globals. -/
  | push (value : UInt32)
  /-- The globals, as they are now. -/
  | showGlobals
  /-- The installer stops. -/
  | stop

/-- A note that an installer leaves. -/
inductive Note where
  | started (name : InstallerName)
  | answered (answer : Except Fault Answer)
  | globals (values : List UInt32)

variable {max : UInt32}

/-- The installers of a session leave notes outside the instance. -/
abbrev NotingInstaller (max : UInt32) (α : Type) : Type :=
  Installer max (List UInt32) (List Note) α

/-- A note is added. -/
def note (n : Note) : NotingInstaller max Unit :=
  modify fun s => { s with outside := s.outside ++ [n] }

/-- What an action of an installer does. -/
def InstallerAction.perform (limit : Nat) : InstallerAction → NotingInstaller max Unit
  | .region action => do
    let answer ← Routine.onPart (·.memory) (fun memory s => { s with memory })
      (action.perform limit).attempt
    note (.answered answer)
  | .push value => do
    modify fun s => { s with globals := s.globals ++ [value] }
    note (.answered (.ok .done))
  | .showGlobals => do
    let s ← get
    note (.globals s.globals)
  | .stop => throw .installerStopped

/-- An installer that notes its name and then performs its actions. -/
def installer (limit : Nat) (name : InstallerName) (actions : List InstallerAction) :
    NotingInstaller max Unit := do
  note (.started name)
  actions.forM (·.perform limit)

/-- The instances made so far and the allocator's limit. -/
structure Session (max : UInt32) where
  limit : Nat := defaultLimit
  instances : List (Instance max (List UInt32)) := []

namespace Session

/-- A step of a session. -/
inductive Step where
  | tryNew (pages : UInt32) (globals : List UInt32)
  | copy (source : Nat)
  /-- The two installers, given by their actions. -/
  | init (target : Nat) (elements data : List InstallerAction)
  /-- An action on an instance's memory. -/
  | act (target : Nat) (action : Region.Action)
  /-- A number appended to an instance's globals. -/
  | push (target : Nat) (value : UInt32)
  | debug (target : Nat) (layout : Layout)
  | setLimit (bytes : Option Nat)

/-- What a step leads to. -/
inductive Result where
  | made (number : Nat)
  | refused (e : ConstructionError)
  | acted (answer : Except Fault Answer)
  | ran (started : Except Fault Bool) (log : List Note)
  | limitSet

/-- What an instance reports of itself. -/
structure Readings where
  isInitialized : Bool
  globals : List UInt32
  memory : Region.Readings

/-- What an instance reports of itself. -/
def readingsOf (i : Instance max (List UInt32)) : Readings :=
  ⟨i.isInitialized, i.globals, i.memory.readings⟩

/-- A result together with the state of the instance acted on or made. -/
structure Entry where
  result : Result
  readings : Option Readings

/-- An instance is added under the next number. -/
def add (i : Instance max (List UInt32)) (s : Session max) : Entry × Session max :=
  (⟨.made s.instances.length, some (readingsOf i)⟩, { s with instances := s.instances ++ [i] })

/-- A step on one instance is recorded and the instance put back. -/
def replace (target : Nat) (result : Result) (i : Instance max (List UInt32))
    (s : Session max) : Entry × Session max :=
  (⟨result, some (readingsOf i)⟩, { s with instances := s.instances.set target i })

/-- One step, unless it names an instance that was never made. -/
def step (s : Session max) : Step → Option (Entry × Session max)
  | .tryNew pages globals =>
    match Instance.tryNew s.limit pages globals with
    | .error e => some (⟨.refused e, none⟩, s)
    | .ok i => some (s.add i)
  | .copy source => do
    let i ← s.instances[source]?
    return s.add i.copy
  | .init target elements data => do
    let i ← s.instances[target]?
    let (started, i', log) :=
      (Instance.init (installer s.limit .elements elements) (installer s.limit .data data)).outcome
        (i, [])
    return s.replace target (.ran started log) i'
  | .act target action => do
    let i ← s.instances[target]?
    let (answer, i') := (onMemory (action.perform s.limit)).outcome i
    return s.replace target (.acted answer) i'
  | .push target value => do
    let i ← s.instances[target]?
    return s.replace target (.acted (.ok .done)) { i with globals := i.globals ++ [value] }
  | .debug target layout => do
    let i ← s.instances[target]?
    let shape := i.shape fun values => .list (values.map fun v => .number v.toNat)
    return s.replace target (.acted (.ok (.text (shape.render layout)))) i
  | .setLimit bytes => some (⟨.limitSet, none⟩, { s with limit := bytes.getD defaultLimit })

/-- All steps in order, with an entry for each. -/
def run (s : Session max) (steps : List Step) : Option (List Entry × Session max) :=
  Steps.run step s steps

end Session

end Instance

end PagedMemory
