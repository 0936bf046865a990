/-
PagedMemory.Proofs.OneTimeInstallation — the installers of an instance are
started by the first call of `Instance.init` in its lineage and by no other.

  - `init_cases`       — everything that one call at an open gate can do,
                         for installers that are arbitrary routines: they
                         may grow the memory, stop half way, or change what
                         stands outside of the instance.
  - `started`          — the installers that a call starts.  They are read
                         off `initNoting`, which is `init` with installers
                         that first note their name, as
                         `outcome_initNoting` says.
  - `Event`, `run`     — a family of instances under calls with installers
                         of their own, routines on the memories, changes of
                         the globals, and copies.
  - `lineages`         — the calls of each instance, those of its original
                         before the copy included, in order.

`InstalledOnce` is the invariant: the gate is open as long as a lineage has
no calls, and closed after the first, which alone has started anything.  The
gate closes before an installer runs and a copy takes the gate with it, so
neither a fault nor a copy opens it again.
-/
import PagedMemory.Gate.Session
import PagedMemory.Instance.Basic
import PagedMemory.Proofs.RoutineTheorems
import PagedMemory.Proofs.SideBySide

namespace PagedMemory

namespace Instance

variable {max : UInt32} {γ ω : Type}

/-! ## One call -/

/-- What the installers of an instance start from. -/
def before (i : Instance max γ) (outside : ω) : InstallerState max γ ω :=
  ⟨i.memory, i.globals, outside⟩

/-- An instance with a closed gate and whatever its installers left, and what
they left outside. -/
def after (s : InstallerState max γ ω) : Instance max γ × ω :=
  (⟨s.memory, s.globals, .initialized⟩, s.outside)

/-- A closed gate turns every call away. -/
theorem outcome_init_of_initialized {i : Instance max γ} (h : i.gate = .initialized)
    (elements data : Installer max γ ω Unit) (outside : ω) :
    (init elements data).outcome (i, outside) = (.ok false, i, outside) := by
  obtain ⟨memory, globals, gate⟩ := i
  cases h
  rfl

/-- An open gate lets the element installer through and, if it ends, the data
installer after it. -/
theorem outcome_init_of_uninitialized {i : Instance max γ} (h : i.gate = .uninitialized)
    (elements data : Installer max γ ω Unit) (outside : ω) :
    (init elements data).outcome (i, outside) =
      match elements.outcome (i.before outside) with
      | (.error f, s) => (.error f, after s)
      | (.ok (), s) =>
        match data.outcome s with
        | (.error f, s') => (.error f, after s')
        | (.ok (), s') => (.ok true, after s') := by
  obtain ⟨memory, globals, gate⟩ := i
  cases h
  simp only [init, Gate.run, Routine.outcome_onPart, Routine.outcome_bind, Gate.outcome_pass]
  simp only [decide_true, if_true, Routine.outcome_bind, Routine.outcome_onPart]
  show (Prod.fst _, _) = _
  unfold before
  rcases elements.outcome ⟨memory, globals, outside⟩ with ⟨_ | _, s⟩
  · rfl
  · simp only
    rcases data.outcome s with ⟨_ | _, s'⟩
    · rfl
    · rfl

/-! ## Which installers a call starts -/

/-- An installer that first notes its name outside. -/
def noting (name : InstallerName) (installer : Installer max γ ω Unit) :
    Installer max γ (ω × List InstallerName) Unit := do
  modify fun s => { s with outside := (s.outside.1, s.outside.2 ++ [name]) }
  Routine.onPart (fun s => ⟨s.memory, s.globals, s.outside.1⟩)
    (fun t s => ⟨t.memory, t.globals, (t.outside, s.outside.2)⟩) installer

/-- A call whose installers note their names when they are started. -/
def initNoting (elements data : Installer max γ ω Unit) :
    Routine (Instance max γ × ω × List InstallerName) Bool :=
  init (noting .elements elements) (noting .data data)

/-- The installers that a call starts, in order. -/
def started (elements data : Installer max γ ω Unit) (i : Instance max γ) (outside : ω) :
    List InstallerName :=
  ((initNoting elements data).outcome (i, outside, [])).2.2.2

theorem outcome_noting (name : InstallerName) (installer : Installer max γ ω Unit)
    (memory : Region max) (globals : γ) (outside : ω) (names : List InstallerName) :
    (noting name installer).outcome ⟨memory, globals, (outside, names)⟩ =
      ((installer.outcome ⟨memory, globals, outside⟩).1,
        ⟨(installer.outcome ⟨memory, globals, outside⟩).2.memory,
          (installer.outcome ⟨memory, globals, outside⟩).2.globals,
          ((installer.outcome ⟨memory, globals, outside⟩).2.outside, names ++ [name])⟩) := by
  rw [noting, Routine.outcome_bind, Routine.outcome_modify]
  exact Routine.outcome_onPart ..

/-- All that a call at an open gate can do: it stops in the element installer,
it stops in the data installer, or it goes through. -/
theorem init_cases {i : Instance max γ} (h : i.gate = .uninitialized)
    (elements data : Installer max γ ω Unit) (outside : ω) :
    (∃ f s, elements.outcome (i.before outside) = (.error f, s) ∧
      (init elements data).outcome (i, outside) = (.error f, after s) ∧
      (initNoting elements data).outcome (i, outside, []) =
        (.error f, (after s).1, (after s).2, [.elements])) ∨
    (∃ f s s', elements.outcome (i.before outside) = (.ok (), s) ∧
      data.outcome s = (.error f, s') ∧
      (init elements data).outcome (i, outside) = (.error f, after s') ∧
      (initNoting elements data).outcome (i, outside, []) =
        (.error f, (after s').1, (after s').2, [.elements, .data])) ∨
    (∃ s s', elements.outcome (i.before outside) = (.ok (), s) ∧
      data.outcome s = (.ok (), s') ∧
      (init elements data).outcome (i, outside) = (.ok true, after s') ∧
      (initNoting elements data).outcome (i, outside, []) =
        (.ok true, (after s').1, (after s').2, [.elements, .data])) := by
  have hnoting := outcome_init_of_uninitialized h (noting .elements elements)
    (noting .data data) (outside, [])
  have hnoted : (noting .elements elements).outcome (i.before (outside, [])) =
      ((elements.outcome (i.before outside)).1,
        ⟨(elements.outcome (i.before outside)).2.memory,
          (elements.outcome (i.before outside)).2.globals,
          ((elements.outcome (i.before outside)).2.outside, [.elements])⟩) :=
    outcome_noting ..
  rw [outcome_init_of_uninitialized h, initNoting, hnoting, hnoted]
  rcases elements.outcome (i.before outside) with ⟨f | _, s⟩
  · exact .inl ⟨f, s, rfl, rfl, rfl⟩
  · simp only [outcome_noting]
    rcases hdata : data.outcome s with ⟨f | _, s'⟩
    · exact .inr (.inl ⟨f, s, s', rfl, hdata, rfl, rfl⟩)
    · exact .inr (.inr ⟨s, s', rfl, hdata, rfl, rfl⟩)

/-- Without the names, a call that notes them is the call. -/
theorem outcome_initNoting (elements data : Installer max γ ω Unit) (i : Instance max γ)
    (outside : ω) :
    (initNoting elements data).outcome (i, outside, []) =
      (((init elements data).outcome (i, outside)).1,
        ((init elements data).outcome (i, outside)).2.1,
        ((init elements data).outcome (i, outside)).2.2, started elements data i outside) := by
  rw [started]
  cases hgate : i.gate with
  | initialized =>
    rw [initNoting, outcome_init_of_initialized hgate, outcome_init_of_initialized hgate]
  | uninitialized =>
    rcases init_cases hgate elements data outside with
      ⟨f, s, -, hinit, hnoting⟩ | ⟨f, s, s', -, -, hinit, hnoting⟩ | ⟨s, s', -, -, hinit, hnoting⟩
    · rw [hinit, hnoting]
    · rw [hinit, hnoting]
    · rw [hinit, hnoting]

theorem started_of_initialized {i : Instance max γ} (h : i.gate = .initialized)
    (elements data : Installer max γ ω Unit) (outside : ω) :
    started elements data i outside = [] := by
  rw [started, initNoting, outcome_init_of_initialized h]

/-! ## The gate outside of a call -/

/-- An instance is made with an open gate. -/
theorem gate_of_tryNew {limit : Nat} {pages : UInt32} {globals : γ} {i : Instance max γ}
    (h : tryNew limit pages globals = .ok i) : i.gate = .uninitialized := by
  unfold tryNew at h
  cases hmemory : (Region.tryNew limit pages : Except ConstructionError (Region max)) with
  | error e => simp [hmemory, bind, Except.bind] at h
  | ok memory =>
    simp only [hmemory, bind, Except.bind] at h
    cases h
    rfl

theorem gate_onMemory {α : Type} (operation : Routine (Region max) α) (i : Instance max γ) :
    ((onMemory operation).outcome i).2.gate = i.gate := by
  rw [onMemory, Routine.outcome_onPart]

/-! ## Lineages -/

/-- A call of `init` as an observer sees it. -/
structure InitCall where
  /-- The installers that it started, in order. -/
  started : List InstallerName
  answer : Except Fault Bool

/-- A call that starts the installers: both, if it goes through, and at least
the first, if it stops with a fault. -/
inductive InitCall.Starts : InitCall → Prop where
  | finished : Starts ⟨[.elements, .data], .ok true⟩
  | stoppedInElements {f : Fault} : Starts ⟨[.elements], .error f⟩
  | stoppedInData {f : Fault} : Starts ⟨[.elements, .data], .error f⟩

/-- A call that is turned away. -/
def InitCall.idle : InitCall := ⟨[], .ok false⟩

/-- The calls in a lineage, and the gate that they leave: the first starts the
installers and every later one is turned away. -/
inductive InstalledOnce : List InitCall → Gate → Prop where
  | never : InstalledOnce [] .uninitialized
  | once {first : InitCall} {later : List InitCall} (hfirst : first.Starts)
      (hlater : ∀ call ∈ later, call = .idle) : InstalledOnce (first :: later) .initialized

/-- One more call, whatever its installers are. -/
theorem InstalledOnce.init {calls : List InitCall} {i : Instance max γ}
    (h : InstalledOnce calls i.gate) (elements data : Installer max γ ω Unit) (outside : ω) :
    InstalledOnce
      (calls ++ [⟨started elements data i outside,
        ((Instance.init elements data).outcome (i, outside)).1⟩])
      ((Instance.init elements data).outcome (i, outside)).2.1.gate := by
  generalize hgate : i.gate = gate at h
  cases h with
  | never =>
    rcases init_cases hgate elements data outside with
      ⟨f, s, -, hinit, hnoting⟩ | ⟨f, s, s', -, -, hinit, hnoting⟩ | ⟨s, s', -, -, hinit, hnoting⟩
    · rw [started, hinit, hnoting]
      exact .once .stoppedInElements (by simp)
    · rw [started, hinit, hnoting]
      exact .once .stoppedInData (by simp)
    · rw [started, hinit, hnoting]
      exact .once .finished (by simp)
  | once hfirst hlater =>
    rw [started_of_initialized hgate, outcome_init_of_initialized hgate, List.cons_append, hgate]
    refine .once hfirst fun call hcall => ?_
    rcases List.mem_append.mp hcall with hold | hnew
    · exact hlater call hold
    · exact List.mem_singleton.mp hnew

/-! ## Families of instances -/

/-- Something that happens to a family of instances, numbered from zero in
the order in which they are made. -/
inductive Event (max : UInt32) (γ ω : Type) where
  | make (limit : Nat) (pages : UInt32) (globals : γ)
  | copy (source : Nat)
  /-- A call with installers of its own, and what stands outside at the time. -/
  | init (target : Nat) (elements data : Installer max γ ω Unit) (outside : ω)
  /-- Any routine on an instance's memory. -/
  | onMemory (target : Nat) (operation : Routine (Region max) Answer)
  | onGlobals (target : Nat) (update : γ → γ)

/-- What an event leads to. -/
inductive Event.Result where
  | made
  | refused (e : ConstructionError)
  | called (call : InitCall)
  | acted (answer : Except Fault Answer)
  | updated

namespace Event

/-- One event, unless it names an instance that was never made. -/
def step (instances : List (Instance max γ)) :
    Event max γ ω → Option (Result × List (Instance max γ))
  | .make limit pages globals =>
    match tryNew limit pages globals with
    | .error e => some (.refused e, instances)
    | .ok i => some (.made, instances ++ [i])
  | .copy source => do
    let i ← instances[source]?
    return (.made, instances ++ [i.copy])
  | .init target elements data outside => do
    let i ← instances[target]?
    let (answer, i', _) := (Instance.init elements data).outcome (i, outside)
    return (.called ⟨started elements data i outside, answer⟩, instances.set target i')
  | .onMemory target operation => do
    let i ← instances[target]?
    let (answer, i') := (Instance.onMemory operation).outcome i
    return (.acted answer, instances.set target i')
  | .onGlobals target update => do
    let i ← instances[target]?
    return (.updated, instances.set target { i with globals := update i.globals })

/-- All events in order, from no instances at all. -/
def run (events : List (Event max γ ω)) : Option (List Result × List (Instance max γ)) :=
  Steps.run step [] events

/-- The lineages after an event: a new instance has none, a copy has that of
its original, and a call is added to that of its target. -/
def record (lineages : List (List InitCall)) : Event max γ ω → Result → List (List InitCall)
  | .make _ _ _, .made => lineages ++ [[]]
  | .copy source, .made => lineages ++ lineages[source]?.toList
  | .init target _ _ _, .called call => lineages.modify target (· ++ [call])
  | _, _ => lineages

/-- The lineages after all events. -/
def recordAll : List (List InitCall) → List (Event max γ ω) → List Result → List (List InitCall)
  | lineages, event :: events, result :: results =>
    recordAll (record lineages event result) events results
  | lineages, _, _ => lineages

/-- The calls of each instance, those of its original before the copy
included. -/
def lineages (events : List (Event max γ ω)) (results : List Result) : List (List InitCall) :=
  recordAll [] events results

/-- Every instance was installed once, or never if its lineage has no calls. -/
def Installed (calls : List (List InitCall)) (instances : List (Instance max γ)) : Prop :=
  List.Forall₂ (fun calls i => InstalledOnce calls i.gate) calls instances

variable {calls : List (List InitCall)} {instances instances' : List (Instance max γ)}

/-- An instance that leaves its gate alone keeps its lineage. -/
theorem Installed.set {target : Nat} {i i' : Instance max γ} (h : Installed calls instances)
    (hi : instances[target]? = some i) (hgate : i'.gate = i.gate) :
    Installed calls (instances.set target i') := by
  obtain ⟨lineage, hlineage, hinstalled⟩ := forall₂_getElem? h hi
  have hset : Installed (calls.set target lineage) (instances.set target i') :=
    forall₂_set h (by rwa [hgate])
  rwa [set_of_getElem? hlineage] at hset

/-- Every event keeps the invariant. -/
theorem Installed.step {event : Event max γ ω} {result : Result}
    (h : Installed calls instances) (hstep : step instances event = some (result, instances')) :
    Installed (record calls event result) instances' := by
  cases event with
  | make limit pages globals =>
    simp only [Event.step] at hstep
    split at hstep
    · cases hstep
      exact h
    · rename_i i hmade
      cases hstep
      exact forall₂_concat h (by rw [gate_of_tryNew hmade]; exact .never)
  | copy source =>
    obtain ⟨i, hi, hadd⟩ := Option.bind_eq_some_iff.mp hstep
    cases hadd
    obtain ⟨lineage, hlineage, hinstalled⟩ := forall₂_getElem? h hi
    simp only [record, hlineage]
    exact forall₂_concat h hinstalled
  | init target elements data outside =>
    obtain ⟨i, hi, hset⟩ := Option.bind_eq_some_iff.mp hstep
    cases hset
    obtain ⟨lineage, hlineage, hinstalled⟩ := forall₂_getElem? h hi
    simp only [record, modify_of_getElem? hlineage]
    exact forall₂_set h (hinstalled.init elements data outside)
  | onMemory target operation =>
    obtain ⟨i, hi, hset⟩ := Option.bind_eq_some_iff.mp hstep
    cases hset
    exact h.set hi (gate_onMemory operation i)
  | onGlobals target update =>
    obtain ⟨i, hi, hset⟩ := Option.bind_eq_some_iff.mp hstep
    cases hset
    exact h.set hi rfl

/-- Every run keeps the invariant. -/
theorem Installed.run {events : List (Event max γ ω)} {results : List Result}
    (h : Installed calls instances)
    (hrun : Steps.run Event.step instances events = some (results, instances')) :
    Installed (recordAll calls events results) instances' := by
  induction events generalizing calls instances results with
  | nil =>
    cases hrun
    exact h
  | cons event events ih =>
    obtain ⟨result, instances₁, rest, hstep, hrest, rfl⟩ := Steps.run_cons.mp hrun
    exact ih (h.step hstep) hrest

end Event

/-- One call does what its law says, whatever its installers are: with an open
gate they run in turn until one stops, what they reached is kept, and the
gate is closed; with a closed gate nothing happens.  So in every family of
instances the installers of a lineage are started by its first call, whether
that call goes through or stops, and by no other. -/
theorem installed_by_first_call (max : UInt32) (γ ω : Type) :
    (∀ (i : Instance max γ) (elements data : Installer max γ ω Unit) (outside : ω),
      (init elements data).outcome (i, outside) =
        (match i.gate with
        | .initialized => (.ok false, i, outside)
        | .uninitialized =>
          match elements.outcome (i.before outside) with
          | (.error f, s) => (.error f, after s)
          | (.ok (), s) =>
            match data.outcome s with
            | (.error f, s') => (.error f, after s')
            | (.ok (), s') => (.ok true, after s')) ∧
      (initNoting elements data).outcome (i, outside, []) =
        (((init elements data).outcome (i, outside)).1,
          ((init elements data).outcome (i, outside)).2.1,
          ((init elements data).outcome (i, outside)).2.2, started elements data i outside)) ∧
    ∀ (events : List (Event max γ ω)) (results : List Event.Result)
      (instances : List (Instance max γ)), Event.run events = some (results, instances) →
      ∀ (k : Nat) (i : Instance max γ), instances[k]? = some i →
        ∃ calls, (Event.lineages events results)[k]? = some calls ∧
          InstalledOnce calls i.gate := by
  refine ⟨fun i elements data outside => ⟨?_, outcome_initNoting elements data i outside⟩,
    fun events results instances hrun k i hi => ?_⟩
  · cases hgate : i.gate with
    | uninitialized => exact outcome_init_of_uninitialized hgate elements data outside
    | initialized => exact outcome_init_of_initialized hgate elements data outside
  · have hinstalled : Event.Installed (Event.lineages events results) instances :=
      Event.Installed.run .nil hrun
    obtain ⟨calls, hcalls, honce⟩ := forall₂_getElem? hinstalled hi
    exact ⟨calls, hcalls, honce⟩

/-- An instance without pages whose element installer stops after a change of
the globals, and a copy of it that is called again. -/
def stoppedAndCopied : List (Event 1 Nat Unit) :=
  [.make defaultLimit 0 5,
    .init 0 (do modify ({ · with globals := 6 }); throw .installerStopped) (pure ()) (),
    .copy 0, .init 1 (pure ()) (pure ()) ()]

theorem installed_by_first_call_of_copy :
    ∃ results instances, Event.run stoppedAndCopied = some (results, instances) ∧
      Event.lineages stoppedAndCopied results =
        [[⟨[.elements], .error .installerStopped⟩],
          [⟨[.elements], .error .installerStopped⟩, .idle]] ∧
      ∃ i, instances[1]? = some i ∧ i.globals = 6 ∧
        InstalledOnce [⟨[.elements], .error .installerStopped⟩, .idle] i.gate := by
  obtain ⟨-, hruns⟩ := installed_by_first_call 1 Nat Unit
  refine ⟨_, _, rfl, rfl, _, rfl, rfl, ?_⟩
  obtain ⟨calls, hcalls, honce⟩ := hruns stoppedAndCopied _ _ rfl 1 _ rfl
  cases hcalls
  exact honce

end Instance

end PagedMemory
