/-
PagedMemory.Proofs.SegmentInstallation — what the segments of a guest leave
behind, over whole runs.

  - `Recorded`  — the globals beside an open gate and beside a closed one.
  - `Installed` — what the call that installs the segments makes of a guest.
  - `Sound`     — the invariant: the globals are recorded as the gate says,
                  and the memory is in order.

One page has no room for the second data segment and no page has room for
either, so every installation ends with the same refusal, and only the
greeting depends on the pages that are committed at the time
(`outcome_installData`).  `Leads` lists what a step can make of a guest, also
one that stops with a fault, under any limit of the allocator; `Sound.leads`
and `Leads.gate_eq` go through that list, and a whole run follows by
induction.
-/
import PagedMemory.Guest.Segments
import PagedMemory.Proofs.GuestMemory

namespace PagedMemory

namespace Guest

namespace Segments

variable {ω : Type}

/-! ## Pages -/

/-- A memory of the guest has no pages or one. -/
theorem pages_cases {r : Region maxPages} (h : r.WellFormed) : r.pages = 0 ∨ r.pages = 1 := by
  have hle : r.pages.toNat ≤ 1 :=
    UInt32.le_iff_toNat_le.mp (UInt32.le_trans h.pages_le h.capacity_le)
  rcases Nat.le_one_iff_eq_zero_or_eq_one.mp hle with hzero | hone
  · exact .inl (UInt32.toNat_inj.mp hzero)
  · exact .inr (UInt32.toNat_inj.mp hone)

theorem size_of_pages {r : Region maxPages} (h : r.WellFormed) :
    r.bytes.size = if r.pages = 1 then 65536 else 0 := by
  rw [h.size_eq, h.activeSize_eq]
  rcases pages_cases h with hpages | hpages
  · rw [hpages]
    rfl
  · rw [hpages]
    rfl

/-! ## The greeting -/

/-- The memory with the greeting in it, if it has room for it. -/
def greeted (r : Region maxPages) : Region maxPages :=
  if r.pages = 1 then r.withBytes (r.bytes.overwrite greetingAddress.toNat greetingBytes) else r

@[simp] theorem pages_greeted (r : Region maxPages) : (greeted r).pages = r.pages := by
  unfold greeted
  split
  · rw [Region.pages_withBytes]
  · rfl

@[simp] theorem capacity_greeted (r : Region maxPages) : (greeted r).capacity = r.capacity := by
  unfold greeted
  split
  · rw [Region.capacity_withBytes]
  · rfl

@[simp] theorem size_greeted (r : Region maxPages) :
    (greeted r).bytes.size = r.bytes.size := by
  unfold greeted
  split
  · rw [Region.bytes_withBytes, Bytes.size_overwrite]
  · rfl

theorem greeted_wellFormed {r : Region maxPages} (h : r.WellFormed) : (greeted r).WellFormed := by
  unfold greeted
  split
  · exact h.withBytes (Bytes.size_overwrite ..)
  · exact h

theorem byteAt_greeted {r : Region maxPages} (h : r.WellFormed) (a : Nat) :
    (greeted r).bytes.byteAt a =
      if r.pages = 1 ∧ 0x100 ≤ a ∧ a < 0x100 + 14 then greetingBytes.getD (a - 0x100) 0
      else r.bytes.byteAt a := by
  have hsize := size_of_pages h
  unfold greeted
  by_cases hpages : r.pages = 1
  · rw [if_pos hpages] at hsize ⊢
    rw [Region.bytes_withBytes, Bytes.byteAt_overwrite _ _ _ _ (by rw [hsize]; decide)]
    simp only [hpages, true_and]
    rfl
  · rw [if_neg hpages, if_neg fun hboth => hpages hboth.1]

/-! ## The installers -/

@[simp] theorem outcome_onGlobals (change : Globals → Globals)
    (s : InstallerState maxPages Globals ω) :
    (onGlobals change).outcome s = (.ok (), { s with globals := change s.globals }) := rfl

/-- A segment is copied if it fits the memory, and otherwise refused whole. -/
theorem outcome_copySegment {s : InstallerState maxPages Globals ω} (h : s.memory.WellFormed)
    (address : UInt64) (data : List UInt8) :
    (copySegment address data).outcome s =
      if address.toNat + data.length ≤ s.memory.bytes.size then
        (.ok (.ok ()),
          { s with memory := s.memory.withBytes (s.memory.bytes.overwrite address.toNat data) })
      else (.ok (.error .outOfBounds), s) := by
  rw [copySegment, Routine.outcome_onPart, Region.outcome_initData]
  by_cases hfit : address.toNat + data.length ≤ s.memory.bytes.size
  · rw [if_pos ⟨h.size_eq ▸ hfit, hfit⟩, if_pos hfit]
  · rw [if_neg fun hboth => hfit hboth.2, if_neg hfit]

/-- The globals after both installers. -/
def installedGlobals (table : Vector (Option UInt32) 4) : Globals where
  table
  elementRuns := 1
  dataRuns := 1
  elementOrder := 1
  dataOrder := 2
  dataFault := some .outOfBounds

theorem outcome_installElements (memory : Region maxPages) (table : Vector (Option UInt32) 4)
    (outside : ω) :
    installElements.outcome ⟨memory, { table }, outside⟩ =
      (.ok (), ⟨memory, { table := fillTable table, elementRuns := 1, elementOrder := 1 },
        outside⟩) := rfl

theorem outcome_installData {memory : Region maxPages} (h : memory.WellFormed)
    (table : Vector (Option UInt32) 4) (outside : ω) :
    installData.outcome ⟨memory, { table, elementRuns := 1, elementOrder := 1 }, outside⟩ =
      (.ok (), ⟨greeted memory, installedGlobals table, outside⟩) := by
  have hsize := size_of_pages h
  have hruns : (Checked.add (0 : UInt32) 1 : Except Fault UInt32) = .ok 1 := rfl
  have horder : (Checked.add (1 : UInt32) 1 : Except Fault UInt32) = .ok 2 := rfl
  simp only [installData, Routine.outcome_bind, Routine.outcome_get, Routine.outcome_liftM, hruns,
    outcome_onGlobals, horder]
  rw [outcome_copySegment h]
  -- without a page the greeting is refused and ends the installation; with one
  -- it fits, and the refusal is that of the segment behind it
  by_cases hpages : memory.pages = 1
  · rw [if_pos hpages] at hsize
    have hgreeted : greeted memory =
        memory.withBytes (memory.bytes.overwrite greetingAddress.toNat greetingBytes) :=
      if_pos hpages
    have htail : ¬tailAddress.toNat + tailBytes.length ≤ (greeted memory).bytes.size := by
      rw [size_greeted, hsize]
      decide
    rw [if_pos (by rw [hsize]; decide)]
    simp only [Routine.outcome_bind]
    rw [← hgreeted, outcome_copySegment (greeted_wellFormed h), if_neg htail]
    rfl
  · rw [if_neg hpages] at hsize
    have hgreeted : greeted memory = memory := if_neg hpages
    rw [if_neg (by rw [hsize]; decide), hgreeted]
    rfl

/-! ## One call -/

/-- What the globals say beside an open gate and beside a closed one. -/
inductive Recorded : Gate → Globals → Prop where
  | before (table : Vector (Option UInt32) 4) : Recorded .uninitialized { table }
  | after (table : Vector (Option UInt32) 4) : Recorded .initialized (installedGlobals table)

/-- What the call that installs the segments makes of a guest: the gate is
closed, three slots of the table are filled, and the greeting is written if
a page is committed.  Nothing else in the table or the memory is changed. -/
structure Installed (g g' : Segments) : Prop where
  gate_eq : g'.gate = .initialized
  recorded : Recorded g'.gate g'.globals
  table_eq : g'.globals.table = #v[some (0 : UInt32), some 1, some 2, g.globals.table[3]]
  pages_eq : g'.memory.pages = g.memory.pages
  capacity_eq : g'.memory.capacity = g.memory.capacity
  size_eq : g'.memory.bytes.size = g.memory.bytes.size
  byteAt_eq : ∀ a, g'.memory.bytes.byteAt a =
    if g.memory.pages = 1 ∧ 0x100 ≤ a ∧ a < 0x100 + 14 then greetingBytes.getD (a - 0x100) 0
    else g.memory.bytes.byteAt a

theorem fillTable_eq (table : Vector (Option UInt32) 4) :
    fillTable table = #v[some (0 : UInt32), some 1, some 2, table[3]] := by
  ext k hk
  match k with
  | 0 | 1 | 2 | 3 => simp [fillTable]

theorem outcome_init_of_initialized {g : Segments} (h : g.gate = .initialized) :
    Segments.init.outcome g = (.ok false, g) := by
  rw [Segments.init, Routine.outcome_onPart, Instance.outcome_init_of_initialized h]

/-- The first call goes through. -/
theorem outcome_init_of_recorded {g : Segments} (hgate : g.gate = .uninitialized)
    (hrecorded : Recorded g.gate g.globals) (hwf : g.memory.WellFormed) :
    Segments.init.outcome g =
      (.ok true, ⟨greeted g.memory, installedGlobals (fillTable g.globals.table),
        .initialized⟩) := by
  obtain ⟨memory, globals, gate⟩ := g
  cases hrecorded with
  | after => cases hgate
  | before table =>
    rw [Segments.init, Routine.outcome_onPart, Instance.outcome_init_of_uninitialized rfl]
    simp only [Instance.before, outcome_installElements, outcome_installData hwf, Instance.after]

/-! ## Steps -/

/-- The globals are recorded as the gate says, and the memory is in order. -/
structure Sound (g : Segments) : Prop where
  recorded : Recorded g.gate g.globals
  wellFormed : g.memory.WellFormed

/-- The first call goes through and installs the segments. -/
theorem Sound.exists_init {g : Segments} (h : Sound g) (hgate : g.gate = .uninitialized) :
    ∃ g', Segments.init.outcome g = (.ok true, g') ∧ Installed g g' ∧ Sound g' := by
  have hrecorded : Recorded .initialized (installedGlobals (fillTable g.globals.table)) := .after _
  refine ⟨_, outcome_init_of_recorded hgate h.recorded h.wellFormed, ?_,
    ⟨hrecorded, greeted_wellFormed h.wellFormed⟩⟩
  exact
    { gate_eq := rfl
      recorded := hrecorded
      table_eq := fillTable_eq _
      pages_eq := pages_greeted _
      capacity_eq := capacity_greeted _
      size_eq := size_greeted _
      byteAt_eq := byteAt_greeted h.wellFormed }

/-- A step at a moment when the allocator has a limit of its own. -/
def Step.performWithin (limit : Nat) : Step → Routine Segments Answer
  | .memory action => Instance.onMemory (action.perform limit)
  | step => step.perform

/-- All steps in order, each under the limit that stands beside it. -/
def runWithin {β : Type} (look : Segments → β) (g : Segments) (steps : List (Nat × Step)) :
    List (Except Fault Answer × β) × Segments :=
  Routine.trace (fun step => step.2.performWithin step.1) look g steps

/-- Everything that a step can make of a guest. -/
inductive Leads (limit : Nat) (g : Segments) : Segments → Prop where
  | stays : Leads limit g g
  | called : Leads limit g (Segments.init.outcome g).2
  | slotSet (slot : Fin 4) (number : Option UInt32) :
      Leads limit g ((setSlot slot number).outcome g).2
  | acted (action : Region.Action) :
      Leads limit g ((Instance.onMemory (action.perform limit)).outcome g).2

theorem leads_performWithin (limit : Nat) (step : Step) (g : Segments) :
    Leads limit g ((step.performWithin limit).outcome g).2 := by
  cases step with
  | init =>
    show Leads limit g ((Answer.flag <$> Segments.init).outcome g).2
    rw [Routine.outcome_map]
    exact .called
  | apply op a b => exact .stays
  | greeting =>
    show Leads limit g ((do
      let window ← Routine.reading Segments.greeting
      return .window (some window) : Routine Segments Answer).outcome g).2
    rw [Routine.outcome_bind, Routine.outcome_reading]
    cases Segments.greeting g <;> exact .stays
  | showGlobals => exact .stays
  | setSlot slot number => exact .slotSet slot number
  | memory action => exact .acted action

/-- Every step keeps the invariant. -/
theorem Sound.leads {limit : Nat} {g g' : Segments} (h : Sound g) (hstep : Leads limit g g') :
    Sound g' := by
  cases hstep with
  | stays => exact h
  | called =>
    cases hgate : g.gate with
    | initialized =>
      rw [outcome_init_of_initialized hgate]
      exact h
    | uninitialized =>
      obtain ⟨g', hinit, -, hsound⟩ := h.exists_init hgate
      rw [hinit]
      exact hsound
  | slotSet slot number =>
    obtain ⟨memory, globals, gate⟩ := g
    refine ⟨?_, h.wellFormed⟩
    cases h.recorded with
    | before table => exact .before _
    | after table => exact .after _
  | acted action =>
    rw [Instance.outcome_onMemory]
    exact ⟨h.recorded, (Region.Action.perform_effect limit action
      h.wellFormed.size_eq).wellFormed h.wellFormed⟩

/-- No step opens the gate again. -/
theorem Leads.gate_eq {limit : Nat} {g g' : Segments} (hstep : Leads limit g g')
    (h : g.gate = .initialized) : g'.gate = .initialized := by
  cases hstep with
  | stays => exact h
  | called =>
    rw [outcome_init_of_initialized h]
    exact h
  | slotSet slot number => exact h
  | acted action => exact (Instance.gate_onMemory _ g).trans h

theorem Sound.runWithin {β : Type} {g : Segments} (h : Sound g) (look : Segments → β)
    (steps : List (Nat × Step)) : Sound (runWithin look g steps).2 :=
  Routine.trace_keeps (fun step g h => h.leads (leads_performWithin step.1 step.2 g)) steps h

theorem gate_runWithin {β : Type} {g : Segments} (h : g.gate = .initialized)
    (look : Segments → β) (steps : List (Nat × Step)) :
    (Segments.runWithin look g steps).2.gate = .initialized :=
  Routine.trace_keeps (P := fun g : Segments => g.gate = .initialized)
    (fun step g h => (leads_performWithin step.1 step.2 g).gate_eq h) steps h

/-- A session with the guest is a run under one limit. -/
theorem run_eq_runWithin {β : Type} (look : Segments → β) (g : Segments) (steps : List Step) :
    run look g steps = runWithin look g (steps.map fun step => (defaultLimit, step)) := by
  have hperform : ∀ step : Step, step.performWithin defaultLimit = step.perform := by
    intro step
    cases step <;> rfl
  unfold run runWithin
  induction steps generalizing g with
  | nil => rfl
  | cons step steps ih => simp only [List.map_cons, Routine.trace, hperform, ih]

/-! ## Whole runs -/

theorem tryNew_eq {pages : UInt32} (h : pages ≤ maxPages) :
    tryNew pages = .ok ⟨Region.zeroed pages, {}, .uninitialized⟩ := by
  have hbytes : pageBytes pages ≤ pageBytes maxPages := pageBytes_le_iff.mpr h
  have hmemory : (Region.tryNew defaultLimit pages : Except _ (Region maxPages)) =
      .ok (Region.zeroed pages) :=
    Region.tryNew_eq_ok_iff.mpr ⟨h, Nat.le_trans hbytes (by decide), rfl⟩
  simp [tryNew, Instance.tryNew, hmemory, bind, Except.bind, pure, Except.pure, Gate.new]

theorem tryNew_one : tryNew 1 = .ok ⟨Region.zeroed 1, {}, .uninitialized⟩ :=
  tryNew_eq (UInt32.le_refl 1)

/-- A guest as it is made: without its segments, or with them. -/
inductive Started : Segments → Prop where
  | fresh {pages : UInt32} {g : Segments} (hpages : pages ≤ maxPages)
      (h : tryNew pages = .ok g) : Started g
  | installed {g : Segments} (h : new = .ok g) : Started g

theorem sound_of_tryNew {pages : UInt32} {g : Segments} (hpages : pages ≤ maxPages)
    (h : tryNew pages = .ok g) : Sound g := by
  rw [tryNew_eq hpages] at h
  cases h
  have hbytes : pageBytes pages ≤ pageBytes maxPages := pageBytes_le_iff.mpr hpages
  exact ⟨.before _, .of_tryNew (Region.tryNew_eq_ok_iff.mpr ⟨hpages, hbytes, rfl⟩)⟩

/-- A guest that is made with its segments has been through one call. -/
theorem exists_new : ∃ g g', tryNew 1 = .ok g ∧ Segments.init.outcome g = (.ok true, g') ∧
    new = .ok g' ∧ Sound g' := by
  obtain ⟨g', hinit, -, hsound⟩ :=
    (sound_of_tryNew (UInt32.le_refl 1) tryNew_one).exists_init rfl
  refine ⟨_, g', tryNew_one, hinit, ?_, hsound⟩
  rw [new, tryNew_one]
  show Except.ok (Segments.init.outcome _).2 = _
  rw [hinit]

theorem Started.sound {g : Segments} (h : Started g) : Sound g := by
  cases h with
  | fresh hpages h => exact sound_of_tryNew hpages h
  | installed h =>
    obtain ⟨-, g', -, -, hnew, hsound⟩ := exists_new
    rw [hnew] at h
    cases h
    exact hsound

/-- In every state of every run of a guest, started with or without its
segments, the globals are recorded as the gate says.  At an open gate a call
goes through and installs the segments; at a closed one it does nothing, and
the gate stays closed whatever comes later. -/
theorem installed_once_over_runs :
    (∀ pages ≤ maxPages, ∃ g, tryNew pages = .ok g ∧ g.gate = .uninitialized ∧
      g.memory.pages = pages) ∧
    (∃ g g', tryNew 1 = .ok g ∧ Segments.init.outcome g = (.ok true, g') ∧ new = .ok g') ∧
    ∀ (β : Type) (look : Segments → β) (g₀ : Segments) (steps : List (Nat × Step)) (g : Segments),
      Started g₀ → (runWithin look g₀ steps).2 = g →
        Recorded g.gate g.globals ∧ (g.memory.pages = 0 ∨ g.memory.pages = 1) ∧
        (g.gate = .uninitialized →
          ∃ g', Segments.init.outcome g = (.ok true, g') ∧ Installed g g') ∧
        (g.gate = .initialized → Segments.init.outcome g = (.ok false, g) ∧
          ∀ later, (runWithin look g later).2.gate = .initialized) := by
  refine ⟨fun pages hpages => ⟨_, tryNew_eq hpages, rfl, rfl⟩, ?_, ?_⟩
  · obtain ⟨g, g', hfresh, hinit, hnew, -⟩ := exists_new
    exact ⟨g, g', hfresh, hinit, hnew⟩
  · rintro β look g₀ steps g hstarted rfl
    have hsound := hstarted.sound.runWithin look steps
    refine ⟨hsound.recorded, pages_cases hsound.wellFormed, fun hgate => ?_, fun hgate => ?_⟩
    · obtain ⟨g', hinit, hinstalled, -⟩ := hsound.exists_init hgate
      exact ⟨g', hinit, hinstalled⟩
    · exact ⟨outcome_init_of_initialized hgate, gate_runWithin hgate look⟩

/-- A page full of other bytes and a table with its last slot in use: the
installation keeps that slot and every byte but the greeting's. -/
theorem installed_once_over_runs_after_fill :
    ∃ g₀ g g', tryNew 1 = .ok g₀ ∧ Started g₀ ∧
      (runWithin (fun _ => ()) g₀ [(0, .memory (.fill 0xAA)), (0, .setSlot 3 (some 7))]).2 = g ∧
      g.gate = .uninitialized ∧ Segments.init.outcome g = (.ok true, g') ∧ Installed g g' ∧
      g'.globals.table = #v[some 0, some 1, some 2, some 7] ∧
      g'.memory.bytes.byteAt 0x100 = 0x68 := by
  obtain ⟨-, -, hruns⟩ := installed_once_over_runs
  have hstarted : Started ⟨Region.zeroed 1, {}, .uninitialized⟩ :=
    .fresh (UInt32.le_refl 1) tryNew_one
  obtain ⟨-, -, hopen, -⟩ := hruns Unit (fun _ => ()) _
    [(0, .memory (.fill 0xAA)), (0, .setSlot 3 (some 7))] _ hstarted rfl
  obtain ⟨g', hinit, hinstalled⟩ := hopen rfl
  exact ⟨_, _, g', tryNew_one, hstarted, rfl, rfl, hinit, hinstalled, hinstalled.table_eq,
    hinstalled.byteAt_eq 0x100⟩

end Segments

end Guest

end PagedMemory
