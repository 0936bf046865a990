/-
PagedMemory.Proofs.RegionInvariant — what holds of every linear memory in
every run of a session.

`WellFormed` ties the bytes, the hidden allocation and the two counts of a
memory together.  It holds of a memory as it is made, also of a copy, whose
allocation is smaller than what its capacity says, and each of the three
effects of an action keeps it.

`Action.Advances` is what an action may make of a memory: the counts never
go down, the pages change by exactly what a growth was granted, and an
answer that refuses leaves the memory as it was.  `Session.Advances` says
it of every memory that is there before a step.

`run_keeps_wellFormed` is the induction over a run, under any limits of the
allocator and with steps that are refused or stop with a fault.
-/
import PagedMemory.Proofs.RegionOutcomes
import PagedMemory.Region.Session

namespace PagedMemory

/-- Putting an entry of a list where it stands already changes nothing. -/
theorem set_of_getElem? {α : Type} {xs : List α} {i : Nat} {x : α} (h : xs[i]? = some x) :
    xs.set i x = xs := by
  obtain ⟨hi, rfl⟩ := List.getElem?_eq_some_iff.mp h
  exact List.set_getElem_self hi

namespace Region

variable {max : UInt32}

/-- The parts of a memory agree with each other. -/
structure WellFormed (r : Region max) : Prop where
  size_eq : r.bytes.size = r.activeSize
  activeSize_eq : r.activeSize = r.pages.toNat * 65536
  pages_le : r.pages ≤ r.capacity
  capacity_le : r.capacity ≤ max
  covers : r.storage.Covers

/-! ## Memories as they are made -/

theorem activeSize_eq_mul (r : Region max) : r.activeSize = r.pages.toNat * 65536 :=
  pageBytes_eq_mul r.pages

theorem wellFormed_new : (new : Region max).WellFormed where
  size_eq := rfl
  activeSize_eq := activeSize_eq_mul new
  pages_le := UInt32.le_refl 0
  capacity_le := UInt32.le_iff_toNat_le.mpr (Nat.zero_le _)
  covers := Nat.le_refl 0

theorem WellFormed.of_tryNew {limit : Nat} {initial : UInt32} {r : Region max}
    (h : tryNew limit initial = .ok r) : r.WellFormed := by
  obtain ⟨hmax, -, rfl⟩ := tryNew_eq_ok_iff.mp h
  have hsize : (zeroed initial : Region max).bytes.size = pageBytes initial :=
    Storage.size_resize _ _
  exact
    { size_eq := hsize
      activeSize_eq := activeSize_eq_mul _
      pages_le := UInt32.le_refl _
      capacity_le := hmax
      covers := by
        rw [Storage.Covers, allocation_zeroed]
        exact Nat.le_of_eq hsize }

theorem WellFormed.copy {r : Region max} (h : r.WellFormed) : r.copy.WellFormed where
  size_eq := h.size_eq
  activeSize_eq := activeSize_eq_mul r.copy
  pages_le := h.pages_le
  capacity_le := h.capacity_le
  covers := Nat.le_refl _

/-! ## Actions -/

/-- What an action that answers `answer` may make of a memory. -/
structure Action.Advances (action : Action) (answer : Except Fault Answer) (r r' : Region max) :
    Prop where
  pages_le : r.pages ≤ r'.pages
  capacity_le : r.capacity ≤ r'.capacity
  /-- Without a growth the pages stay. -/
  still : action.delta? = none → r'.pages = r.pages
  /-- A growth that is granted adds exactly what was asked for. -/
  grown : ∀ delta, action.delta? = some delta → ¬action.Refused answer →
    r'.pages.toNat = r.pages.toNat + delta.toNat
  /-- A refusal changes neither bytes nor counts nor allocation. -/
  refused : action.Refused answer → r' = r

variable {limit : Nat} {action : Action} {answer : Except Fault Answer} {r r' : Region max}

theorem WellFormed.grown {delta : UInt32} (h : r.WellFormed)
    (hfits : r.toBacking.Fits delta max) :
    (⟨r.toBacking.grown delta max⟩ : Region max).WellFormed := by
  have hpages := Backing.toNat_pages_grown hfits
  have hcapacity : (r.toBacking.target delta max).toNat ≤ max.toNat := by
    refine targetCapacity_le (UInt32.le_iff_toNat_le.mp h.capacity_le) ?_
    rw [toNat_min]
    exact Nat.min_le_left _ _
  have hsize : (r.toBacking.grown delta max).storage.bytes.size =
      pageBytes (r.toBacking.grown delta max).pages := by
    rw [Backing.size_grown hfits, pageBytes, hpages]
  have hcover : pageBytes (r.toBacking.grown delta max).pages ≤
      pageBytes (r.toBacking.target delta max) := by
    apply pageBytes_mono
    rw [hpages]
    exact Backing.pages_le_target hfits
  exact
    { size_eq := hsize
      activeSize_eq := activeSize_eq_mul _
      pages_le := pageBytes_le_iff.mp hcover
      capacity_le := UInt32.le_iff_toNat_le.mpr hcapacity
      covers := by
        rw [Storage.Covers, hsize, Backing.allocation_grown hfits]
        exact Nat.le_trans hcover (Nat.le_max_right _ _) }

/-- Where the limit allows for the declared maximum, there is room for every
growth under the ceiling. -/
theorem WellFormed.hasRoom {delta : UInt32} (h : r.WellFormed)
    (hfits : r.toBacking.Fits delta max) (hlimit : pageBytes max ≤ limit) :
    r.toBacking.HasRoom limit delta max :=
  .inr (Nat.le_trans (pageBytes_le_iff.mpr (h.grown hfits).capacity_le) hlimit)

/-- The first growth of an empty memory, where the limit allows for the
declared maximum. -/
theorem exists_granted_new {delta : UInt32} (hfits : (new : Region max).toBacking.Fits delta max)
    (hlimit : pageBytes max ≤ limit) :
    ∃ r : Region max, (new : Region max).Granted limit delta r ∧ r.WellFormed ∧ r.pages = delta ∧
      r.capacity = (new : Region max).toBacking.target delta max ∧
      r.storage.allocation = pageBytes r.capacity :=
  ⟨_, granted_iff.mpr ⟨hfits, wellFormed_new.hasRoom hfits hlimit, rfl⟩,
    wellFormed_new.grown hfits, UInt32.zero_add delta, rfl,
    (Backing.allocation_grown hfits).trans (Nat.max_eq_right (Nat.zero_le _))⟩

theorem WellFormed.withBytes {bytes : Bytes} (h : r.WellFormed)
    (hsize : bytes.size = r.bytes.size) : (r.withBytes bytes).WellFormed where
  size_eq := hsize.trans h.size_eq
  activeSize_eq := activeSize_eq_mul _
  pages_le := h.pages_le
  capacity_le := h.capacity_le
  covers := Nat.le_trans (Nat.le_of_eq hsize) h.covers

theorem Action.Effect.wellFormed (h : action.Effect limit r answer r') (hr : r.WellFormed) :
    r'.WellFormed := by
  cases h with
  | stays _ _ => exact hr
  | grows _ _ _ hfits _ => exact hr.grown hfits
  | writes _ _ _ hsize _ => exact hr.withBytes hsize

theorem Action.Effect.advances (h : action.Effect limit r answer r') :
    action.Advances answer r r' := by
  cases h with
  | stays _ hdelta =>
    exact
      { pages_le := UInt32.le_refl _
        capacity_le := UInt32.le_refl _
        still := fun _ => rfl
        grown := fun delta hsome hgranted =>
          absurd (hdelta (by rw [hsome]; exact Option.some_ne_none delta)) hgranted
        refused := fun _ => rfl }
  | grows _ hdelta hanswer hfits _ =>
    have hpages := Backing.toNat_pages_grown hfits
    exact
      { pages_le := UInt32.le_iff_toNat_le.mpr (by rw [hpages]; exact Nat.le_add_right _ _)
        capacity_le := UInt32.le_iff_toNat_le.mpr (capacity_le_targetCapacity hfits)
        still := fun hnone => by rw [hnone] at hdelta; cases hdelta
        grown := fun delta hsome _ => by
          rw [hsome] at hdelta
          cases hdelta
          exact hpages
        refused := fun hrefused => absurd hrefused hanswer }
  | writes _ hdelta hanswer _ _ =>
    exact
      { pages_le := UInt32.le_refl _
        capacity_le := UInt32.le_refl _
        still := fun _ => rfl
        grown := fun delta hsome _ => by rw [hsome] at hdelta; cases hdelta
        refused := fun hrefused => absurd hrefused hanswer }

/-! ## Steps -/

namespace Session

variable {s s' : Session max} {step : Step} {entry : Entry}

/-- What a step with a given result makes of the memory of number `i`: only
the memory that is acted on is changed. -/
def Step.Advances (i : Nat) (r r' : Region max) : Step → Result → Prop
  | .act target action, .acted answer =>
    (i = target → action.Advances answer r r') ∧ (i ≠ target → r' = r)
  | .act _ _, _ => False
  | _, _ => r' = r

/-- What a step with a given result makes of the memories that are there
before it. -/
def Advances (s : Session max) (step : Step) (result : Result) (s' : Session max) : Prop :=
  ∀ i r, s.regions[i]? = some r →
    ∃ r', s'.regions[i]? = some r' ∧ step.Advances i r r' result

/-- A memory that is added leaves the others in their places. -/
theorem getElem?_add {r added : Region max} {i : Nat} (h : s.regions[i]? = some r) :
    (s.add added).2.regions[i]? = some r := by
  obtain ⟨hi, -⟩ := List.getElem?_eq_some_iff.mp h
  rw [add, List.getElem?_append_left hi]
  exact h

theorem forall_add {P : Region max → Prop} {added : Region max} (hs : ∀ r ∈ s.regions, P r)
    (hadded : P added) : ∀ r ∈ (s.add added).2.regions, P r := by
  intro r hr
  rcases List.mem_append.mp hr with hold | hnew
  · exact hs r hold
  · rw [List.mem_singleton.mp hnew]
    exact hadded

/-- Everything that a step can do. -/
inductive Stepped (s : Session max) : Step → Entry → Session max → Prop where
  | new : Stepped s .new (s.add Region.new).1 (s.add Region.new).2
  | refused {pages : UInt32} {e : ConstructionError}
      (h : (Region.tryNew s.limit pages : Except _ (Region max)) = .error e) :
      Stepped s (.tryNew pages) ⟨.refused e, none⟩ s
  | made {pages : UInt32} {r : Region max} (h : Region.tryNew s.limit pages = .ok r) :
      Stepped s (.tryNew pages) (s.add r).1 (s.add r).2
  | copied {source : Nat} {r : Region max} (h : s.regions[source]? = some r) :
      Stepped s (.copy source) (s.add r.copy).1 (s.add r.copy).2
  | acted {target : Nat} {action : Action} {r : Region max} (h : s.regions[target]? = some r) :
      Stepped s (.act target action)
        ⟨.acted ((action.perform s.limit).outcome r).1,
          some ((action.perform s.limit).outcome r).2.readings⟩
        { s with regions := s.regions.set target ((action.perform s.limit).outcome r).2 }
  | limitSet {bytes : Option Nat} :
      Stepped s (.setLimit bytes) ⟨.limitSet, none⟩ { s with limit := bytes.getD defaultLimit }

theorem step_eq_some_iff : s.step step = some (entry, s') ↔ s.Stepped step entry s' := by
  constructor
  · intro h
    cases step with
    | new =>
      cases h
      exact .new
    | tryNew pages =>
      rw [Session.step] at h
      split at h
      · cases h
        exact .refused ‹_›
      · cases h
        exact .made ‹_›
    | copy source =>
      obtain ⟨r, hr, hadd⟩ := Option.bind_eq_some_iff.mp h
      cases hadd
      exact .copied hr
    | act target action =>
      obtain ⟨r, hr, hset⟩ := Option.bind_eq_some_iff.mp h
      cases hset
      exact .acted hr
    | setLimit bytes =>
      cases h
      exact .limitSet
  · intro h
    cases h with
    | new => rfl
    | refused he => rw [Session.step, he]
    | made hr => rw [Session.step, hr]
    | copied hr =>
      rw [Session.step, hr]
      rfl
    | acted hr =>
      rw [Session.step, hr]
      rfl
    | limitSet => rfl

section Acted

variable {target : Nat} {action : Action} {answer : Except Fault Answer} {delta : UInt32}
  {r r' : Region max} {pages : UInt32}

/-- A step whose action has a known outcome. -/
theorem Stepped.of_outcome (hr : s.regions[target]? = some r)
    (h : (action.perform s.limit).outcome r = (answer, r')) :
    s.Stepped (.act target action) ⟨.acted answer, some r'.readings⟩
      { s with regions := s.regions.set target r' } := by
  have hstep : s.Stepped (.act target action) _ _ := .acted hr
  rwa [h] at hstep

/-- A step that is a growth for which there is no room. -/
theorem Stepped.of_outOfMemory (hr : s.regions[target]? = some r)
    (hdelta : action.delta? = some delta) (h : r.OutOfMemory s.limit delta pages) :
    s.Stepped (.act target action)
      ⟨.acted (.ok (action.say (.error (.outOfMemory pages)))), some r.readings⟩ s := by
  have hstep := Stepped.of_outcome hr (h.outcome hdelta)
  rwa [set_of_getElem? hr] at hstep

end Acted

theorem Stepped.wellFormed (h : s.Stepped step entry s') (hs : ∀ r ∈ s.regions, r.WellFormed) :
    ∀ r ∈ s'.regions, r.WellFormed := by
  cases h with
  | new => exact forall_add hs wellFormed_new
  | refused _ => exact hs
  | made hnew => exact forall_add hs (.of_tryNew hnew)
  | copied hr => exact forall_add hs (hs _ (List.mem_of_getElem? hr)).copy
  | @acted target action r hr =>
    intro r' hmem
    rcases List.mem_or_eq_of_mem_set hmem with hold | rfl
    · exact hs r' hold
    · have hwf := hs r (List.mem_of_getElem? hr)
      exact (Action.perform_effect s.limit action hwf.size_eq).wellFormed hwf
  | limitSet => exact hs

theorem Stepped.advances (h : s.Stepped step entry s') (hs : ∀ r ∈ s.regions, r.WellFormed) :
    s.Advances step entry.result s' := by
  intro i r hi
  cases h with
  | new => exact ⟨r, getElem?_add hi, rfl⟩
  | refused _ => exact ⟨r, hi, rfl⟩
  | made _ => exact ⟨r, getElem?_add hi, rfl⟩
  | copied _ => exact ⟨r, getElem?_add hi, rfl⟩
  | @acted target action acted hr =>
    by_cases htarget : i = target
    · subst htarget
      rw [hr] at hi
      cases hi
      have hlt := (List.getElem?_eq_some_iff.mp hr).1
      have hwf := hs r (List.mem_of_getElem? hr)
      have heffect := Action.perform_effect s.limit action hwf.size_eq
      exact ⟨_, List.getElem?_set_self hlt, fun _ => heffect.advances, fun hne => absurd rfl hne⟩
    · have hother : (s.regions.set target ((action.perform s.limit).outcome acted).2)[i]? =
          some r := (List.getElem?_set_ne (Ne.symm htarget)).trans hi
      exact ⟨r, hother, fun heq => absurd heq htarget, fun _ => rfl⟩
  | limitSet => exact ⟨r, hi, rfl⟩

/-! ## Runs -/

theorem Stepped.run_cons {s₁ : Session max} {steps : List Step} {entries : List Entry}
    (h : s.Stepped step entry s₁) (hrest : s₁.run steps = some (entries, s')) :
    s.run (step :: steps) = some (entry :: entries, s') :=
  Steps.run_cons.mpr ⟨entry, s₁, entries, step_eq_some_iff.mpr h, hrest, rfl⟩

/-- The memory that a step names, if it names one, is among the first `n`. -/
def Step.Names (n : Nat) : Step → Prop
  | .copy source => source < n
  | .act target _ => target < n
  | _ => True

theorem exists_step (h : step.Names s.regions.length) :
    ∃ entry s', s.step step = some (entry, s') ∧ s.regions.length ≤ s'.regions.length := by
  have hadd : ∀ r, s.regions.length ≤ (s.add r).2.regions.length := by
    intro r
    rw [add, List.length_append]
    exact Nat.le_add_right _ _
  cases step with
  | new => exact ⟨_, _, step_eq_some_iff.mpr .new, hadd _⟩
  | tryNew pages =>
    cases hmake : (Region.tryNew s.limit pages : Except _ (Region max)) with
    | error e => exact ⟨_, _, step_eq_some_iff.mpr (.refused hmake), Nat.le_refl _⟩
    | ok r => exact ⟨_, _, step_eq_some_iff.mpr (.made hmake), hadd r⟩
  | copy source =>
    have hsource : s.regions[source]? = some s.regions[source] := List.getElem?_eq_getElem h
    exact ⟨_, _, step_eq_some_iff.mpr (.copied hsource), hadd _⟩
  | act target action =>
    have htarget : s.regions[target]? = some s.regions[target] := List.getElem?_eq_getElem h
    refine ⟨_, _, step_eq_some_iff.mpr (.acted htarget), ?_⟩
    rw [List.length_set]
  | setLimit bytes => exact ⟨_, _, step_eq_some_iff.mpr .limitSet, Nat.le_refl _⟩

/-- A run whose steps name memories that are there at its start goes through
to its end, whatever is refused or stops with a fault on the way. -/
theorem exists_run {steps : List Step}
    (h : ∀ step ∈ steps, step.Names s.regions.length) :
    ∃ entries s', s.run steps = some (entries, s') := by
  suffices hrun : ∀ n ≤ s.regions.length, (∀ step ∈ steps, step.Names n) →
      ∃ entries s', s.run steps = some (entries, s') from hrun _ (Nat.le_refl _) h
  clear h
  induction steps generalizing s with
  | nil => exact fun _ _ _ => ⟨[], s, rfl⟩
  | cons step steps ih =>
    intro n hn hnames
    have hstep : step.Names s.regions.length := by
      have hname := hnames step (List.mem_cons_self ..)
      cases step with
      | copy source => exact Nat.lt_of_lt_of_le hname hn
      | act target action => exact Nat.lt_of_lt_of_le hname hn
      | _ => trivial
    obtain ⟨entry, s₁, hstep, hlength⟩ := exists_step hstep
    obtain ⟨entries, s', hrun⟩ := ih n (Nat.le_trans hn hlength)
      fun later hlater => hnames later (List.mem_cons_of_mem _ hlater)
    exact ⟨entry :: entries, s', Steps.run_cons.mpr ⟨entry, s₁, entries, hstep, hrun, rfl⟩⟩

/-- Two empty memories are enough for a run that names no others, and what
holds of every such run then holds of one. -/
theorem exists_run_of_new {limit : Nat} {steps : List Step}
    {P : List Entry → Session max → Prop} (h : ∀ step ∈ steps, step.Names 2)
    (hP : ∀ entries s',
      (⟨limit, []⟩ : Session max).run ([.new, .new] ++ steps) = some (entries, s') →
        P entries s') :
    ∃ entries s', (⟨limit, []⟩ : Session max).run ([.new, .new] ++ steps) = some (entries, s') ∧
      P entries s' := by
  have hfresh : (⟨limit, []⟩ : Session max).run [.new, .new] =
      some ([⟨.made 0, some Region.new.readings⟩, ⟨.made 1, some Region.new.readings⟩],
        ⟨limit, [Region.new, Region.new]⟩) := rfl
  obtain ⟨entries, s', hlater⟩ := exists_run (s := ⟨limit, [Region.new, Region.new]⟩) h
  have hrun := Steps.run_append.mpr ⟨_, _, _, hfresh, hlater, rfl⟩
  exact ⟨_, s', hrun, hP _ s' hrun⟩

theorem run_wellFormed {steps : List Step} {entries : List Entry}
    (h : s.run steps = some (entries, s')) (hs : ∀ r ∈ s.regions, r.WellFormed) :
    ∀ r ∈ s'.regions, r.WellFormed := by
  induction steps generalizing s entries with
  | nil =>
    cases h
    exact hs
  | cons step steps ih =>
    obtain ⟨entry, s₁, rest, hstep, hrest, -⟩ := Steps.run_cons.mp h
    exact ih hrest ((step_eq_some_iff.mp hstep).wellFormed hs)

theorem wellFormed_none : ∀ r ∈ ([] : List (Region max)), r.WellFormed := by
  intro r hr
  cases hr

/-- In every run from a session without memories, every memory is well
formed at the end, and so it is before and after each step of the run; and
each step advances the memories that are there before it. -/
theorem run_keeps_wellFormed {limit : Nat} {steps : List Step} {entries : List Entry}
    (h : (⟨limit, []⟩ : Session max).run steps = some (entries, s')) :
    (∀ r ∈ s'.regions, r.WellFormed) ∧
    ∀ before step after, steps = before ++ step :: after →
      ∃ first s₁ entry s₂ rest,
        (⟨limit, []⟩ : Session max).run before = some (first, s₁) ∧
        s₁.step step = some (entry, s₂) ∧
        entries = first ++ entry :: rest ∧
        (∀ r ∈ s₂.regions, r.WellFormed) ∧
        s₁.Advances step entry.result s₂ := by
  have hnone : ∀ r ∈ (⟨limit, []⟩ : Session max).regions, r.WellFormed := wellFormed_none
  refine ⟨run_wellFormed h hnone, ?_⟩
  rintro before step after rfl
  obtain ⟨first, s₁, tail, hfirst, htail, rfl⟩ := Steps.run_append.mp h
  obtain ⟨entry, s₂, rest, hstep, -, rfl⟩ := Steps.run_cons.mp htail
  have hwf := run_wellFormed hfirst hnone
  have hstepped := step_eq_some_iff.mp hstep
  exact ⟨first, s₁, entry, s₂, rest, hfirst, hstep, rfl, hstepped.wellFormed hwf,
    hstepped.advances hwf⟩

/-- A run with a growth, a store across the end of the memory, growths that
are refused for either reason, and a copy.  The one beyond the ceiling leaves
the memory as it was. -/
theorem run_keeps_wellFormed_in_four_pages :
    let before : List Step := [.act 0 (.grow 1), .act 0 (.store .w32 65534 7)]
    let after : List Step := [.copy 0, .setLimit (some 0), .act 1 (.tryGrow 1)]
    ∃ entries s', (⟨defaultLimit, []⟩ : Session 4).run
        ([.new, .new] ++ (before ++ .act 0 (.tryGrow 5) :: after)) = some (entries, s') ∧
      (∀ r ∈ s'.regions, r.WellFormed) ∧
      ∃ first s₁ entry s₂ r,
        (⟨defaultLimit, []⟩ : Session 4).run ([.new, .new] ++ before) = some (first, s₁) ∧
        s₁.step (.act 0 (.tryGrow 5)) = some (entry, s₂) ∧
        s₁.regions[0]? = some r ∧ s₂.regions[0]? = some r := by
  intro before after
  refine exists_run_of_new (by simp [before, after, Step.Names]) fun entries s' hrun => ?_
  obtain ⟨hwf, hmoments⟩ := run_keeps_wellFormed hrun
  obtain ⟨first, s₁, entry, s₂, -, hfirst, hstep, -, -, hadvances⟩ :=
    hmoments ([.new, .new] ++ before) (.act 0 (.tryGrow 5)) after rfl
  refine ⟨hwf, first, s₁, entry, s₂, ?_⟩
  cases step_eq_some_iff.mp hstep with
  | @acted _ _ r hr =>
    have hfits : ¬r.toBacking.Fits 5 4 := fun hfits =>
      absurd (Nat.le_trans (Nat.le_add_left 5 _) hfits) (by decide)
    obtain ⟨r₂, hr₂, hacted, -⟩ := hadvances 0 r hr
    have hadvanced := hacted rfl
    rw [outcome_of_not_fits rfl hfits] at hadvanced
    obtain rfl : r₂ = r := hadvanced.refused trivial
    exact ⟨r₂, hfirst, hstep, hr, hr₂⟩

end Session

end Region

end PagedMemory
