/-
PagedMemory.Proofs.RegionOutcomes — what the operations on a linear memory
answer, what they leave, and what this depends on.

`tryNew_eq` lists the three results of making a memory.  A growth
(`outcome_growth`) is `Region.tryGrow` with its result put into
words, and `outcome_tryGrow` lists its three results: granted, refused by
the allocator, refused at the ceiling.

`withReserve` gives a memory another capacity and another allocation.  An
action that asks for no pages does not notice (`perform_withReserve`): it
answers the same, unless its answer is a debug text, and carries the
reserve along.  A growth that is granted commits the same bytes
(`bytes_grown_withReserve`).
-/
import PagedMemory.Proofs.RegionActions

namespace PagedMemory

/-- An empty storage is given exactly the room that it asks for. -/
theorem Storage.reserve_empty (limit size : Nat) :
    Storage.empty.reserve limit size =
      if size ≤ limit then some ⟨ByteArray.empty, size⟩ else none := by
  rw [reserve]
  by_cases hzero : size ≤ Storage.empty.allocation
  · obtain rfl : size = 0 := Nat.le_zero.mp hzero
    rw [if_pos hzero, if_pos (Nat.zero_le limit)]
    rfl
  · rw [if_neg hzero]
    rfl

namespace Region

variable {max : UInt32} {action : Action} {delta : UInt32}

/-! ## Making a memory -/

/-- Some zeroed pages in an allocation of their size. -/
def zeroed (initial : UInt32) : Region max :=
  ⟨(⟨ByteArray.empty, pageBytes initial⟩ : Storage).resize (pageBytes initial), initial, initial⟩

theorem allocation_zeroed (initial : UInt32) :
    (zeroed initial : Region max).storage.allocation = pageBytes initial :=
  Nat.max_self _

/-- A memory is made unless it may not have so many pages or there is no room
for them. -/
theorem tryNew_eq (limit : Nat) (initial : UInt32) :
    (tryNew limit initial : Except _ (Region max)) =
      if initial ≤ max then
        if pageBytes initial ≤ limit then .ok (zeroed initial) else .error (.outOfMemory initial)
      else .error (.initialPagesExceedMax initial max) := by
  rw [tryNew, Storage.reserve_empty]
  by_cases hmax : initial ≤ max
  · rw [if_pos hmax, if_neg (UInt32.not_lt.mpr hmax)]
    by_cases hroom : pageBytes initial ≤ limit
    · rw [if_pos hroom, if_pos hroom]
      rfl
    · rw [if_neg hroom, if_neg hroom]
  · rw [if_neg hmax, if_pos (UInt32.not_le.mp hmax)]

theorem tryNew_eq_ok_iff {limit : Nat} {initial : UInt32} {r : Region max} :
    tryNew limit initial = .ok r ↔
      initial ≤ max ∧ pageBytes initial ≤ limit ∧ r = zeroed initial := by
  rw [tryNew_eq]
  by_cases hmax : initial ≤ max
  · by_cases hroom : pageBytes initial ≤ limit
    · simp [hmax, hroom, eq_comm]
    · simp [hmax, hroom]
  · simp [hmax]

/-! ## Growths -/

theorem outcome_tryGrow (limit : Nat) (delta : UInt32) (r : Region max) :
    (tryGrow limit delta).outcome r =
      if r.toBacking.Fits delta max then
        if r.toBacking.HasRoom limit delta max then
          (.ok (.ok r.pages), ⟨r.toBacking.grown delta max⟩)
        else (.ok (.error (.outOfMemory (r.toBacking.target delta max))), r)
      else
        (.ok (.error (.exceedsCeiling (r.pages.toUInt64 + delta.toUInt64) (min max pageCeiling))),
          r) := by
  rw [tryGrow, outcome_onBacking, Routine.outcome, Backing.tryGrow_eq]
  by_cases hfits : r.toBacking.Fits delta max
  · by_cases hroom : r.toBacking.HasRoom limit delta max
    · simp only [if_pos hfits, if_pos hroom]
    · simp only [if_pos hfits, if_neg hroom]
  · simp only [if_neg hfits]

/-- How a growth action puts the result of the growth. -/
def Action.say : Action → Except GrowError UInt32 → Answer
  | .grow _, result => .number (Backing.grownOrCode result).toNat
  | _, result => .grown result

theorem outcome_grow_eq_map (limit : Nat) (delta : UInt32) (r : Region max) :
    (grow limit delta).outcome r =
      (((tryGrow limit delta).outcome r).1.map Backing.grownOrCode,
        ((tryGrow limit delta).outcome r).2) := by
  rw [grow, Backing.grow, outcome_onBacking, Routine.outcome_map, tryGrow, outcome_onBacking]

/-- A growth action is the growth, put its way. -/
theorem outcome_growth (h : action.delta? = some delta) (limit : Nat) (r : Region max) :
    (action.perform limit).outcome r =
      (((tryGrow limit delta).outcome r).1.map action.say, ((tryGrow limit delta).outcome r).2) := by
  cases action with
  | grow d =>
    cases h
    rw [Action.perform, Routine.outcome_bind, outcome_grow_eq_map]
    cases ((tryGrow limit delta).outcome r).1 <;> rfl
  | tryGrow d =>
    cases h
    exact Routine.outcome_map ..
  | _ => cases h

/-- A growth beyond the ceiling is refused by the counts alone. -/
theorem outcome_of_not_fits {r : Region max} (h : action.delta? = some delta)
    (hfits : ¬r.toBacking.Fits delta max) (limit : Nat) :
    (action.perform limit).outcome r =
      (.ok (action.say (.error (.exceedsCeiling (r.pages.toUInt64 + delta.toUInt64)
        (min max pageCeiling)))), r) := by
  rw [outcome_growth h, outcome_tryGrow, if_neg hfits]
  rfl

/-- The first growth of an empty memory, by up to eight pages, reserves
eight, or all that the memory may have. -/
theorem toNat_target_new (hpos : 0 < delta.toNat) (hle : delta.toNat ≤ 8) :
    ((new : Region max).toBacking.target delta max).toNat =
      Nat.min 8 (min max pageCeiling).toNat := by
  have hpages : (new : Region max).pages + delta = delta := UInt32.zero_add delta
  have hlt : (new : Region max).capacity < (new : Region max).pages + delta := by
    rw [hpages, UInt32.lt_iff_toNat_lt]
    exact hpos
  have hwalk : reach delta.toNat 0 = 8 := by
    rw [reach, if_pos hpos]
    exact reach_of_le hle
  rw [Backing.target, targetCapacity_of_lt hlt, hpages, toNat_covering]
  exact congrArg (Nat.min · _) hwalk

/-- A growth is granted and leaves `r'`, whichever way it is asked for. -/
structure Granted (limit : Nat) (delta : UInt32) (r r' : Region max) : Prop where
  tryGrow_eq : (tryGrow limit delta).outcome r = (.ok (.ok r.pages), r')
  grow_eq : (grow limit delta).outcome r = (.ok r.pages, r')
  pages_ne : r.pages ≠ growFailed
  pages_eq : r'.pages.toNat = r.pages.toNat + delta.toNat

/-- The allocator refuses a growth room for `pages` pages, and the memory stays
as it is. -/
structure OutOfMemory (limit : Nat) (delta : UInt32) (r : Region max) (pages : UInt32) : Prop where
  tryGrow_eq : (tryGrow limit delta).outcome r = (.ok (.error (.outOfMemory pages)), r)
  grow_eq : (grow limit delta).outcome r = (.ok growFailed, r)

section Results

variable {limit : Nat} {r r' : Region max} {pages : UInt32}

theorem granted_iff : Granted limit delta r r' ↔ r.toBacking.Fits delta max ∧
    r.toBacking.HasRoom limit delta max ∧ r' = ⟨r.toBacking.grown delta max⟩ := by
  constructor
  · intro h
    have htry := h.tryGrow_eq
    rw [outcome_tryGrow] at htry
    split at htry
    · split at htry
      · exact ⟨‹_›, ‹_›, (congrArg Prod.snd htry).symm⟩
      · cases htry
    · cases htry
  · rintro ⟨hfits, hroom, rfl⟩
    have htry := outcome_tryGrow limit delta r
    rw [if_pos hfits, if_pos hroom] at htry
    exact
      { tryGrow_eq := htry
        grow_eq := by
          rw [outcome_grow_eq_map, htry]
          rfl
        pages_ne := Backing.pages_ne_growFailed hfits
        pages_eq := Backing.toNat_pages_grown hfits }

theorem outOfMemory_iff : OutOfMemory limit delta r pages ↔ r.toBacking.Fits delta max ∧
    ¬r.toBacking.HasRoom limit delta max ∧ pages = r.toBacking.target delta max := by
  constructor
  · intro h
    have htry := h.tryGrow_eq
    rw [outcome_tryGrow] at htry
    split at htry
    · split at htry
      · cases htry
      · cases htry
        exact ⟨‹_›, ‹_›, rfl⟩
    · cases htry
  · rintro ⟨hfits, hroom, rfl⟩
    have htry := outcome_tryGrow limit delta r
    rw [if_pos hfits, if_neg hroom] at htry
    exact
      { tryGrow_eq := htry
        grow_eq := by
          rw [outcome_grow_eq_map, htry]
          rfl }

theorem Granted.outcome (h : Granted limit delta r r') (hdelta : action.delta? = some delta) :
    (action.perform limit).outcome r = (.ok (action.say (.ok r.pages)), r') := by
  rw [outcome_growth hdelta, h.tryGrow_eq]
  rfl

theorem OutOfMemory.outcome (h : OutOfMemory limit delta r pages)
    (hdelta : action.delta? = some delta) :
    (action.perform limit).outcome r = (.ok (action.say (.error (.outOfMemory pages))), r) := by
  rw [outcome_growth hdelta, h.tryGrow_eq]
  rfl

end Results

/-! ## Another reserve -/

/-- The memory with another capacity and another allocation. -/
def withReserve (capacity : UInt32) (allocation : Nat) (r : Region max) : Region max :=
  ⟨⟨⟨r.storage.bytes, allocation⟩, r.pages, capacity⟩⟩

section Reserve

variable (capacity : UInt32) (allocation : Nat) (r : Region max)

theorem bytes_grown_withReserve (delta : UInt32) :
    ((r.withReserve capacity allocation).toBacking.grown delta max).storage.bytes =
      (r.toBacking.grown delta max).storage.bytes := rfl

/-- An action that asks for no pages does the same under another reserve and
under another limit.  Only a debug text shows the capacity, and nothing
shows the allocation. -/
theorem perform_withReserve (h : action.delta? = none) (limit' limit : Nat) :
    ((action.perform limit').outcome (r.withReserve capacity allocation)).2 =
      ((action.perform limit).outcome r).2.withReserve capacity allocation ∧
    ((∀ layout, action = .debug layout → capacity = r.capacity) →
      ((action.perform limit').outcome (r.withReserve capacity allocation)).1 =
        ((action.perform limit).outcome r).1) := by
  cases action with
  | grow d => cases h
  | tryGrow d => cases h
  | inspect i => exact ⟨rfl, fun _ => rfl⟩
  | load w offset =>
    rw [Action.perform, Action.perform, Routine.outcome_map, Routine.outcome_map,
      Routine.outcome_reading, Routine.outcome_reading]
    exact ⟨rfl, fun _ => rfl⟩
  | store w offset v =>
    rw [Action.perform, Action.perform, Routine.outcome_bind_pure, Routine.outcome_bind_pure,
      outcome_store, outcome_store]
    exact ⟨rfl, fun _ => rfl⟩
  | access c =>
    rw [Action.perform, Action.perform, outcome_onBytes, outcome_onBytes]
    exact ⟨rfl, fun _ => rfl⟩
  | initData offset data =>
    have hinit : (initData offset data).outcome (r.withReserve capacity allocation) =
        (((initData offset data).outcome r).1,
          ((initData offset data).outcome r).2.withReserve capacity allocation) := by
      refine (outcome_initData offset data (r.withReserve capacity allocation)).trans ?_
      rw [outcome_initData]
      by_cases hfit : offset.toNat + data.length ≤ r.activeSize ∧
          offset.toNat + data.length ≤ r.bytes.size
      · rw [if_pos hfit]
        exact if_pos hfit
      · rw [if_neg hfit]
        exact if_neg hfit
    rw [Action.perform, Action.perform, Routine.outcome_map, Routine.outcome_map, hinit]
    exact ⟨rfl, fun _ => rfl⟩
  | fill x =>
    rw [Action.perform, Action.perform, Routine.outcome_bind_pure, Routine.outcome_bind_pure,
      outcome_fill, outcome_fill]
    exact ⟨rfl, fun _ => rfl⟩
  | debug layout =>
    refine ⟨rfl, fun hcapacity => ?_⟩
    rw [hcapacity layout rfl]
    rfl

end Reserve

/-- The same pages and the same bytes, whatever is kept in reserve. -/
structure SameContents (r' r : Region max) : Prop where
  bytes_eq : r'.bytes = r.bytes
  pages_eq : r'.pages = r.pages

namespace SameContents

variable {r' r : Region max}

theorem refl (r : Region max) : r.SameContents r := ⟨rfl, rfl⟩

theorem copy (h : r'.SameContents r) : r'.copy.SameContents r.copy := ⟨h.bytes_eq, h.pages_eq⟩

theorem eq_withReserve (h : r'.SameContents r) :
    r' = r.withReserve r'.capacity r'.storage.allocation := by
  obtain ⟨⟨⟨bytes, allocation⟩, pages, capacity⟩⟩ := r'
  obtain ⟨hbytes, hpages⟩ := h
  cases hbytes
  cases hpages
  rfl

/-- The ceiling is compared with the pages alone. -/
theorem fits_iff (h : r'.SameContents r) :
    r'.toBacking.Fits delta max ↔ r.toBacking.Fits delta max := by
  rw [Backing.Fits, Backing.Fits, h.pages_eq]

theorem grown (h : r'.SameContents r) :
    (⟨r'.toBacking.grown delta max⟩ : Region max).SameContents ⟨r.toBacking.grown delta max⟩ where
  bytes_eq := by
    rw [h.eq_withReserve]
    exact bytes_grown_withReserve ..
  pages_eq := by rw [Backing.pages_grown, Backing.pages_grown, h.pages_eq]

end SameContents

end Region

end PagedMemory
