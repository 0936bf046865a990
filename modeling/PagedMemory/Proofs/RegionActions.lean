/-
PagedMemory.Proofs.RegionActions — everything that one action can do to a
linear memory.

  - `Write`          — a write as the memory's owner asked for it, and the
                       byte that it puts at an address.
  - `Action.Refused` — an answer that is a fault, an error or the sentinel
                       of a growth.
  - `Action.Effect`  — the three things that can happen: the memory stays
                       as it is, it grows, or its bytes are written.

`Action.perform_effect` is the inversion of `Action.perform`: what holds of
the three cases of `Effect` holds of every action, and later proofs go
through the cases instead of through the actions.
-/
import PagedMemory.Proofs.AccessTheorems
import PagedMemory.Proofs.GrowthTheorems
import PagedMemory.Region.Action

namespace PagedMemory

namespace Region

variable {max : UInt32}

/-! ## Writes -/

/-- A write that was granted. -/
inductive Write where
  | store (w : Width) (offset : UInt64) (v : Word w)
  | initData (offset : UInt64) (data : List UInt8)
  /-- A fill at a moment when `committed` bytes were committed. -/
  | fill (x : UInt8) (committed : Nat)

/-- The byte that a write puts at an address, if it covers it. -/
def Write.byte? : Write → Nat → Option UInt8
  | .store w offset v, a =>
    if offset.toNat ≤ a ∧ a < offset.toNat + w.byteCount then
      some (UInt8.ofNat (w.value v / 256 ^ (a - offset.toNat)))
    else none
  | .initData offset data, a => if offset.toNat ≤ a then data[a - offset.toNat]? else none
  | .fill x committed, a => if a < committed then some x else none

/-- The write that an action has made, as its answer tells; `committed` is
the size of the memory at that moment. -/
def Action.write? (committed : Nat) : Action → Except Fault Answer → Option Write
  | .store w offset v, .ok _ => some (.store w offset v)
  | .access (.store w _ offset v), .ok _ => some (.store w offset v)
  | .initData offset data, .ok (.copied (.ok _)) => some (.initData offset data)
  | .fill x, .ok _ => some (.fill x committed)
  | _, _ => none

/-! ## Answers -/

/-- An answer that refuses what was asked for. -/
def Action.Refused : Action → Except Fault Answer → Prop
  | _, .error _ => True
  | .grow _, .ok (.number n) => n = growFailed.toNat
  | .tryGrow _, .ok (.grown (.error _)) => True
  | .initData _ _, .ok (.copied (.error _)) => True
  | _, .ok _ => False

/-- The pages that an action asks for. -/
def Action.delta? : Action → Option UInt32
  | .grow delta => some delta
  | .tryGrow delta => some delta
  | _ => none

/-! ## Effects -/

/-- The memory with other bytes in its storage. -/
def withBytes (bytes : Bytes) (r : Region max) : Region max :=
  ⟨{ r.toBacking with storage := { r.storage with bytes } }⟩

@[simp] theorem bytes_withBytes (bytes : Bytes) (r : Region max) :
    (r.withBytes bytes).bytes = bytes := rfl

@[simp] theorem pages_withBytes (bytes : Bytes) (r : Region max) :
    (r.withBytes bytes).pages = r.pages := rfl

@[simp] theorem capacity_withBytes (bytes : Bytes) (r : Region max) :
    (r.withBytes bytes).capacity = r.capacity := rfl

/-- What an action that answers `answer` makes of a memory. -/
inductive Action.Effect (limit : Nat) (action : Action) (r : Region max) :
    Except Fault Answer → Region max → Prop where
  /-- Nothing changes, and if pages were asked for they were refused. -/
  | stays {answer : Except Fault Answer}
      (hwrite : action.write? r.activeSize answer = none)
      (hdelta : action.delta? ≠ none → action.Refused answer) :
      Effect limit action r answer r
  /-- The pages that were asked for are committed. -/
  | grows {answer : Except Fault Answer} {delta : UInt32}
      (hwrite : action.write? r.activeSize answer = none)
      (hdelta : action.delta? = some delta) (hanswer : ¬action.Refused answer)
      (hfits : r.toBacking.Fits delta max) (hroom : r.toBacking.HasRoom limit delta max) :
      Effect limit action r answer ⟨r.toBacking.grown delta max⟩
  /-- The bytes that a write covers are written. -/
  | writes {answer : Except Fault Answer} {write : Write} {bytes : Bytes}
      (hwrite : action.write? r.activeSize answer = some write)
      (hdelta : action.delta? = none) (hanswer : ¬action.Refused answer)
      (hsize : bytes.size = r.bytes.size)
      (hbytes : ∀ a, bytes.byteAt a = (write.byte? a).getD (r.bytes.byteAt a)) :
      Effect limit action r answer (r.withBytes bytes)

/-! ## The parts of a memory -/

theorem outcome_onBacking {α : Type} (m : Routine Backing α) (r : Region max) :
    (onBacking m).outcome r =
      ((m.outcome r.toBacking).1, ⟨(m.outcome r.toBacking).2⟩) :=
  Routine.outcome_onPart ..

theorem outcome_onBytes {α : Type} (m : Routine Bytes α) (r : Region max) :
    (onBytes m).outcome r = ((m.outcome r.bytes).1, r.withBytes (m.outcome r.bytes).2) := by
  rw [onBytes, outcome_onBacking, Backing.onBytes, Routine.outcome_onPart]
  rfl

theorem outcome_grow (limit : Nat) (delta : UInt32) (r : Region max) :
    (grow limit delta : Routine (Region max) _).outcome r =
      if r.toBacking.Fits delta max ∧ r.toBacking.HasRoom limit delta max then
        (.ok r.pages, ⟨r.toBacking.grown delta max⟩)
      else (.ok growFailed, r) := by
  rw [grow, outcome_onBacking, Routine.outcome, Backing.grow_eq]
  by_cases h : r.toBacking.Fits delta max ∧ r.toBacking.HasRoom limit delta max
  · simp only [if_pos h]
  · simp only [if_neg h]

theorem outcome_fill (x : UInt8) (r : Region max) :
    (fill x : Routine (Region max) _).outcome r = (.ok (), r.withBytes (r.bytes.fill x)) :=
  outcome_onBytes (modify fun bytes : Bytes => bytes.fill x) r

theorem outcome_store (w : Width) (offset : UInt64) (v : Word w) (r : Region max) :
    (store w offset v).outcome r =
      (((Access.store w offset v).outcome r.bytes).1,
        r.withBytes ((Access.store w offset v).outcome r.bytes).2) :=
  outcome_onBytes ..

/-- The committed pages end at a 64-bit offset, so a segment whose end is
none is not inside them, and the two checks on the pages and on the bytes
decide. -/
theorem outcome_initData (offset : UInt64) (data : List UInt8) (r : Region max) :
    (initData offset data).outcome r =
      if offset.toNat + data.length ≤ r.activeSize ∧
          offset.toNat + data.length ≤ r.bytes.size then
        (.ok (.ok ()), r.withBytes (r.bytes.overwrite offset.toNat data))
      else (.ok (.error .outOfBounds), r) := by
  have hmodify : (onBytes (modify fun bytes : Bytes => bytes.overwrite offset.toNat data) :
      Routine (Region max) Unit).outcome r =
        (.ok (), r.withBytes (r.bytes.overwrite offset.toNat data)) := outcome_onBytes _ r
  rw [initData, Routine.outcome_bind, Routine.outcome_get]
  dsimp only
  by_cases hactive : offset.toNat + data.length ≤ r.activeSize
  · have hend : offset.toNat + data.length < UInt64.size :=
      Nat.lt_of_le_of_lt hactive (pageBytes_lt r.pages)
    rw [if_neg (Nat.not_le.mpr hend), if_neg (Nat.not_lt.mpr hactive)]
    by_cases hheld : offset.toNat + data.length ≤ r.bytes.size
    · rw [if_neg (Nat.not_lt.mpr hheld), if_pos ⟨hactive, hheld⟩, Routine.outcome_bind_pure,
        hmodify]
      rfl
    · rw [if_pos (Nat.not_le.mp hheld), if_neg fun h => hheld h.2]
      rfl
  · rw [if_pos (Nat.not_le.mp hactive), ite_self, if_neg fun h => hactive h.1]
    rfl

/-! ## Writes on bytes -/

theorem byteAt_overwrite_word {w : Width} {offset : UInt64} {v : Word w} {b : Bytes}
    (hfit : offset.toNat + w.byteCount ≤ b.size) (a : Nat) :
    (b.overwrite offset.toNat (w.toBytes v)).byteAt a =
      ((Write.store w offset v).byte? a).getD (b.byteAt a) := by
  rw [Access.byteAt_overwrite_toBytes hfit, Write.byte?]
  split <;> rfl

theorem byteAt_overwrite_data {offset : UInt64} {data : List UInt8} {b : Bytes}
    (hfit : offset.toNat + data.length ≤ b.size) (a : Nat) :
    (b.overwrite offset.toNat data).byteAt a =
      ((Write.initData offset data).byte? a).getD (b.byteAt a) := by
  rw [Bytes.byteAt_overwrite _ _ _ _ hfit, Write.byte?]
  by_cases hle : offset.toNat ≤ a
  · rw [if_pos hle]
    by_cases hlt : a < offset.toNat + data.length
    · have hindex : a - offset.toNat < data.length := by omega
      rw [if_pos ⟨hle, hlt⟩, List.getD_eq_getElem?_getD, List.getElem?_eq_getElem hindex]
      rfl
    · rw [if_neg fun h => hlt h.2, List.getElem?_eq_none (by omega)]
      rfl
  · rw [if_neg hle, if_neg fun h => hle h.1]
    rfl

theorem byteAt_fill_committed {x : UInt8} {committed : Nat} {b : Bytes}
    (hsize : b.size = committed) (a : Nat) :
    (b.fill x).byteAt a = ((Write.fill x committed).byte? a).getD (b.byteAt a) := by
  rw [Bytes.byteAt_fill, Write.byte?, hsize]
  by_cases hlt : a < committed
  · rw [if_pos hlt, if_pos hlt]
    rfl
  · rw [if_neg hlt, if_neg hlt, Option.getD_none, Bytes.byteAt_of_le (by omega)]

/-! ## Every action -/

namespace Action

variable {limit : Nat} {r : Region max}

theorem grow_effect (limit : Nat) (delta : UInt32) (r : Region max) :
    Effect limit (.grow delta) r (((grow delta).perform limit).outcome r).1
      (((grow delta).perform limit).outcome r).2 := by
  rw [perform, Routine.outcome_bind, outcome_grow]
  by_cases h : r.toBacking.Fits delta max ∧ r.toBacking.HasRoom limit delta max
  · rw [if_pos h]
    refine .grows rfl rfl ?_ h.1 h.2
    intro hcode
    exact Backing.pages_ne_growFailed h.1 (UInt32.toNat_inj.mp (Int.ofNat_inj.mp hcode))
  · rw [if_neg h]
    exact .stays rfl fun _ => rfl

theorem tryGrow_effect (limit : Nat) (delta : UInt32) (r : Region max) :
    Effect limit (.tryGrow delta) r (((tryGrow delta).perform limit).outcome r).1
      (((tryGrow delta).perform limit).outcome r).2 := by
  rw [perform, Routine.outcome_map, Region.tryGrow, outcome_onBacking]
  rcases Backing.tryGrow_cases limit delta max r.toBacking with
    ⟨-, htry⟩ | ⟨-, -, htry⟩ | ⟨hfits, hroom, htry⟩
  · rw [Routine.outcome, htry]
    exact .stays rfl fun _ => trivial
  · rw [Routine.outcome, htry]
    exact .stays rfl fun _ => trivial
  · rw [Routine.outcome, htry]
    exact .grows rfl rfl id hfits hroom

theorem store_effect (limit : Nat) (w : Width) (offset : UInt64) (v : Word w) (r : Region max) :
    Effect limit (.store w offset v) r (((store w offset v).perform limit).outcome r).1
      (((store w offset v).perform limit).outcome r).2 := by
  rw [perform, Routine.outcome_bind_pure, outcome_store]
  rcases Access.outcome_store_cases w offset v r.bytes with ⟨f, hf⟩ | ⟨hfit, hok⟩
  · rw [hf]
    exact .stays rfl fun h => absurd rfl h
  · rw [hok]
    exact .writes rfl rfl id (Bytes.size_overwrite ..) (byteAt_overwrite_word hfit)

/-- A store inside the committed bytes is granted. -/
theorem outcome_store_of_le {w : Width} {offset : UInt64}
    (hfit : offset.toNat + w.byteCount ≤ r.bytes.size) (hsize : r.bytes.size < UInt64.size)
    (v : Word w) (limit : Nat) :
    ((store w offset v).perform limit).outcome r =
      (.ok .done, r.withBytes (r.bytes.overwrite offset.toNat (w.toBytes v))) := by
  rw [perform, Routine.outcome_bind_pure, Region.outcome_store, Access.outcome_store,
    if_pos (Nat.lt_of_le_of_lt hfit hsize), if_pos hfit]
  rfl

theorem access_effect (limit : Nat) (c : Access.Call) (r : Region max) :
    Effect limit (.access c) r (((access c).perform limit).outcome r).1
      (((access c).perform limit).outcome r).2 := by
  rw [perform, outcome_onBytes]
  rcases Access.Call.run_cases c r.bytes with
    ⟨hsame, hstore⟩ | ⟨w, promise, offset, v, rfl, hfit, hok⟩
  · rw [hsame]
    refine .stays ?_ fun h => absurd rfl h
    cases c with
    | store w promise offset v =>
      obtain ⟨f, hf⟩ := hstore w promise offset v rfl
      rw [hf]
      rfl
    | _ => cases (Access.Call.run _ |>.outcome r.bytes).1 <;> rfl
  · rw [hok]
    exact .writes rfl rfl id (Bytes.size_overwrite ..) (byteAt_overwrite_word hfit)

theorem initData_effect (limit : Nat) (offset : UInt64) (data : List UInt8) (r : Region max) :
    Effect limit (.initData offset data) r
      (((initData offset data).perform limit).outcome r).1
      (((initData offset data).perform limit).outcome r).2 := by
  rw [perform, Routine.outcome_map, outcome_initData]
  by_cases h : offset.toNat + data.length ≤ r.activeSize ∧
      offset.toNat + data.length ≤ r.bytes.size
  · rw [if_pos h]
    exact .writes rfl rfl id (Bytes.size_overwrite ..) (byteAt_overwrite_data h.2)
  · rw [if_neg h]
    exact .stays rfl fun h => absurd rfl h

/-- Every action has one of the three effects. -/
theorem perform_effect (limit : Nat) (action : Action) (hsize : r.bytes.size = r.activeSize) :
    Effect limit action r ((action.perform limit).outcome r).1
      ((action.perform limit).outcome r).2 := by
  cases action with
  | inspect i => exact .stays rfl fun h => absurd rfl h
  | grow delta => exact grow_effect limit delta r
  | tryGrow delta => exact tryGrow_effect limit delta r
  | load w offset =>
    rw [perform, Routine.outcome_map, Routine.outcome_reading]
    refine .stays ?_ fun h => absurd rfl h
    cases Region.load w r offset <;> rfl
  | store w offset v => exact store_effect limit w offset v r
  | access c => exact access_effect limit c r
  | initData offset data => exact initData_effect limit offset data r
  | fill x =>
    rw [perform, Routine.outcome_bind_pure, outcome_fill]
    exact .writes rfl rfl id (Bytes.size_fill ..) (byteAt_fill_committed hsize)
  | debug layout => exact .stays rfl fun h => absurd rfl h

end Action

end Region

end PagedMemory
