/-
PagedMemory.Proofs.FlatMemory — a linear memory holds what was last written
to it, and zero where nothing was written.

The history of a memory is the list of the writes that it was granted.  It is
kept beside a run and not inside the memory: `writeHistory` is the ledger that
reads it off the steps and their answers alone.  A copy starts with the
history of its original.

`Describes` ties a history to a memory byte by byte, also past the end,
where both are zero.  That makes a growth leave it alone: the bytes that
it commits were zero before as far as anyone could tell.
-/
import PagedMemory.Proofs.SideBySide

namespace PagedMemory

namespace Region

variable {max : UInt32}

/-! ## Histories -/

/-- The writes that a memory was granted, the latest first. -/
abbrev History : Type := List Write

namespace History

/-- What the latest write that covers an address put there, and zero if
none does. -/
def byteAt (history : History) (a : Nat) : UInt8 :=
  (history.findSome? (·.byte? a)).getD 0

theorem byteAt_cons (write : Write) (history : History) (a : Nat) :
    byteAt (write :: history) a = (write.byte? a).getD (byteAt history a) := by
  rw [byteAt, List.findSome?_cons]
  cases write.byte? a <;> rfl

/-- The memory holds the bytes of the history and no others. -/
def Describes (history : History) (r : Region max) : Prop :=
  ∀ a, r.bytes.byteAt a = history.byteAt a

theorem describes_new : Describes [] (new : Region max) := fun _ => rfl

/-- A memory that was just made holds zeros only. -/
theorem describes_of_tryNew {limit : Nat} {initial : UInt32} {r : Region max}
    (h : tryNew limit initial = .ok r) : Describes [] r := by
  obtain ⟨-, -, rfl⟩ := tryNew_eq_ok_iff.mp h
  intro a
  rw [bytes, zeroed, Storage.byteAt_resize]
  exact ite_self _

end History

/-! ## Actions -/

section Effect

variable {limit : Nat} {action : Action} {answer : Except Fault Answer} {r r' : Region max}
  {history : History}

/-- The write of an action joins the history, if it has made one. -/
theorem Action.Effect.describes (h : action.Effect limit r answer r') (hr : r.WellFormed)
    (hbytes : history.Describes r) :
    History.Describes ((action.write? r.activeSize answer).toList ++ history) r' := by
  intro a
  cases h with
  | stays hwrite _ =>
    rw [hwrite]
    exact hbytes a
  | grows hwrite _ _ hfits _ =>
    have hgrown := Backing.byteAt_grown hfits a
    have hcommitted : Nat.min r.storage.bytes.size (pageBytes r.pages) = r.bytes.size := by
      rw [show pageBytes r.pages = r.bytes.size from hr.size_eq.symm]
      exact Nat.min_self _
    rw [hcommitted] at hgrown
    rw [hwrite]
    refine Eq.trans ?_ (hbytes a)
    refine hgrown.trans ?_
    by_cases hlt : a < r.bytes.size
    · rw [if_pos hlt]
      rfl
    · rw [if_neg hlt, Bytes.byteAt_of_le (Nat.not_lt.mp hlt)]
  | @writes write bytes hwrite _ _ _ hwritten =>
    rw [hwrite, Option.toList_some, List.singleton_append, History.byteAt_cons, ← hbytes a]
    exact hwritten a

/-- An action that writes leaves the size alone, so the size may be taken
before it or after it. -/
theorem Action.Effect.write?_activeSize (h : action.Effect limit r answer r') :
    action.write? r'.activeSize answer = action.write? r.activeSize answer := by
  cases h with
  | stays _ _ => rfl
  | grows _ hdelta _ _ _ => cases action <;> first | rfl | cases hdelta
  | writes _ _ _ _ _ => rfl

end Effect

/-! ## Loads -/

/-- The actions that load a word from any offset. -/
def Action.Loads (w : Width) (offset : UInt64) (action : Action) : Prop :=
  action = .load w offset ∨ action = .access (.load w none offset)

theorem Action.Loads.outcome {w : Width} {offset : UInt64} {action : Action}
    (h : action.Loads w offset) (limit : Nat) (r : Region max) :
    (action.perform limit).outcome r = ((Region.load w r offset).map (Answer.word w), r) := by
  rcases h with rfl | rfl
  · rw [perform, Routine.outcome_map, Routine.outcome_reading]
  · rw [perform, outcome_onBytes, Access.Call.run, Routine.outcome_map, Routine.outcome_reading]
    rfl

open Finset in
/-- The bytes of a history are what a load inside the memory combines. -/
theorem History.Describes.load_of_le {history : History} {r : Region max} {w : Width}
    {offset : UInt64} (h : history.Describes r)
    (hfit : offset.toNat + w.byteCount ≤ r.bytes.size) (hsize : r.bytes.size < UInt64.size) :
    ∃ v, Region.load w r offset = .ok v ∧
      w.value v = ∑ k ∈ range w.byteCount, (history.byteAt (offset.toNat + k)).toNat * 256 ^ k := by
  obtain ⟨v, hload, hvalue⟩ := Access.load_of_le (Nat.lt_of_le_of_lt hfit hsize) hfit
  refine ⟨v, hload, hvalue.trans (sum_congr rfl fun k _ => ?_)⟩
  rw [h]

theorem load_of_not_le {r : Region max} {w : Width} {offset : UInt64}
    (h : ¬offset.toNat + w.byteCount ≤ r.bytes.size) :
    ∃ f, Region.load w r offset = .error f := by
  rw [Region.load, Access.load_eq, if_neg h]
  split <;> exact ⟨_, rfl⟩

/-! ## Sessions -/

namespace Session

variable {s' : Session max}

/-- The writes that a memory was granted, as its steps and their answers
tell; a copy starts with the history of its original. -/
def writeHistory : Ledger History where
  made _ := []
  copied history := history
  acted action answer readings history :=
    (action.write? readings.activeSize answer).toList ++ history

theorem writeHistory_sound :
    writeHistory.Sound fun history (r : Region max) => history.Describes r where
  new := History.describes_new
  made := History.describes_of_tryNew
  copied _ hdescribes := hdescribes
  acted := by
    intro history r limit action hr hdescribes
    have heffect := Action.perform_effect limit action hr.size_eq
    have hsame := heffect.write?_activeSize
    have hafter := heffect.describes hr hdescribes
    rw [← hsame] at hafter
    exact hafter

open Finset in
/-- In every run from a session without memories, every committed byte of
every memory is what the latest write to its address put there, or zero
without one.  So it is at each moment of the run, as each beginning of a run
is a run; and a load is granted exactly inside the committed pages and
combines these bytes. -/
theorem run_refines_flat_memory {limit : Nat} {steps : List Step} {entries : List Entry}
    (h : (⟨limit, []⟩ : Session max).run steps = some (entries, s')) :
    (writeHistory.recordAll [] steps entries).length = s'.regions.length ∧
    (∀ (i : Nat) (r : Region max), s'.regions[i]? = some r →
      ∃ history : History, (writeHistory.recordAll [] steps entries)[i]? = some history ∧
        r.bytes.size = r.pages.toNat * 65536 ∧
        ∀ a < r.pages.toNat * 65536, r.bytes.byteAt a = history.byteAt a) ∧
    ∀ before target action w offset after, steps = before ++ .act target action :: after →
      action.Loads w offset →
      ∃ first s₁ entry s₂ rest r,
        ∃ history : History,
        (⟨limit, []⟩ : Session max).run before = some (first, s₁) ∧
        s₁.step (.act target action) = some (entry, s₂) ∧
        entries = first ++ entry :: rest ∧
        s₁.regions[target]? = some r ∧
        (writeHistory.recordAll [] before first)[target]? = some history ∧
        (offset.toNat + w.byteCount ≤ r.pages.toNat * 65536 →
          ∃ v, entry.result = .acted (.ok (.word w v)) ∧
            w.value v =
              ∑ k ∈ range w.byteCount, (history.byteAt (offset.toNat + k)).toNat * 256 ^ k) ∧
        (¬offset.toNat + w.byteCount ≤ r.pages.toNat * 65536 →
          ∃ f, entry.result = .acted (.error f)) := by
  have hnotes := writeHistory_sound.run_of_wellFormed h wellFormed_none .nil
  refine ⟨hnotes.length_eq, ?_, ?_⟩
  · intro i r hr
    obtain ⟨history, hhistory, hdescribes⟩ := forall₂_getElem? hnotes hr
    have hwf := run_wellFormed h wellFormed_none r (List.mem_of_getElem? hr)
    exact ⟨history, hhistory, hwf.size_eq.trans hwf.activeSize_eq, fun a _ => hdescribes a⟩
  · rintro before target action w offset after rfl hloads
    obtain ⟨first, s₁, tail, hfirst, htail, rfl⟩ := Steps.run_append.mp h
    obtain ⟨entry, s₂, rest, hstep, -, rfl⟩ := Steps.run_cons.mp htail
    cases step_eq_some_iff.mp hstep with
    | @acted _ _ r hr =>
      have hbefore := writeHistory_sound.run_of_wellFormed hfirst wellFormed_none .nil
      obtain ⟨history, hhistory, hdescribes⟩ := forall₂_getElem? hbefore hr
      have hwf := run_wellFormed hfirst wellFormed_none r (List.mem_of_getElem? hr)
      have hsize : r.bytes.size = r.pages.toNat * 65536 := hwf.size_eq.trans hwf.activeSize_eq
      refine ⟨first, s₁, _, _, rest, r, history, hfirst, hstep, rfl, hr, hhistory, ?_, ?_⟩
      · intro hfit
        rw [← hsize] at hfit
        have hlt : r.bytes.size < UInt64.size := hwf.size_eq ▸ pageBytes_lt r.pages
        obtain ⟨v, hload, hvalue⟩ := hdescribes.load_of_le hfit hlt
        refine ⟨v, ?_, hvalue⟩
        rw [hloads.outcome, hload]
        rfl
      · intro hover
        rw [← hsize] at hover
        obtain ⟨f, hload⟩ := load_of_not_le hover
        refine ⟨f, ?_⟩
        rw [hloads.outcome, hload]
        rfl

/-- A store, a copy, and a store over two bytes of the first one.  The
original loads the bytes of both stores, and the copy has kept the byte that
was written over. -/
theorem run_refines_flat_memory_in_four_pages :
    let before : List Step := [.new, .act 0 (.grow 1),
      .act 0 (.store .w32 65530 (0x04030201 : UInt32)), .copy 0,
      .act 0 (.store .w16 65531 (0x0A0B : UInt16))]
    ∃ entries s' v readings k,
      (⟨defaultLimit, []⟩ : Session 4).run (before ++ [.act 0 (.load .w32 65530)]) =
        some (entries, s') ∧
      entries.getLast? = some ⟨.acted (.ok (.word .w32 v)), readings⟩ ∧
      Width.w32.value v = 0x040A0B01 ∧
      s'.regions[1]? = some k ∧ k.bytes.byteAt 65531 = 0x02 := by
  intro before
  obtain ⟨r₁, hgranted₁, hwf₁, hpages₁, -⟩ :
      ∃ r : Region 4, Granted defaultLimit 1 Region.new r ∧ _ :=
    exists_granted_new (by decide) (by decide)
  have hgrow : ((Action.grow 1).perform defaultLimit).outcome (Region.new : Region 4) =
      (.ok (.number 0), r₁) := hgranted₁.outcome rfl
  have hsize₁ : r₁.bytes.size = 65536 := by
    rw [hwf₁.size_eq, hwf₁.activeSize_eq, hpages₁]
    rfl
  have hstore : ∀ (r : Region 4) (w : Width) (offset : UInt64) (v : Word w),
      r.bytes.size = 65536 → offset.toNat + w.byteCount ≤ 65536 →
        ∃ r', ((Action.store w offset v).perform defaultLimit).outcome r = (.ok .done, r') ∧
          r'.bytes.size = 65536 ∧ r'.pages = r.pages := by
    intro r w offset v hsize hfit
    refine ⟨_, Action.outcome_store_of_le (hsize ▸ hfit) (hsize ▸ by decide) v defaultLimit, ?_, rfl⟩
    rw [bytes_withBytes, Bytes.size_overwrite, hsize]
  obtain ⟨r₂, hstore₁, hsize₂, hpages₂⟩ :=
    hstore r₁ .w32 65530 (0x04030201 : UInt32) hsize₁ (by decide)
  obtain ⟨r₃, hstore₂, -, hpages₃⟩ := hstore r₂ .w16 65531 (0x0A0B : UInt16) hsize₂ (by decide)
  have hbefore : (⟨defaultLimit, []⟩ : Session 4).run before =
      some ([⟨.made 0, some (Region.new : Region 4).readings⟩,
        ⟨.acted (.ok (.number 0)), some r₁.readings⟩, ⟨.acted (.ok .done), some r₂.readings⟩,
        ⟨.made 1, some r₂.copy.readings⟩, ⟨.acted (.ok .done), some r₃.readings⟩],
        ⟨defaultLimit, [r₃, r₂.copy]⟩) :=
    Stepped.new.run_cons ((Stepped.of_outcome rfl hgrow).run_cons
      ((Stepped.of_outcome rfl hstore₁).run_cons ((Stepped.copied rfl).run_cons
        ((Stepped.of_outcome rfl hstore₂).run_cons rfl))))
  have hloads : Action.Loads .w32 65530 (.load .w32 65530) := .inl rfl
  have hload : (⟨defaultLimit, [r₃, r₂.copy]⟩ : Session 4).run [.act 0 (.load .w32 65530)] =
      some ([_], _) := (Stepped.of_outcome rfl (hloads.outcome defaultLimit r₃)).run_cons rfl
  have hrun := Steps.run_append.mpr ⟨_, _, _, hbefore, hload, rfl⟩
  obtain ⟨-, hcommitted, hloaded⟩ := run_refines_flat_memory hrun
  obtain ⟨kept, hkept, -, hbyte⟩ := hcommitted 1 r₂.copy rfl
  obtain rfl : [Write.store .w32 65530 (0x04030201 : UInt32)] = kept := Option.some.inj hkept
  obtain ⟨_, _, entry, _, rest, _, history, hfirst, -, hentries, hr, hhistory, hgranted, -⟩ :=
    hloaded before 0 _ .w32 65530 [] rfl hloads
  cases hbefore.symm.trans hfirst
  cases hr
  cases List.append_cancel_left hentries
  obtain rfl : [Write.store .w16 65531 (0x0A0B : UInt16),
    Write.store .w32 65530 (0x04030201 : UInt32)] = history := Option.some.inj hhistory
  rw [hpages₃, hpages₂, hpages₁] at hgranted
  obtain ⟨v, hresult, hvalue⟩ := hgranted (by decide)
  have hlast := congrArg (fun result => some (Entry.mk result (some r₃.readings))) hresult
  have hsum : Width.w32.value v = 0x040A0B01 := hvalue.trans (by decide +kernel)
  have hpage : 65531 < r₂.copy.pages.toNat * 65536 := by
    rw [show r₂.copy.pages = 1 from hpages₂.trans hpages₁]
    decide
  have hkeptByte : r₂.copy.bytes.byteAt 65531 = 0x02 := (hbyte 65531 hpage).trans (by decide +kernel)
  exact ⟨_, _, v, some r₃.readings, r₂.copy, hrun, hlast, hsum, rfl, hkeptByte⟩

end Session

end Region

end PagedMemory
