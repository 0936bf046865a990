/-
PagedMemory.Proofs.SortSimulation — the sorting guest and its plain
counterpart, loop by loop.

`Tracks m r p` says that the routine `r` does to the first `m` slots of the
buffer what `p` does to an array, that neither stops, and that `r` leaves
everything else alone.  It is kept when both go on (`Tracks.bind`), so each
loop is one induction over a loop body that is already known to track:
`exchange_tracks`, `sweep_tracks`, `sort_tracks`.  The two inner loops count
differently — the guest tests the slot behind slot `j`, moved on by the round,
against `n`, the plain one makes `n - 1 - i` exchanges — and `sweep_eq` is
where they meet.

Filling and summing are `outcome_generate` and `total_eq`, and
`outcome_sortSum` puts the three phases together, on any bytes with room for
the slots.  A guest has such bytes at every moment, since it never loses its
page.
-/
import PagedMemory.Proofs.GuestMemory
import PagedMemory.Proofs.PlainSort
import PagedMemory.Proofs.SortBuffer

namespace PagedMemory

namespace Guest

namespace SortSum

/-! ## Tracking -/

/-- `r` does to the first `m` slots what `p` does to an array. -/
def Tracks (m : Nat) (r : Routine Bytes Unit) (p : Array Int32 → Except Fault (Array Int32)) :
    Prop :=
  ∀ b, HasSlots b → ∃ b', r.outcome b = (.ok (), b') ∧
    p (elements m b) = .ok (elements m b') ∧ KeepsOutside m b b'

namespace Tracks

variable {m : Nat} {r r' : Routine Bytes Unit}
  {p p' : Array Int32 → Except Fault (Array Int32)}

theorem pure : Tracks m (pure ()) .ok :=
  fun b _ => ⟨b, rfl, rfl, .refl m b⟩

theorem bind (h : Tracks m r p) (h' : Tracks m r' p') :
    Tracks m (do r; r') (fun xs => do p' (← p xs)) := by
  intro b hb
  obtain ⟨b₁, hr, hp, hkeeps⟩ := h b hb
  obtain ⟨b', hr', hp', hkeeps'⟩ := h' b₁ (hkeeps.hasSlots hb)
  refine ⟨b', ?_, ?_, hkeeps.trans hkeeps'⟩
  · rw [Routine.outcome_bind, hr]
    exact hr'
  · simp only [hp]
    exact hp'

end Tracks

/-! ## Exchanges -/

/-- Neighbours out of order change places, in the buffer and in the array. -/
theorem exchange_tracks {m : Nat} {j : UInt32} {j' : UInt64} (hm : m ≤ 1024)
    (hj : j.toNat + 1 < m) (hj' : j'.toNat = j.toNat) :
    Tracks m (exchange j) (PlainSortSum.exchange j') := by
  intro b hb
  have hroom : j'.toNat + 1 < UInt64.size := by simp only [UInt64.size]; omega
  have hnext : (Checked.add j' 1 : Except Fault UInt64) = .ok (j' + 1) :=
    Checked.next_eq_ok hroom
  have hright : (j' + 1).toNat = j.toNat + 1 := by rw [Checked.toNat_next hroom, hj']
  have hplain : PlainSortSum.exchange j' (elements m b) =
      .ok (if (slotWord b (j.toNat + 1)).toInt32 < (slotWord b j.toNat).toInt32 then
        (elements m b).swap j.toNat (j.toNat + 1) (by simp; omega) (by simpa using hj)
      else elements m b) := by
    simp [PlainSortSum.exchange, hnext, hright, hj', bind, Except.bind, hj, pure, Except.pure,
      Nat.lt_of_succ_lt hj]
  have hroutine : (exchange j).outcome b =
      (.ok (), if (slotWord b (j.toNat + 1)).toInt32 < (slotWord b j.toNat).toInt32 then
        setSlot (setSlot b j.toNat (slotWord b (j.toNat + 1))) (j.toNat + 1)
          (slotWord b j.toNat)
      else b) := by
    simp only [exchange, Routine.outcome_bind, Routine.outcome_liftM, Routine.outcome_reading,
      slotAddress_eq (k := j) (by omega), add_slotOffset (k := j.toNat) (by omega),
      loadWord_slot hb (k := j.toNat) (by omega), loadWord_slot hb (k := j.toNat + 1) (by omega)]
    split
    · rw [Routine.outcome_bind, outcome_storeWord_slot hb (by omega)]
      exact outcome_storeWord_slot hb.setSlot (by omega)
    · rfl
  rw [hplain, hroutine]
  split
  · refine ⟨_, rfl, congrArg Except.ok (elements_swap hb hm hj).symm, ?_⟩
    exact (KeepsOutside.setSlot hb (by omega) hm _).trans (.setSlot hb.setSlot hj hm _)
  · exact ⟨b, rfl, rfl, .refl m b⟩

/-! ## Rounds -/

/-- The inner loop goes on as long as the sum that it tests, which does not
overflow, is below `n`. -/
theorem sweep_eq {n i j : UInt32} (h : j.toNat + 1 + i.toNat < UInt32.size) :
    sweep n i j =
      if j.toNat + 1 + i.toNat < n.toNat then (do exchange j; sweep n i (j + 1))
      else pure () := by
  have hroom : j.toNat + 1 < UInt32.size := by omega
  have hnext : (Checked.add j 1 : Except Fault UInt32) = .ok (j + 1) :=
    Checked.next_eq_ok hroom
  have hj : (j + 1).toNat = j.toNat + 1 := Checked.toNat_next hroom
  have hreach : (Checked.add (j + 1) i : Except Fault UInt32) = .ok (j + 1 + i) :=
    Checked.add_eq_ok (by rwa [hj])
  have hsum : (j + 1 + i).toNat = j.toNat + 1 + i.toNat := by
    rw [Checked.toNat_of_add hreach, hj]
  have htest : j + 1 + i < n ↔ j.toNat + 1 + i.toNat < n.toNat := by
    rw [UInt32.lt_iff_toNat_lt, hsum]
  rw [sweep]
  split
  · rename_i f herror
    cases hnext.symm.trans herror
  · rename_i next hok
    cases hnext.symm.trans hok
    split
    · rename_i f herror
      cases hreach.symm.trans herror
    · rename_i reach hok
      cases hreach.symm.trans hok
      simp only [htest, dite_eq_ite]

/-- Round `i` from slot `j` on is as many exchanges as there are slots left
before those that earlier rounds have settled. -/
theorem sweep_tracks {m : Nat} {n i j : UInt32} {j' : UInt64} {count : Nat} (hn : n.toNat = m)
    (hm : m ≤ 1024) (hcount : j.toNat + count + 1 + i.toNat = m) (hj' : j'.toNat = j.toNat) :
    Tracks m (sweep n i j) (PlainSortSum.sweep count j') := by
  have hsize : UInt32.size = 2 ^ 32 := rfl
  induction count generalizing j j' with
  | zero =>
    rw [sweep_eq (by omega), if_neg (by omega)]
    exact .pure
  | succ count ih =>
    have hroom : j'.toNat + 1 < UInt64.size := by simp only [UInt64.size]; omega
    have hnext : (Checked.add j' 1 : Except Fault UInt64) = .ok (j' + 1) :=
      Checked.next_eq_ok hroom
    have hj : (j + 1).toNat = j.toNat + 1 := Checked.toNat_next (by omega)
    have hplain : PlainSortSum.sweep (count + 1) j' =
        fun xs => (do PlainSortSum.sweep count (j' + 1) (← PlainSortSum.exchange j' xs)) := by
      funext xs
      simp [PlainSortSum.sweep, hnext, bind, Except.bind]
    rw [sweep_eq (by omega), if_pos (by omega), hplain]
    refine .bind (exchange_tracks hm (by omega) hj') (ih (by omega) ?_)
    rw [Checked.toNat_next hroom, hj, hj']

/-- All rounds, from any of them on. -/
theorem sort_tracks {m : Nat} {n i : UInt32} {n' i' : UInt64} {rounds : Nat} (hn : n.toNat = m)
    (hm : m ≤ 1024) (hrounds : i.toNat + rounds = m) (hn' : n'.toNat = m)
    (hi' : i'.toNat = i.toNat) :
    Tracks m (sort n rounds i) (PlainSortSum.sweeps n' rounds i') := by
  induction rounds generalizing i i' with
  | zero => exact .pure
  | succ rounds ih =>
    have hroom : i.toNat + 1 < UInt32.size := by simp only [UInt32.size]; omega
    have hroom' : i'.toNat + 1 < UInt64.size := by simp only [UInt64.size]; omega
    have hnext : (Checked.add i 1 : Except Fault UInt32) = .ok (i + 1) :=
      Checked.next_eq_ok hroom
    have hnext' : (Checked.add i' 1 : Except Fault UInt64) = .ok (i' + 1) :=
      Checked.next_eq_ok hroom'
    -- the round makes `n - 1 - i` exchanges, and no subtraction goes below zero
    have hlast : (Checked.sub n' 1 : Except Fault UInt64) = .ok (n' - 1) :=
      Checked.sub_eq_ok (by simp; omega)
    have hlastNat : (n' - 1).toNat = m - 1 := by
      rw [Checked.toNat_of_sub hlast, hn']
      rfl
    have hcount : (Checked.sub (n' - 1) i' : Except Fault UInt64) = .ok (n' - 1 - i') :=
      Checked.sub_eq_ok (by omega)
    have hcountNat : (n' - 1 - i').toNat = m - 1 - i.toNat := by
      rw [Checked.toNat_of_sub hcount, hlastNat, hi']
    have hroutine : sort n (rounds + 1) i = (do sweep n i 0; sort n rounds (i + 1)) := by
      simp only [sort, hnext]
      rfl
    have hplain : PlainSortSum.sweeps n' (rounds + 1) i' = fun xs => (do
        PlainSortSum.sweeps n' rounds (i' + 1)
          (← PlainSortSum.sweep (m - 1 - i.toNat) 0 xs)) := by
      funext xs
      simp [PlainSortSum.sweeps, hlast, hcount, hcountNat, hnext', bind, Except.bind]
    rw [hroutine, hplain]
    refine .bind (sweep_tracks hn hm ?_ rfl) (ih ?_ ?_)
    · show 0 + (m - 1 - i.toNat) + 1 + i.toNat = m
      omega
    · rw [Checked.toNat_next hroom]
      omega
    · rw [Checked.toNat_next hroom, Checked.toNat_next hroom', hi']

/-! ## Filling -/

/-- Filling adds the generated values behind the slots that are filled
already. -/
theorem outcome_generate {i : UInt32} {count : Nat} (hfit : i.toNat + count ≤ 1024) (x : UInt32)
    {b : Bytes} (hb : HasSlots b) :
    ∃ b', (generate count i x).outcome b = (.ok (), b') ∧
      elements (i.toNat + count) b' =
        elements i.toNat b ++ (PlainSortSum.generated count x).toArray ∧
      KeepsOutside (i.toNat + count) b b' := by
  induction count generalizing i x b with
  | zero => exact ⟨b, rfl, by simp [PlainSortSum.generated], .refl _ _⟩
  | succ count ih =>
    have hroom : i.toNat + 1 < UInt32.size := by simp only [UInt32.size]; omega
    have hnext : (Checked.add i 1 : Except Fault UInt32) = .ok (i + 1) :=
      Checked.next_eq_ok hroom
    have hi : (i + 1).toNat = i.toNat + 1 := Checked.toNat_next hroom
    have hsum : i.toNat + (count + 1) = (i + 1).toNat + count := by omega
    obtain ⟨b', hrest, helements, hkeeps⟩ :=
      ih (i := i + 1) (by omega) (nextRandom x)
        (hb.setSlot (k := i.toNat) (v := nextRandom x))
    refine ⟨b', ?_, ?_, ?_⟩
    · simp only [generate, Routine.outcome_bind, Routine.outcome_liftM,
        slotAddress_eq (k := i) (by omega), outcome_storeWord_slot hb (k := i.toNat) (by omega),
        hnext]
      exact hrest
    · rw [hsum, helements, hi, elements_succ, slotWord_setSlot hb (by omega) (by omega),
        if_pos rfl, elements_setSlot_of_le hb (by omega) (Nat.le_refl _)]
      simp [PlainSortSum.generated]
    · rw [hsum]
      exact (KeepsOutside.setSlot hb (by omega) (by omega) _).trans hkeeps

/-! ## Summing -/

/-- The sum of some slots, in order. -/
theorem total_eq {i : UInt32} {count : Nat} (hfit : i.toNat + count ≤ 1024) (sum : UInt32)
    {b : Bytes} (hb : HasSlots b) :
    total b count i sum =
      .ok (((List.range' i.toNat count).map (slotWord b)).foldl (· + ·) sum) := by
  induction count generalizing i sum with
  | zero => rfl
  | succ count ih =>
    have hroom : i.toNat + 1 < UInt32.size := by simp only [UInt32.size]; omega
    have hnext : (Checked.add i 1 : Except Fault UInt32) = .ok (i + 1) :=
      Checked.next_eq_ok hroom
    have hi : (i + 1).toNat = i.toNat + 1 := Checked.toNat_next hroom
    have hrest := ih (i := i + 1) (by omega) (sum + slotWord b i.toNat)
    simp only [total, slotAddress_eq (k := i) (by omega), loadWord_slot hb (k := i.toNat) (by omega),
      hnext, bind, Except.bind, hrest, hi, List.range'_succ, List.map_cons, List.foldl_cons]

theorem total_elements {m : Nat} (hm : m ≤ 1024) {b : Bytes} (hb : HasSlots b) :
    total b m 0 0 = .ok (PlainSortSum.wordSum (elements m b)) := by
  rw [total_eq (by simpa using hm) 0 hb, PlainSortSum.wordSum, ← Array.foldl_toList]
  simp [elements, List.range_eq_range', List.foldl_map]

/-! ## The whole guest -/

/-- A run fills the first slots, leaves in them what the plain counterpart
leaves in its array, and answers its sum; nothing else is changed. -/
theorem outcome_sortSum (n seed : UInt32) {g : SortSum} (hb : HasSlots g.memory.bytes) :
    ∃ b', PlainSortSum.sorted n seed = .ok (elements (min n slots).toNat b') ∧
      KeepsOutside (min n slots).toNat g.memory.bytes b' ∧
      (sortSum n seed).outcome g =
        (.ok (PlainSortSum.wordSum (elements (min n slots).toNat b')),
          { g with memory := g.memory.withBytes b' }) := by
  have hm : (min n slots).toNat ≤ 1024 := by
    rw [toNat_min]
    exact Nat.min_le_right _ _
  have hfit : (0 : UInt32).toNat + (min n slots).toNat ≤ 1024 := by simpa using hm
  obtain ⟨b₁, hgenerate, hgenerated, hkeeps₁⟩ := outcome_generate hfit seed hb
  have hzero : (0 : UInt32).toNat + (min n slots).toNat = (min n slots).toNat := Nat.zero_add _
  rw [hzero] at hgenerated hkeeps₁
  have htracks : Tracks (min n slots).toNat (sort (min n slots) (min n slots).toNat 0)
      (PlainSortSum.sweeps (min n slots).toUInt64 (min n slots).toNat 0) :=
    sort_tracks rfl hm hzero (UInt32.toNat_toUInt64 _) rfl
  obtain ⟨b', hsort, hsorted, hkeeps⟩ := htracks b₁ (hkeeps₁.hasSlots hb)
  have hkept := hkeeps₁.trans hkeeps
  refine ⟨b', ?_, hkept, ?_⟩
  · rw [← hsorted, hgenerated]
    simp [PlainSortSum.sorted]
  · rw [sortSum, Instance.outcome_onBytes]
    simp only [Routine.outcome_bind, hgenerate, hsort, Routine.outcome_reading,
      total_elements hm (hkept.hasSlots hb)]

theorem hasSlots_of_hasOnePage {g : SortSum} (h : g.HasOnePage) : HasSlots g.memory.bytes := by
  rw [HasSlots, h.size_eq]
  decide

/-- Every step keeps the page. -/
theorem perform_keeps_page (step : Step) (g : SortSum) (h : g.HasOnePage) :
    Instance.HasOnePage (step.perform.outcome g).2 := by
  cases step with
  | sortSum n seed =>
    obtain ⟨b', -, hkeeps, hrun⟩ := outcome_sortSum n seed (hasSlots_of_hasOnePage h)
    rw [Step.perform, Routine.outcome_map, hrun]
    exact h.withBytes hkeeps.size_eq
  | element index =>
    rw [Step.perform, Routine.outcome_bind, Routine.outcome_reading]
    cases SortSum.element g index <;> exact h
  | memory action => exact h.perform defaultLimit action

/-- A fresh guest is made with its page, and no run takes it away. -/
theorem exists_new : ∃ g₀, SortSum.new = .ok g₀ ∧ ∀ steps, (run g₀ steps).2.HasOnePage :=
  Instance.exists_tryNewInstalled perform_keeps_page

/-- A slot of the buffer, as the guest shows it. -/
theorem element_of_slot {g : SortSum} (hb : HasSlots g.memory.bytes) {k : UInt32}
    (hk : k.toNat < 1024) : element g k = .ok (slotWord g.memory.bytes k.toNat).toInt32 := by
  simp [element, slotAddress_eq hk, loadWord_slot hb hk, bind, Except.bind, pure, Except.pure]

/-- A slot in use is an element of the view. -/
theorem element_eq {g : SortSum} (hb : HasSlots g.memory.bytes) {m k : Nat} (hm : m ≤ 1024)
    (hk : k < (elements m g.memory.bytes).size) :
    element g (UInt32.ofNat k) = .ok (elements m g.memory.bytes)[k] := by
  have hlt : k < m := by simpa using hk
  have hnat : (UInt32.ofNat k).toNat = k := UInt32.toNat_ofNat_of_lt (by simp [UInt32.size]; omega)
  rw [element_of_slot hb (by omega), hnat, getElem_elements]

open Finset in
/-- In every state that a guest can be in, a run ends without a fault and
answers what the plain counterpart answers, which ends without one too: the
sum of the first values of the generator.  The slots it has used hold, as
signed numbers, what the plain counterpart has in its array. -/
theorem sortSum_computes_plain :
    (∃ g₀, SortSum.new = .ok g₀ ∧ ∀ steps, (run g₀ steps).2.HasOnePage) ∧
    ∀ (g : SortSum) (n seed : UInt32), g.HasOnePage →
      ∃ sum g' xs, sortSum n seed g = .ok sum g' ∧
        PlainSortSum.sorted n seed = .ok xs ∧ PlainSortSum.sortSum n seed = .ok sum ∧
        sum.toNat =
          (∑ k ∈ range (min n.toNat 1024), PlainSortSum.nextValue^[k + 1] seed.toNat) % 2 ^ 32 ∧
        xs.size = min n.toNat 1024 ∧
        ∀ k (hk : k < xs.size), element g' (UInt32.ofNat k) = .ok xs[k] := by
  refine ⟨exists_new, fun g n seed h => ?_⟩
  have hb := hasSlots_of_hasOnePage h
  have hm : (min n slots).toNat = min n.toNat 1024 := toNat_min n slots
  obtain ⟨b', hsorted, hkeeps, hrun⟩ := outcome_sortSum n seed hb
  refine ⟨_, _, _, Routine.eq_ok_iff_outcome.mpr hrun, hsorted, PlainSortSum.sortSum_eq hsorted,
    ?_, by rw [size_elements, hm], fun k hk => ?_⟩
  · rw [PlainSortSum.wordSum_perm (PlainSortSum.sorted_perm hsorted),
      PlainSortSum.toNat_wordSum_generated, hm]
  · exact element_eq (g := { g with memory := g.memory.withBytes b' }) (hkeeps.hasSlots hb)
      (by omega) hk

/-- Three slots after a fill and a run over all of them. -/
theorem sortSum_computes_plain_after_use :
    ∃ g₀ sum g', SortSum.new = .ok g₀ ∧
      Instance.HasOnePage (run g₀ [.memory (.fill 0xAA), .sortSum 1030 1]).2 ∧
      sortSum 3 7 (run g₀ [.memory (.fill 0xAA), .sortSum 1030 1]).2 = .ok sum g' ∧
      PlainSortSum.sortSum 3 7 = .ok sum ∧ sum.toNat = 489616739 := by
  obtain ⟨⟨g₀, hnew, hpage⟩, hruns⟩ := sortSum_computes_plain
  have hused := hpage [.memory (.fill 0xAA), .sortSum 1030 1]
  obtain ⟨sum, g', xs, hrun, -, hplain, hsum, -⟩ := hruns _ 3 7 hused
  exact ⟨g₀, sum, g', hnew, hused, hrun, hplain, hsum⟩

end SortSum

end Guest

end PagedMemory
