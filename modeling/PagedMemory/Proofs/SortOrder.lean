/-
PagedMemory.Proofs.SortOrder — the sorting guest sorts, in place.

`Settled i xs` is the invariant of the rounds: none of the last `i` elements
is smaller than one before it.  A round keeps it, since its exchanges stay
in front of those elements, and carries the largest of the others to the
place before them (`Peak`): so each round settles one more element, and after
as many rounds as there are elements all are in order.

The order is proved of the plain counterpart, on an array.  The guest leaves
in its slots what the counterpart leaves in its array, so
`sortSum_sorts_in_place` says the same of the memory: the slots in use are in
order, they hold the generated values, and no other byte is changed.
-/
import PagedMemory.Proofs.SortSimulation

namespace PagedMemory

namespace Guest

namespace PlainSortSum

/-! ## What a round achieves -/

/-- None of the last `i` elements is smaller than an element before it. -/
def Settled (i : Nat) (xs : Array Int32) : Prop :=
  ∀ p q (hpq : p < q) (hq : q < xs.size), xs.size ≤ q + i → xs[p] ≤ xs[q]

/-- No element before element `j` is larger than it. -/
def Peak (j : Nat) (xs : Array Int32) : Prop :=
  ∀ p (hp : p < j) (hj : j < xs.size), xs[p] ≤ xs[j]

theorem settled_zero (xs : Array Int32) : Settled 0 xs := by
  intro p q _ hq hlast
  omega

theorem peak_zero (xs : Array Int32) : Peak 0 xs := by
  intro p hp
  omega

/-- The largest of the elements before the last `i` settles as well. -/
theorem Settled.succ {i : Nat} {xs : Array Int32} (h : Settled i xs)
    (hpeak : Peak (xs.size - 1 - i) xs) : Settled (i + 1) xs := by
  intro p q hpq hq hlast
  by_cases hold : xs.size ≤ q + i
  · exact h p q hpq hq hold
  · obtain rfl : q = xs.size - 1 - i := by omega
    exact hpeak p hpq hq

/-- When all elements are settled they are in order. -/
theorem Settled.pairwise {xs : Array Int32} (h : Settled xs.size xs) :
    xs.toList.Pairwise (· ≤ ·) := by
  rw [List.pairwise_iff_getElem]
  intro p q hp hq hpq
  exact h p q hpq (by simpa using hq) (by omega)

/-! ## Exchanges -/

/-- An exchange in detail: the neighbours change places if they are out of
order. -/
theorem exchange_eq_ok {j : UInt64} {xs ys : Array Int32} (h : exchange j xs = .ok ys) :
    ∃ hj : j.toNat + 1 < xs.size,
      ys = if xs[j.toNat + 1] < xs[j.toNat] then xs.swap j.toNat (j.toNat + 1) else xs := by
  obtain ⟨next, hnext, hswap⟩ := Fault.bind_eq_ok.mp h
  have hnat : next.toNat = j.toNat + 1 := Checked.toNat_of_add hnext
  split at hswap
  · rename_i hinside
    refine ⟨hnat ▸ hinside.2, ?_⟩
    simp only [hnat] at hswap
    exact (Except.ok.inj hswap).symm
  · cases hswap

theorem size_exchange {j : UInt64} {xs ys : Array Int32} (h : exchange j xs = .ok ys) :
    ys.size = xs.size := (exchange_perm h).size_eq

/-- An exchange in front of the settled elements leaves them settled: it only
moves elements that were before them. -/
theorem Settled.exchange {i : Nat} {j : UInt64} {xs ys : Array Int32} (h : Settled i xs)
    (hexchange : exchange j xs = .ok ys) (hj : j.toNat + 1 + i < xs.size) : Settled i ys := by
  obtain ⟨hinside, rfl⟩ := exchange_eq_ok hexchange
  split
  · intro p q hpq hq hlast
    simp only [Array.size_swap] at hq hlast
    have hleft : q ≠ j.toNat := by omega
    have hright : q ≠ j.toNat + 1 := by omega
    simp only [Array.getElem_swap, if_neg hleft, if_neg hright]
    split
    · exact h _ q (by omega) hq hlast
    · split
      · exact h _ q (by omega) hq hlast
      · exact h p q hpq hq hlast
  · exact h

/-- An exchange carries the largest element so far one place on. -/
theorem Peak.exchange {j : UInt64} {xs ys : Array Int32} (h : Peak j.toNat xs)
    (hexchange : exchange j xs = .ok ys) : Peak (j.toNat + 1) ys := by
  obtain ⟨hinside, rfl⟩ := exchange_eq_ok hexchange
  intro p hp hj
  split
  · rename_i hless
    rw [Array.getElem_swap_right, Array.getElem_swap]
    split
    · exact Int32.le_of_lt hless
    · rw [if_neg (by omega)]
      exact h p (by omega) (by omega)
  · rename_i hnot
    have hle : xs[j.toNat] ≤ xs[j.toNat + 1] := Int32.not_lt.mp hnot
    by_cases hlast : p = j.toNat
    · subst hlast
      exact hle
    · exact Int32.le_trans (h p (by omega) (by omega)) hle

/-! ## Rounds -/

/-- A round keeps what is settled and ends on the largest of the rest. -/
theorem sweep_settled {i count : Nat} {j : UInt64} {xs ys : Array Int32}
    (h : sweep count j xs = .ok ys) (hfit : j.toNat + count + i < xs.size)
    (hsettled : Settled i xs) (hpeak : Peak j.toNat xs) :
    Settled i ys ∧ Peak (j.toNat + count) ys := by
  induction count generalizing j xs with
  | zero =>
    cases h
    exact ⟨hsettled, hpeak⟩
  | succ count ih =>
    obtain ⟨exchanged, hexchange, hrest⟩ := Fault.bind_eq_ok.mp h
    obtain ⟨next, hnext, hsweep⟩ := Fault.bind_eq_ok.mp hrest
    have hnat : next.toNat = j.toNat + 1 := Checked.toNat_of_add hnext
    have hsize := size_exchange hexchange
    have hrounds := ih hsweep (by omega) (hsettled.exchange hexchange (by omega))
      (hnat ▸ hpeak.exchange hexchange)
    rwa [hnat, Nat.add_assoc, Nat.add_comm 1 count] at hrounds

theorem size_sweep {count : Nat} {j : UInt64} {xs ys : Array Int32}
    (h : sweep count j xs = .ok ys) : ys.size = xs.size := (sweep_perm h).size_eq

/-- Each round settles one more element. -/
theorem sweeps_settled {n i : UInt64} {rounds : Nat} {xs ys : Array Int32}
    (h : sweeps n rounds i xs = .ok ys) (hn : n.toNat = xs.size)
    (hrounds : i.toNat + rounds ≤ xs.size) (hsettled : Settled i.toNat xs) :
    Settled (i.toNat + rounds) ys := by
  induction rounds generalizing i xs with
  | zero =>
    cases h
    exact hsettled
  | succ rounds ih =>
    obtain ⟨last, hlast, h⟩ := Fault.bind_eq_ok.mp h
    obtain ⟨count, hcount, h⟩ := Fault.bind_eq_ok.mp h
    obtain ⟨swept, hsweep, h⟩ := Fault.bind_eq_ok.mp h
    obtain ⟨next, hnext, hrest⟩ := Fault.bind_eq_ok.mp h
    have hlastNat : last.toNat = xs.size - 1 := by
      rw [Checked.toNat_of_sub hlast, hn]
      rfl
    have hcountNat : count.toNat = xs.size - 1 - i.toNat := by
      rw [Checked.toNat_of_sub hcount, hlastNat]
    have hnextNat : next.toNat = i.toNat + 1 := Checked.toNat_of_add hnext
    have hsize := size_sweep hsweep
    have hstart : (0 : UInt64).toNat + count.toNat = xs.size - 1 - i.toNat := by
      rw [hcountNat]
      exact Nat.zero_add _
    obtain ⟨hkept, hpeak⟩ := sweep_settled hsweep (by omega) hsettled (peak_zero xs)
    rw [hstart, ← hsize] at hpeak
    have hmore := ih hrest (by omega) (by omega) (hnextNat ▸ hkept.succ hpeak)
    rwa [hnextNat, Nat.add_assoc, Nat.add_comm 1 rounds] at hmore

@[simp] theorem length_generated (count : Nat) (x : UInt32) :
    (generated count x).length = count := by
  induction count generalizing x with
  | zero => rfl
  | succ count ih => rw [generated, List.length_cons, ih]

/-- What is sorted is in order, as signed numbers. -/
theorem sorted_pairwise {n seed : UInt32} {xs : Array Int32} (h : sorted n seed = .ok xs) :
    xs.toList.Pairwise (· ≤ ·) := by
  have hsize : xs.size = (min n SortSum.slots).toNat := by
    rw [(sorted_perm h).size_eq, List.size_toArray, length_generated]
  have hsettled := sweeps_settled h (by simp) (by simp) (settled_zero _)
  have hall : (0 : UInt64).toNat + (min n SortSum.slots).toNat = xs.size := by
    rw [hsize]
    exact Nat.zero_add _
  rw [hall] at hsettled
  exact hsettled.pairwise

/-- The generated values, each as many steps of the generator as it stands
places behind the seed. -/
theorem generated_eq_map (count : Nat) (x : UInt32) :
    generated count x =
      (List.range count).map fun k => (SortSum.nextRandom^[k + 1] x).toInt32 := by
  induction count generalizing x with
  | zero => rfl
  | succ count ih =>
    have hstep : ∀ k, SortSum.nextRandom^[k + 1] (SortSum.nextRandom x) =
        SortSum.nextRandom^[k.succ + 1] x :=
      fun k => (Function.iterate_succ_apply SortSum.nextRandom (k + 1) x).symm
    rw [generated, ih, List.range_succ_eq_map, List.map_cons, List.map_map, Nat.zero_add,
      Function.iterate_one]
    simp only [hstep, Function.comp_def]

end PlainSortSum

namespace SortSum

/-! ## The guest -/

/-- What a run with the first `m` slots makes of a guest. -/
structure SortedInPlace (m : Nat) (seed : UInt32) (g g' : SortSum) : Prop where
  /-- The slots in use hold the values of the generator that follow the seed,
  each as often as it was generated, in the order of signed numbers. -/
  elements_eq : ∃ xs : List Int32, xs.length = m ∧
    (∀ k (hk : k < xs.length), element g' (UInt32.ofNat k) = .ok xs[k]) ∧
    xs.Pairwise (· ≤ ·) ∧
    xs.Perm ((List.range m).map fun k => (nextRandom^[k + 1] seed).toInt32)
  /-- The slots behind them hold what they held. -/
  element_eq : ∀ k : UInt32, m ≤ k.toNat → k.toNat < 1024 → element g' k = element g k
  byteAt_eq : ∀ a, a < 0x400 ∨ 0x400 + 4 * m ≤ a →
    g'.memory.bytes.byteAt a = g.memory.bytes.byteAt a
  size_eq : g'.memory.bytes.size = g.memory.bytes.size
  pages_eq : g'.memory.pages = g.memory.pages
  capacity_eq : g'.memory.capacity = g.memory.capacity

/-- A slot that lies outside of what a routine changes is kept. -/
theorem KeepsOutside.slotWord_eq {m k : Nat} {b b' : Bytes} (h : KeepsOutside m b b')
    (hk : m ≤ k) : slotWord b' k = slotWord b k := by
  have hread : b'.readFrom (slotStart k) 4 = b.readFrom (slotStart k) 4 := by
    refine Bytes.readFrom_congr fun i _ => h.byteAt_eq _ (.inr ?_)
    simp only [slotStart]
    omega
  rw [slotWord, slotWord, hread]

/-- In every state that a guest can be in, a run ends without a fault and
leaves the slots that it uses in order; nothing else is changed. -/
theorem sortSum_sorts_in_place :
    (∃ g₀, SortSum.new = .ok g₀ ∧ ∀ steps, (run g₀ steps).2.HasOnePage) ∧
    ∀ (g : SortSum) (n seed : UInt32), g.HasOnePage →
      ∃ sum g', sortSum n seed g = .ok sum g' ∧ SortedInPlace (min n.toNat 1024) seed g g' := by
  refine ⟨exists_new, fun g n seed h => ?_⟩
  have hb := hasSlots_of_hasOnePage h
  have hm : (min n slots).toNat = min n.toNat 1024 := toNat_min n slots
  obtain ⟨b', hsorted, hkeeps, hrun⟩ := outcome_sortSum n seed hb
  rw [hm] at hsorted hkeeps hrun
  have hb' : HasSlots b' := hkeeps.hasSlots hb
  refine ⟨_, _, Routine.eq_ok_iff_outcome.mpr hrun, ?_⟩
  refine { elements_eq := ⟨(elements (min n.toNat 1024) b').toList, by simp, ?_, ?_, ?_⟩,
           element_eq := ?_, byteAt_eq := hkeeps.byteAt_eq, size_eq := hkeeps.size_eq,
           pages_eq := rfl, capacity_eq := rfl }
  · intro k hk
    exact element_eq (g := { g with memory := g.memory.withBytes b' }) hb' (by omega)
      (by simpa using hk)
  · exact PlainSortSum.sorted_pairwise hsorted
  · have hperm := (PlainSortSum.sorted_perm hsorted).toList
    rwa [hm, PlainSortSum.generated_eq_map] at hperm
  · intro k hmk hk
    rw [element_of_slot (g := { g with memory := g.memory.withBytes b' }) hb' hk,
      element_of_slot hb hk]
    exact congrArg (fun x : UInt32 => Except.ok x.toInt32) (hkeeps.slotWord_eq hmk)

/-- Five slots after a run over all of them: the last 1019 slots are those of
the longer run. -/
theorem sortSum_sorts_in_place_after_use :
    ∃ g₀ sum g', SortSum.new = .ok g₀ ∧ Instance.HasOnePage (run g₀ [.sortSum 1030 1]).2 ∧
      sortSum 5 7 (run g₀ [.sortSum 1030 1]).2 = .ok sum g' ∧
      SortedInPlace 5 7 (run g₀ [.sortSum 1030 1]).2 g' := by
  obtain ⟨⟨g₀, hnew, hpage⟩, hruns⟩ := sortSum_sorts_in_place
  have hused := hpage [.sortSum 1030 1]
  obtain ⟨sum, g', hrun, hsorted⟩ := hruns _ 5 7 hused
  exact ⟨g₀, sum, g', hnew, hused, hrun, hsorted⟩

end SortSum

end Guest

end PagedMemory
