/-
PagedMemory.Proofs.SegmentCopy — data segments are copied whole or not at
all.

  - `Copied`       — what a copy that is granted leaves.
  - `CopyRefusal`  — the checks on a copy; `copyRefusal?` is the first of them
                     that fails.

The end of the segment has to be a 64-bit offset.  Then it is compared with
the page count, and then with the bytes that are there.  In a memory whose
parts agree the last two draw the line at the same byte, so the last check
never fails where the others hold; and no memory is so large that the first
one makes a difference.  A store draws the line at the same byte as well.
-/
import PagedMemory.Proofs.RegionInvariant
import PagedMemory.Proofs.WordAccess

namespace PagedMemory

namespace Region

variable {max : UInt32} {r : Region max} {offset : UInt64} {data : List UInt8}

/-! ## The checks -/

/-- A check that a copy does not pass. -/
inductive CopyRefusal where
  /-- The segment does not end at a 64-bit offset. -/
  | overflow
  /-- The segment does not end inside the committed pages. -/
  | uncommitted
  /-- The segment does not end inside the bytes of the storage. -/
  | unheld
  deriving DecidableEq

/-- The first check that a copy of `length` bytes does not pass. -/
def copyRefusal? (r : Region max) (offset : UInt64) (length : Nat) : Option CopyRefusal :=
  if UInt64.size ≤ offset.toNat + length then some .overflow
  else if r.activeSize < offset.toNat + length then some .uncommitted
  else if r.bytes.size < offset.toNat + length then some .unheld
  else none

/-- All checks are passed inside the committed pages and the bytes, which
both end at 64-bit offsets. -/
theorem copyRefusal?_eq_none_iff {length : Nat} :
    r.copyRefusal? offset length = none ↔
      offset.toNat + length ≤ r.activeSize ∧ offset.toNat + length ≤ r.bytes.size := by
  have hlt : r.activeSize < UInt64.size := pageBytes_lt r.pages
  unfold copyRefusal?
  split
  · simp only [reduceCtorEq, false_iff]
    omega
  · split
    · simp only [reduceCtorEq, false_iff]
      omega
    · split
      · simp only [reduceCtorEq, false_iff]
        omega
      · simp only [true_iff]
        omega

/-- A copy is refused for one of the checks, and otherwise it is made. -/
theorem outcome_initData_eq (r : Region max) (offset : UInt64) (data : List UInt8) :
    (initData offset data).outcome r =
      match r.copyRefusal? offset data.length with
      | none => (.ok (.ok ()), r.withBytes (r.bytes.overwrite offset.toNat data))
      | some _ => (.ok (.error .outOfBounds), r) := by
  rw [outcome_initData]
  cases hrefusal : r.copyRefusal? offset data.length with
  | none => exact if_pos (copyRefusal?_eq_none_iff.mp hrefusal)
  | some refusal =>
    refine if_neg fun hfits => ?_
    rw [copyRefusal?_eq_none_iff.mpr hfits] at hrefusal
    cases hrefusal

/-- The committed pages end well below the last 64-bit offset. -/
theorem pages_mul_lt (r : Region max) : r.pages.toNat * 65536 < UInt64.size := by
  rw [← pageBytes_eq_mul]
  exact pageBytes_lt r.pages

/-- Where the parts of a memory agree, the last check never fails. -/
theorem WellFormed.copyRefusal?_eq (h : r.WellFormed) (offset : UInt64) (length : Nat) :
    r.copyRefusal? offset length =
      if offset.toNat + length ≤ r.pages.toNat * 65536 then none
      else some (if offset.toNat + length < UInt64.size then .uncommitted else .overflow) := by
  have hlt := pages_mul_lt r
  unfold copyRefusal?
  rw [h.size_eq, h.activeSize_eq]
  by_cases hfit : offset.toNat + length ≤ r.pages.toNat * 65536
  · have hend : ¬UInt64.size ≤ offset.toNat + length := by omega
    rw [if_neg hend, if_neg (Nat.not_lt.mpr hfit), if_neg (Nat.not_lt.mpr hfit), if_pos hfit]
  · rw [if_neg hfit]
    by_cases hend : offset.toNat + length < UInt64.size
    · rw [if_neg (Nat.not_le.mpr hend), if_pos (Nat.not_le.mp hfit), if_pos hend]
    · rw [if_pos (Nat.not_lt.mp hend), if_neg hend]

/-! ## Copies -/

/-- The data stands at the offset, and nothing else was changed. -/
structure Copied (offset : UInt64) (data : List UInt8) (b b' : Bytes) : Prop where
  size_eq : b'.size = b.size
  inside : b'.readFrom offset.toNat data.length = data
  outside : ∀ a, a < offset.toNat ∨ offset.toNat + data.length ≤ a → b'.byteAt a = b.byteAt a

theorem copied_overwrite {b : Bytes} (hfit : offset.toNat + data.length ≤ b.size) :
    Copied offset data b (b.overwrite offset.toNat data) where
  size_eq := Bytes.size_overwrite ..
  inside := Access.readFrom_overwrite_self offset.toNat data hfit
  outside := by
    intro a ha
    rw [Bytes.byteAt_overwrite _ _ _ _ hfit, if_neg (by omega)]

/-- A segment is copied if it ends inside the committed pages. -/
theorem WellFormed.outcome_initData (h : r.WellFormed) (offset : UInt64) (data : List UInt8) :
    (initData offset data).outcome r =
      if offset.toNat + data.length ≤ r.pages.toNat * 65536 then
        (.ok (.ok ()), r.withBytes (r.bytes.overwrite offset.toNat data))
      else (.ok (.error .outOfBounds), r) := by
  rw [outcome_initData_eq, h.copyRefusal?_eq]
  by_cases hfit : offset.toNat + data.length ≤ r.pages.toNat * 65536
  · simp [hfit]
  · simp [hfit]

theorem WellFormed.outcome_initData_eq_ok_iff (h : r.WellFormed) {r' : Region max} :
    (initData offset data).outcome r = (.ok (.ok ()), r') ↔
      offset.toNat + data.length ≤ r.pages.toNat * 65536 ∧
        r' = r.withBytes (r.bytes.overwrite offset.toNat data) := by
  rw [h.outcome_initData]
  by_cases hfit : offset.toNat + data.length ≤ r.pages.toNat * 65536
  · simp [hfit, eq_comm]
  · simp [hfit]

/-! ## Copies and stores -/

/-- A store that is granted is a copy of the bytes of the word. -/
theorem WellFormed.outcome_store (h : r.WellFormed) {w : Width} (offset : UInt64) (v : Word w) :
    if offset.toNat + w.byteCount ≤ r.pages.toNat * 65536 then
      (store w offset v).outcome r =
        (.ok (), r.withBytes (r.bytes.overwrite offset.toNat (w.toBytes v)))
    else ∃ f, (store w offset v).outcome r = (.error f, r) := by
  have hsize : r.bytes.size = r.pages.toNat * 65536 := h.size_eq.trans h.activeSize_eq
  have hlt := pages_mul_lt r
  rw [Region.outcome_store, Access.outcome_store, hsize]
  by_cases hfit : offset.toNat + w.byteCount ≤ r.pages.toNat * 65536
  · simp [hfit, Nat.lt_of_le_of_lt hfit hlt]
  · by_cases hend : offset.toNat + w.byteCount < UInt64.size
    · simp only [hfit, hend, if_true, if_false]
      exact ⟨_, rfl⟩
    · simp only [hfit, hend, if_false]
      exact ⟨_, rfl⟩

/-- A word is copied exactly where it can be stored, and to the same effect. -/
theorem WellFormed.initData_toBytes (h : r.WellFormed) {w : Width} (offset : UInt64) (v : Word w)
    (r' : Region max) :
    (initData offset (w.toBytes v)).outcome r = (.ok (.ok ()), r') ↔
      (store w offset v).outcome r = (.ok (), r') := by
  have hstore := h.outcome_store offset v
  rw [h.outcome_initData_eq_ok_iff, Width.length_toBytes]
  by_cases hfit : offset.toNat + w.byteCount ≤ r.pages.toNat * 65536
  · rw [if_pos hfit] at hstore
    simp [hfit, hstore, eq_comm]
  · rw [if_neg hfit] at hstore
    obtain ⟨f, hf⟩ := hstore
    simp [hfit, hf]

/-! ## Copies in pieces -/

/-- Two segments of which the second begins where the first one ends are one
segment. -/
theorem WellFormed.initData_append (h : r.WellFormed) (offset : UInt64)
    (first second : List UInt8) (r' : Region max) :
    (initData offset (first ++ second)).outcome r = (.ok (.ok ()), r') ↔
      ∃ (next : UInt64) (r₁ : Region max), next.toNat = offset.toNat + first.length ∧
        (initData offset first).outcome r = (.ok (.ok ()), r₁) ∧
        (initData next second).outcome r₁ = (.ok (.ok ()), r') := by
  have hone : (r.withBytes (r.bytes.overwrite offset.toNat first)).WellFormed :=
    h.withBytes (Bytes.size_overwrite ..)
  rw [h.outcome_initData_eq_ok_iff, List.length_append]
  constructor
  · rintro ⟨hfit, rfl⟩
    have hlt := pages_mul_lt r
    have hnext : (UInt64.ofNat (offset.toNat + first.length)).toNat =
        offset.toNat + first.length := UInt64.toNat_ofNat_of_lt (by omega)
    refine ⟨_, _, hnext, h.outcome_initData_eq_ok_iff.mpr ⟨by omega, rfl⟩,
      hone.outcome_initData_eq_ok_iff.mpr ⟨?_, ?_⟩⟩
    · rw [hnext, pages_withBytes]
      omega
    · rw [hnext, Bytes.overwrite_append]
      rfl
  · rintro ⟨next, r₁, hnext, hfirst, hsecond⟩
    obtain ⟨-, rfl⟩ := h.outcome_initData_eq_ok_iff.mp hfirst
    obtain ⟨hfit, rfl⟩ := hone.outcome_initData_eq_ok_iff.mp hsecond
    rw [hnext, pages_withBytes] at hfit
    refine ⟨by omega, ?_⟩
    rw [hnext, Bytes.overwrite_append]
    rfl

/-! ## Memories in a session -/

/-- In every memory of every run, at every offset, a segment is copied if and
only if it ends inside the committed pages.  A refusal is for an end that lies
past them or past the last offset; the check against the bytes of the storage
never decides.  A copy puts the data where it belongs and changes
nothing else; a refusal changes nothing at all.  The bytes of a word are copied
exactly where the word can be stored, and then both leave the same memory.  A
segment may be copied in two pieces. -/
theorem Session.segments_copied_whole {limit : Nat} {steps : List Session.Step}
    {entries : List Session.Entry} {s : Session max}
    (h : (⟨limit, []⟩ : Session max).run steps = some (entries, s)) :
    ∀ r ∈ s.regions, ∀ offset : UInt64,
      (∀ data : List UInt8,
        if offset.toNat + data.length ≤ r.pages.toNat * 65536 then
          r.copyRefusal? offset data.length = none ∧
          ∃ b', (initData offset data).outcome r = (.ok (.ok ()), r.withBytes b') ∧
            Copied offset data r.bytes b'
        else
          r.copyRefusal? offset data.length =
            some (if offset.toNat + data.length < UInt64.size then .uncommitted else .overflow) ∧
          (initData offset data).outcome r = (.ok (.error .outOfBounds), r)) ∧
      (∀ (w : Width) (v : Word w) (r' : Region max),
        (initData offset (w.toBytes v)).outcome r = (.ok (.ok ()), r') ↔
          (store w offset v).outcome r = (.ok (), r')) ∧
      ∀ (first second : List UInt8) (r' : Region max),
        (initData offset (first ++ second)).outcome r = (.ok (.ok ()), r') ↔
          ∃ (next : UInt64) (r₁ : Region max), next.toNat = offset.toNat + first.length ∧
            (initData offset first).outcome r = (.ok (.ok ()), r₁) ∧
            (initData next second).outcome r₁ = (.ok (.ok ()), r') := by
  intro r hr offset
  have hwf : r.WellFormed := Session.run_wellFormed h Session.wellFormed_none r hr
  have hsize : r.bytes.size = r.pages.toNat * 65536 := hwf.size_eq.trans hwf.activeSize_eq
  refine ⟨?_, ?_, ?_⟩
  · intro data
    rw [hwf.copyRefusal?_eq, hwf.outcome_initData]
    by_cases hfit : offset.toNat + data.length ≤ r.pages.toNat * 65536
    · rw [if_pos hfit, if_pos hfit, if_pos hfit]
      exact ⟨rfl, _, rfl, copied_overwrite (hsize ▸ hfit)⟩
    · rw [if_neg hfit, if_neg hfit, if_neg hfit]
      exact ⟨rfl, rfl⟩
  · intro w v r'
    exact hwf.initData_toBytes offset v r'
  · intro first second r'
    exact hwf.initData_append offset first second r'

/-- One page is committed of the eight that are reserved: a byte is refused
behind it and at the last offset of all, and no bytes are copied to its very
end. -/
theorem Session.segments_copied_whole_at_end :
    ∃ entries s, ∃ r ∈ s.regions,
      (⟨defaultLimit, []⟩ : Session 16).run [.new, .act 0 (.grow 1)] = some (entries, s) ∧
      r.pages = 1 ∧ r.capacity = 8 ∧
      (initData 65536 [7]).outcome r = (.ok (.error .outOfBounds), r) ∧
      (initData 0xFFFFFFFFFFFFFFFF [7]).outcome r = (.ok (.error .outOfBounds), r) ∧
      ∃ b', (initData 65536 []).outcome r = (.ok (.ok ()), r.withBytes b') ∧
        Copied 65536 [] r.bytes b' := by
  obtain ⟨r, hgranted, -, hpages, htarget, -⟩ :
      ∃ r : Region 16, Granted defaultLimit 1 Region.new r ∧ _ :=
    exists_granted_new (by decide) (by decide)
  have hreserved : r.capacity = 8 :=
    htarget.trans (UInt32.toNat_inj.mp (toNat_target_new (by decide) (by decide)))
  have hgrow : ((Action.grow 1).perform defaultLimit).outcome (Region.new : Region 16) =
      (.ok (.number 0), r) := hgranted.outcome rfl
  have hrun : (⟨defaultLimit, []⟩ : Session 16).run [.new, .act 0 (.grow 1)] =
      some ([⟨.made 0, some (Region.new : Region 16).readings⟩,
        ⟨.acted (.ok (.number 0)), some r.readings⟩], ⟨defaultLimit, [r]⟩) :=
    Session.Stepped.new.run_cons ((Session.Stepped.of_outcome rfl hgrow).run_cons rfl)
  have hmem : r ∈ (⟨defaultLimit, [r]⟩ : Session 16).regions := List.mem_singleton.mpr rfl
  have hbehind := (Session.segments_copied_whole hrun r hmem 65536).1 [7]
  have hbeyond := (Session.segments_copied_whole hrun r hmem 0xFFFFFFFFFFFFFFFF).1 [7]
  have hempty := (Session.segments_copied_whole hrun r hmem 65536).1 []
  rw [hpages, if_neg (by decide)] at hbehind hbeyond
  rw [hpages, if_pos (by decide)] at hempty
  exact ⟨_, _, r, hmem, hrun, hpages, hreserved, hbehind.2, hbeyond.2, hempty.2⟩

end Region

end PagedMemory
