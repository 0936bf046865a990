/-
PagedMemory.Proofs.RowTheorems — what the bit-counting guest does to rows of
words, in every state that it can be in.

  - `rows_written_and_counted` — words are written as far as they fit, and
                         what was written is counted as the plain
                         counterpart counts it.
  - `rows_reversed_in_place`   — the bytes of words are reversed as far as
                         the words fit; doing it twice restores the memory.

Both say which fault ends a walk that does not come to its end, and neither
`overflow` nor an address that has wrapped around is among the reasons.
-/
import PagedMemory.Proofs.WordRows
import Mathlib.Algebra.Order.BigOperators.Group.List

namespace PagedMemory

/-! ## Bits of a row -/

theorem byteSetBits_le : ∀ x : UInt8, byteSetBits x ≤ 8 :=
  forall_byte (by decide +kernel)

theorem bytesSetBits_le (xs : List UInt8) : bytesSetBits xs ≤ xs.length * 8 := by
  have hsum := List.sum_le_card_nsmul (xs.map byteSetBits) 8 (by simp [byteSetBits_le])
  simpa [bytesSetBits] using hsum

namespace Guest

namespace BitStats

/-! ## Aligned words -/

section Row

variable {α β : Type} {size start count : Nat} {a : α}

theorem map_rowAnswer (f : α → β) :
    (rowAnswer size start count a).map f = rowAnswer size start count (f a) := by
  unfold rowAnswer
  split
  · rfl
  · split
    · split <;> rfl
    · rfl

theorem rowAnswer_eq_ok_iff :
    rowAnswer size start count a = .ok a ↔
      count = 0 ∨ 8 ∣ start ∧ start + 8 * count ≤ size := by
  unfold rowAnswer
  by_cases hcount : count = 0
  · simp [hcount]
  · by_cases hdvd : 8 ∣ start <;> simp [hcount, hdvd]

/-- The words that are reached fit. -/
theorem reached_fits (size start : Nat) (words : List UInt64) :
    reached size start words = [] ∨
      start + 8 * (reached size start words).length ≤ size := by
  unfold reached
  split
  · rw [List.length_take]
    by_cases hroom : room size start 8 = 0
    · exact .inl (by simp [hroom])
    · unfold room at *
      exact .inr (by omega)
  · exact .inl rfl

/-- Where a walk comes to its end it has reached all words. -/
theorem reached_of_ok {words : List UInt64}
    (h : words.length = 0 ∨ 8 ∣ start ∧ start + 8 * words.length ≤ size) :
    reached size start words = words := by
  rcases h with hnil | ⟨hdvd, hfit⟩
  · simp [reached, List.eq_nil_of_length_eq_zero hnil]
  · have hroom : words.length ≤ room size start 8 := by
      unfold room
      omega
    simp [reached, hdvd, List.take_of_length_le hroom]

end Row

/-- The words are in the bytes one after another from an address on, and
nothing else is changed. -/
structure WordsWritten (start : Nat) (words : List UInt64) (b b' : Bytes) : Prop where
  size_eq : b'.size = b.size
  inside : b'.readFrom start (8 * words.length) = words.flatMap Width.w64.toBytes
  outside : ∀ a, a < start ∨ start + 8 * words.length ≤ a → b'.byteAt a = b.byteAt a

theorem wordsWritten_overwrite {start : Nat} {words : List UInt64} {b : Bytes}
    (hfit : words = [] ∨ start + 8 * words.length ≤ b.size) :
    WordsWritten start words b (b.overwrite start (rowBytes words)) := by
  rcases hfit with rfl | hfit
  · exact ⟨rfl, rfl, fun _ _ => rfl⟩
  · have hlength : start + (rowBytes words).length ≤ b.size := by rwa [length_rowBytes]
    refine ⟨Bytes.size_overwrite .., ?_, fun a ha => ?_⟩
    · rw [← length_rowBytes]
      exact Access.readFrom_overwrite_self start (rowBytes words) hlength
    · rw [Bytes.byteAt_overwrite _ _ _ _ hlength, length_rowBytes, if_neg (by omega)]

/-- A row is counted as far as it fits; the count is no more than a machine
word holds. -/
theorem popcountSum_eq {g : BitStats} (hsize : g.memory.bytes.size < 2 ^ 32) (ptr len : UInt32) :
    (popcountSum g ptr len).map (·.toNat) =
      rowAnswer g.memory.bytes.size ptr.toNat len.toNat
        (bytesSetBits (g.memory.bytes.readFrom ptr.toNat (8 * len.toNat))) := by
  have hcount := countFrom_eq (i := 0) hsize (by simpa using ptr.toNat_lt) len.toNat 0
  have hbits := bytesSetBits_le (g.memory.bytes.readFrom ptr.toNat (8 * len.toNat))
  have hlen := len.toNat_lt
  rw [Bytes.length_readFrom] at hbits
  have hzero : ptr.toNat + 8 * (0 : UInt32).toNat = ptr.toNat := rfl
  have hword : (UInt64.ofNat
      (bytesSetBits (g.memory.bytes.readFrom ptr.toNat (8 * len.toNat)))).toNat =
      bytesSetBits (g.memory.bytes.readFrom ptr.toNat (8 * len.toNat)) :=
    UInt64.toNat_ofNat_of_lt (by simp only [UInt64.size]; omega)
  rw [popcountSum, hcount, hzero, map_rowAnswer, UInt64.zero_add, hword]

/-- Words that stand in a row are counted as the plain counterpart counts
them, and both counts are exact. -/
theorem popcountSum_of_written {g : BitStats} {ptr : UInt32} {words : List UInt64} {b : Bytes}
    (h : g.HasOnePage) (hwritten : WordsWritten ptr.toNat words b g.memory.bytes)
    (hfit : words.length = 0 ∨ 8 ∣ ptr.toNat ∧ ptr.toNat + 8 * words.length ≤ 65536) :
    ∃ total, plainPopcountSum words = .ok total ∧
      popcountSum g ptr (UInt32.ofNat words.length) = .ok total ∧
      total.toNat = (words.map (Width.setBits .w64)).sum := by
  have hlength : (UInt32.ofNat words.length).toNat = words.length :=
    UInt32.toNat_ofNat_of_lt (by simp only [UInt32.size]; omega)
  have hbits := bytesSetBits_le (rowBytes words)
  rw [bytesSetBits_rowBytes, length_rowBytes] at hbits
  have hsmall : (0 : UInt64).toNat + (words.map (Width.setBits .w64)).sum < UInt64.size := by
    simp only [UInt64.toNat_zero, UInt64.size]
    omega
  obtain ⟨total, hplain, hexact⟩ := exists_plainCountFrom hsmall
  rw [UInt64.toNat_zero, Nat.zero_add] at hexact
  have hcount := popcountSum_eq h.size_lt ptr (UInt32.ofNat words.length)
  rw [hlength, hwritten.inside, h.size_eq, rowAnswer_eq_ok_iff.mpr hfit] at hcount
  cases hguest : popcountSum g ptr (UInt32.ofNat words.length) with
  | error f =>
    rw [hguest] at hcount
    cases hcount
  | ok counted =>
    rw [hguest] at hcount
    have hnat : counted.toNat = bytesSetBits (rowBytes words) := Except.ok.inj hcount
    rw [bytesSetBits_rowBytes, ← hexact] at hnat
    exact ⟨total, hplain, congrArg Except.ok (UInt64.toNat_inj.mp hnat), hexact⟩

theorem outcome_writeWords {g : BitStats} (h : g.HasOnePage) (ptr : UInt32)
    (words : List UInt64) :
    (writeWords ptr words).outcome g =
      (rowAnswer 65536 ptr.toNat words.length (),
        { g with
          memory := g.memory.withBytes
            (g.memory.bytes.overwrite ptr.toNat (rowBytes (reached 65536 ptr.toNat words))) }) := by
  have hrun := outcome_writeFrom (i := 0) h.size_lt (by simpa using ptr.toNat_lt) words
  have hzero : ptr.toNat + 8 * (0 : UInt64).toNat = ptr.toNat := rfl
  rw [hzero, h.size_eq] at hrun
  rw [writeWords, Instance.outcome_onBytes, hrun]

/-- In every state that a guest can be in, words are written and counted as
far as they fit the page.  A row that is not aligned is refused before
anything is written.  Words that were all written are counted as the plain
counterpart counts them, which is exact, and any row of words that fits has
the set bits of its bytes. -/
theorem rows_written_and_counted :
    (∃ g₀, BitStats.new = .ok g₀ ∧ ∀ steps, (run g₀ steps).2.HasOnePage) ∧
    ∀ (g : BitStats) (ptr : UInt32), g.HasOnePage →
      (∀ words : List UInt64, ∃ b',
        (writeWords ptr words).outcome g =
          (rowAnswer 65536 ptr.toNat words.length (),
            { g with memory := g.memory.withBytes b' }) ∧
        WordsWritten ptr.toNat
          (if 8 ∣ ptr.toNat then words.take ((65536 - ptr.toNat) / 8) else [])
          g.memory.bytes b' ∧
        (rowAnswer 65536 ptr.toNat words.length () = .ok () ↔
          words = [] ∨ 8 ∣ ptr.toNat ∧ ptr.toNat + 8 * words.length ≤ 65536) ∧
        (rowAnswer 65536 ptr.toNat words.length () = .ok () →
          ∃ total, plainPopcountSum words = .ok total ∧
            popcountSum { g with memory := g.memory.withBytes b' } ptr
              (UInt32.ofNat words.length) = .ok total ∧
            total.toNat = (words.map (Width.setBits .w64)).sum)) ∧
      ∀ len : UInt32, (popcountSum g ptr len).map (·.toNat) =
        rowAnswer 65536 ptr.toNat len.toNat
          (bytesSetBits (g.memory.bytes.readFrom ptr.toNat (8 * len.toNat))) := by
  refine ⟨exists_new, fun g ptr h => ⟨fun words => ?_, fun len => ?_⟩⟩
  · have hfits := reached_fits 65536 ptr.toNat words
    rw [← h.size_eq] at hfits
    have hwritten := wordsWritten_overwrite hfits
    rw [h.size_eq] at hwritten
    refine ⟨_, outcome_writeWords h ptr words, hwritten, ?_, fun hok => ?_⟩
    · rw [rowAnswer_eq_ok_iff, List.length_eq_zero_iff]
    · have hfit := rowAnswer_eq_ok_iff.mp hok
      rw [reached_of_ok hfit] at hwritten ⊢
      exact popcountSum_of_written (h.withBytes hwritten.size_eq) hwritten hfit
  · have hcount := popcountSum_eq h.size_lt ptr len
    rwa [h.size_eq] at hcount

/-- Three words at the end of a page that has room for two of them. -/
theorem rows_written_and_counted_at_end :
    ∃ g₀ b', BitStats.new = .ok g₀ ∧
      Instance.HasOnePage (run g₀ [.memory (.fill 0xAA), .swapWords 1 5]).2 ∧
      (writeWords 65520 [1, 2, 3]).outcome (run g₀ [.memory (.fill 0xAA), .swapWords 1 5]).2 =
        (.error .outOfBounds, { (run g₀ [.memory (.fill 0xAA), .swapWords 1 5]).2 with
          memory := (run g₀ [.memory (.fill 0xAA), .swapWords 1 5]).2.memory.withBytes b' }) ∧
      WordsWritten 65520 [1, 2]
        (run g₀ [.memory (.fill 0xAA), .swapWords 1 5]).2.memory.bytes b' := by
  obtain ⟨⟨g₀, hnew, hpage⟩, hruns⟩ := rows_written_and_counted
  have hused := hpage [.memory (.fill 0xAA), .swapWords 1 5]
  obtain ⟨b', hrun, hwritten, -⟩ := (hruns _ 65520 hused).1 [1, 2, 3]
  exact ⟨g₀, b', hnew, hused, hrun, hwritten⟩

/-! ## Words of 32 bits -/

theorem exists_swapWords {g : BitStats} (h : g.HasOnePage) (ptr len : UInt32) :
    ∃ b', (swapWords ptr len).outcome g =
        (if len.toNat ≤ (65536 - ptr.toNat) / 4 then .ok () else .error .outOfBounds,
          { g with memory := g.memory.withBytes b' }) ∧
      GroupsReversed ptr.toNat (min len.toNat ((65536 - ptr.toNat) / 4)) g.memory.bytes b' := by
  obtain ⟨b', hrun, hreversed⟩ :=
    outcome_swapFrom (i := 0) h.size_lt (by simpa using ptr.toNat_lt) len.toNat
  have hzero : ptr.toNat + 4 * (0 : UInt32).toNat = ptr.toNat := rfl
  rw [hzero, h.size_eq] at hrun hreversed
  exact ⟨b', by rw [swapWords, Instance.outcome_onBytes, hrun]; rfl, hreversed⟩

/-- In every state that a guest can be in, the bytes of the words that fit
the page are reversed, wherever the row starts, and the answer says whether
these were all.  A second walk over the same row answers the same and
restores the memory. -/
theorem rows_reversed_in_place :
    (∃ g₀, BitStats.new = .ok g₀ ∧ ∀ steps, (run g₀ steps).2.HasOnePage) ∧
    ∀ (g : BitStats) (ptr len : UInt32), g.HasOnePage →
      ∃ (answer : Except Fault Unit) (g' : BitStats) (b' : Bytes),
        answer = (if len.toNat ≤ (65536 - ptr.toNat) / 4 then .ok () else .error .outOfBounds) ∧
        g' = { g with memory := g.memory.withBytes b' } ∧
        GroupsReversed ptr.toNat (min len.toNat ((65536 - ptr.toNat) / 4)) g.memory.bytes b' ∧
        (swapWords ptr len).outcome g = (answer, g') ∧
        (swapWords ptr len).outcome g' = (answer, g) := by
  refine ⟨exists_new, fun g ptr len h => ?_⟩
  obtain ⟨b', hrun, hreversed⟩ := exists_swapWords h ptr len
  obtain ⟨b'', hrun', hreversed'⟩ := exists_swapWords (h.withBytes hreversed.size_eq) ptr len
  have hrestored : b'' = g.memory.bytes := hreversed.twice hreversed'
  refine ⟨_, _, b', rfl, rfl, hreversed, hrun, ?_⟩
  rw [hrun', hrestored]
  rfl

/-- A row of three words at an odd address with room for two of them. -/
theorem rows_reversed_in_place_at_end :
    ∃ g₀ g' b', BitStats.new = .ok g₀ ∧
      Instance.HasOnePage (run g₀ [.writeWords 65528 [0x0102030405060708]]).2 ∧
      GroupsReversed 65527 2
        (run g₀ [.writeWords 65528 [0x0102030405060708]]).2.memory.bytes b' ∧
      (swapWords 65527 3).outcome (run g₀ [.writeWords 65528 [0x0102030405060708]]).2 =
        (.error .outOfBounds, g') ∧
      (swapWords 65527 3).outcome g' =
        (.error .outOfBounds, (run g₀ [.writeWords 65528 [0x0102030405060708]]).2) ∧
      g'.memory.bytes = b' := by
  obtain ⟨⟨g₀, hnew, hpage⟩, hruns⟩ := rows_reversed_in_place
  have hused := hpage [.writeWords 65528 [0x0102030405060708]]
  obtain ⟨_, g', b', rfl, rfl, hreversed, hrun, hback⟩ := hruns _ 65527 3 hused
  exact ⟨g₀, _, b', hnew, hused, hreversed, hrun, hback, rfl⟩

end BitStats

end Guest

end PagedMemory
