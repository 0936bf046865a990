/-
PagedMemory.Proofs.WordRows — the rows of words that the bit-counting guest
walks over.

A walk stops at the first word that does not fit the memory, so the address
of a word that it reaches is below the size of the memory and has not
wrapped around (`toNat_rowAddress`).  Each of the three loops has one lemma
for a step and one for a whole walk:

  - `outcome_writeFrom` — the words that fit are in the memory one after
                         another.
  - `countFrom_eq`      — the set bits of the bytes of the row.
  - `outcome_swapFrom`  — the groups of four bytes that fit are reversed.

`rowAnswer` is what the first two answer.  None of the loops changes the
size of the memory, so the guest keeps its page (`exists_new`).
-/
import PagedMemory.Guest.BitStats
import PagedMemory.Proofs.BitLanes
import PagedMemory.Proofs.ByteOrder
import PagedMemory.Proofs.GuestMemory
import PagedMemory.Proofs.WordAccess
import Mathlib.Data.List.GetD

namespace PagedMemory

/-! ## Bits of bytes -/

/-- The set bits of some bytes. -/
def bytesSetBits (xs : List UInt8) : Nat := (xs.map byteSetBits).sum

@[simp] theorem bytesSetBits_append (xs ys : List UInt8) :
    bytesSetBits (xs ++ ys) = bytesSetBits xs + bytesSetBits ys := by
  simp [bytesSetBits]

/-- The set bits of a word are those of the bytes that spell it. -/
theorem Width.setBits_word_decode {w : Width} {xs : List UInt8} (h : xs.length = w.byteCount) :
    w.setBits (w.word (LittleEndian.decode xs)) = bytesSetBits xs := by
  rw [setBits_eq_sum, toBytes_word_decode h, bytesSetBits]

namespace Access

variable {w : Width} {a : w.Alignment} {b : Bytes} {offset : UInt64}

/-! ## Accesses near the memory -/

theorem loadAligned_of_lt (h : offset.toNat + w.byteCount < UInt64.size) :
    loadAligned w a b offset =
      if a.byteCount ∣ offset.toNat then
        if offset.toNat + w.byteCount ≤ b.size then
          .ok (w.word (LittleEndian.decode (b.readFrom offset.toNat w.byteCount)))
        else .error .outOfBounds
      else .error .misaligned := by
  rw [loadAligned_eq, load_eq, if_pos h]

theorem outcome_storeAligned_of_lt (h : offset.toNat + w.byteCount < UInt64.size) (v : Word w) :
    (storeAligned w a offset v).outcome b =
      if a.byteCount ∣ offset.toNat then
        if offset.toNat + w.byteCount ≤ b.size then
          (.ok (), b.overwrite offset.toNat (w.toBytes v))
        else (.error .outOfBounds, b)
      else (.error .misaligned, b) := by
  rw [outcome_storeAligned, outcome_store, if_pos h]

end Access

namespace Guest

namespace BitStats

/-! ## Addresses -/

/-- The address of a word in a row, as long as it is a 32-bit number. -/
theorem toNat_rowAddress {ptr i width : UInt32}
    (h : ptr.toNat + width.toNat * i.toNat < 2 ^ 32) :
    (ptr + i * width).toUInt64.toNat = ptr.toNat + width.toNat * i.toNat := by
  have hdistance : (i * width).toNat = width.toNat * i.toNat := by
    rw [UInt32.toNat_mul, Nat.mul_comm, Nat.mod_eq_of_lt (by omega)]
  rw [UInt32.toNat_toUInt64, UInt32.toNat_add, hdistance, Nat.mod_eq_of_lt h]

/-- The number of whole words from an address on to the end of a memory. -/
def room (size start width : Nat) : Nat := (size - start) / width

theorem room_of_lt {size start width : Nat} (hwidth : 0 < width) (h : size < start + width) :
    room size start width = 0 :=
  Nat.div_eq_of_lt (by omega)

theorem room_of_le {size start width : Nat} (hwidth : 0 < width) (h : start + width ≤ size) :
    room size start width = room size (start + width) width + 1 := by
  have hsplit : size - start = size - (start + width) + width := by omega
  rw [room, hsplit, Nat.add_div_right _ hwidth, room]

/-! ## Rows of aligned words -/

/-- What a walk over `count` words of eight bytes answers: the first of them
must be aligned, and the last must fit. -/
def rowAnswer {α : Type} (size start count : Nat) (a : α) : Except Fault α :=
  if count = 0 then .ok a
  else if 8 ∣ start then
    if start + 8 * count ≤ size then .ok a else .error .outOfBounds
  else .error .misaligned

/-- The words that a walk reaches before it stops. -/
def reached (size start : Nat) (words : List UInt64) : List UInt64 :=
  if 8 ∣ start then words.take (room size start 8) else []

/-- The bytes of words, one after another. -/
def rowBytes (words : List UInt64) : List UInt8 := words.flatMap Width.w64.toBytes

section Row

variable {α : Type} {size start count : Nat} {words : List UInt64} {word : UInt64} {a : α}

theorem rowAnswer_zero : rowAnswer size start 0 a = .ok a := rfl

theorem rowAnswer_succ_of_le (hdvd : 8 ∣ start) (hfit : start + 8 ≤ size) :
    rowAnswer size start (count + 1) a = rowAnswer size (start + 8) count a := by
  have hdvd' : 8 ∣ start + 8 := by omega
  cases count with
  | zero => simp [rowAnswer, hdvd, hfit]
  | succ count =>
    have hend : start + 8 * (count + 1 + 1) = start + 8 + 8 * (count + 1) := by omega
    simp [rowAnswer, hdvd, hdvd', hend]

theorem rowAnswer_succ_of_lt (hdvd : 8 ∣ start) (hlt : size < start + 8) :
    rowAnswer size start (count + 1) a = .error .outOfBounds := by
  have hend : ¬start + 8 * (count + 1) ≤ size := by omega
  simp [rowAnswer, hdvd, hend]

theorem rowAnswer_succ_of_not_dvd (hdvd : ¬8 ∣ start) :
    rowAnswer size start (count + 1) a = .error .misaligned := by
  simp [rowAnswer, hdvd]

theorem reached_cons_of_le (hdvd : 8 ∣ start) (hfit : start + 8 ≤ size) :
    reached size start (word :: words) = word :: reached size (start + 8) words := by
  have hdvd' : 8 ∣ start + 8 := by omega
  simp [reached, hdvd, hdvd', room_of_le (by decide) hfit]

theorem reached_cons_of_lt (hlt : size < start + 8) :
    reached size start (word :: words) = [] := by
  simp [reached, room_of_lt (by decide : 0 < 8) hlt]

theorem reached_of_not_dvd (hdvd : ¬8 ∣ start) : reached size start words = [] :=
  if_neg hdvd

@[simp] theorem rowBytes_nil : rowBytes [] = [] := rfl

@[simp] theorem rowBytes_cons :
    rowBytes (word :: words) = Width.w64.toBytes word ++ rowBytes words := by
  simp [rowBytes]

@[simp] theorem length_rowBytes : (rowBytes words).length = 8 * words.length := by
  induction words with
  | nil => rfl
  | cons word words ih =>
    simp [ih, Width.byteCount]
    omega

/-- The bits of the bytes are counted word by word. -/
theorem bytesSetBits_rowBytes (words : List UInt64) :
    bytesSetBits (rowBytes words) = (words.map (Width.setBits .w64)).sum := by
  induction words with
  | nil => rfl
  | cons word words ih =>
    rw [rowBytes_cons, bytesSetBits_append, ih, List.map_cons, List.sum_cons,
      Width.setBits_eq_sum, bytesSetBits]

/-- As long as a word holds the count, counting without a memory is exact. -/
theorem exists_plainCountFrom {sum : UInt64}
    (h : sum.toNat + (words.map (Width.setBits .w64)).sum < UInt64.size) :
    ∃ total, plainCountFrom sum words = .ok total ∧
      total.toNat = sum.toNat + (words.map (Width.setBits .w64)).sum := by
  induction words generalizing sum with
  | nil => exact ⟨sum, rfl, rfl⟩
  | cons word words ih =>
    rw [List.map_cons, List.sum_cons] at h ⊢
    have hbits : (UInt64.ofNat (Width.setBits .w64 word)).toNat = Width.setBits .w64 word :=
      UInt64.toNat_ofNat_of_lt (by omega)
    have hroom : sum.toNat + (UInt64.ofNat (Width.setBits .w64 word)).toNat < UInt64.size := by
      omega
    obtain ⟨next, hnext, hnat⟩ := Checked.exists_add hroom
    rw [hbits] at hnat
    have hrest : next.toNat + (words.map (Width.setBits .w64)).sum < UInt64.size := by omega
    obtain ⟨total, htotal, hexact⟩ := ih hrest
    refine ⟨total, ?_, by omega⟩
    rw [plainCountFrom, hnext]
    exact htotal

end Row

/-! ## Writing -/

theorem writeFrom_cons {ptr : UInt32} {i : UInt64} {b : Bytes}
    (hstart : ptr.toNat + 8 * i.toNat < 2 ^ 32) (word : UInt64) (rest : List UInt64) :
    (writeFrom ptr i (word :: rest)).outcome b =
      if 8 ∣ ptr.toNat + 8 * i.toNat then
        if ptr.toNat + 8 * i.toNat + 8 ≤ b.size then
          (writeFrom ptr (i + 1) rest).outcome
            (b.overwrite (ptr.toNat + 8 * i.toNat) (Width.w64.toBytes word))
        else (.error .outOfBounds, b)
      else (.error .misaligned, b) := by
  have hmul : (Checked.mul i 8 : Except Fault UInt64) = .ok (i * 8) :=
    Checked.mul_eq_ok (by simp [UInt64.size]; omega)
  have hdistance : (i * 8).toNat = 8 * i.toNat := by
    rw [Checked.toNat_of_mul hmul]
    exact Nat.mul_comm _ _
  have hadd : (Checked.add ptr.toUInt64 (i * 8) : Except Fault UInt64) =
      .ok (ptr.toUInt64 + i * 8) :=
    Checked.add_eq_ok (by simp [hdistance, UInt64.size]; omega)
  have haddress : (ptr.toUInt64 + i * 8).toNat = ptr.toNat + 8 * i.toNat := by
    rw [Checked.toNat_of_add hadd, hdistance, UInt32.toNat_toUInt64]
  have hstore : (Access.storeAligned .w64 (Fin.last _) (ptr.toUInt64 + i * 8) word).outcome b =
      if 8 ∣ ptr.toNat + 8 * i.toNat then
        if ptr.toNat + 8 * i.toNat + 8 ≤ b.size then
          (.ok (), b.overwrite (ptr.toNat + 8 * i.toNat) (Width.w64.toBytes word))
        else (.error .outOfBounds, b)
      else (.error .misaligned, b) := by
    rw [Access.outcome_storeAligned_of_lt
      (by rw [haddress]; simp only [Width.byteCount, UInt64.size]; omega), haddress]
    rfl
  have hnext : (Checked.add i 1 : Except Fault UInt64) = .ok (i + 1) :=
    Checked.next_eq_ok (by simp only [UInt64.size]; omega)
  by_cases hdvd : 8 ∣ ptr.toNat + 8 * i.toNat
  · by_cases hfit : ptr.toNat + 8 * i.toNat + 8 ≤ b.size
    · simp only [writeFrom, Routine.outcome_bind, Routine.outcome_liftM, hmul, hadd, hstore, hdvd,
        hfit, if_true, hnext]
    · simp only [writeFrom, Routine.outcome_bind, Routine.outcome_liftM, hmul, hadd, hstore, hdvd,
        hfit, if_true, if_false]
  · simp only [writeFrom, Routine.outcome_bind, Routine.outcome_liftM, hmul, hadd, hstore, hdvd,
      if_false]

/-- A walk writes the words that it reaches. -/
theorem outcome_writeFrom {ptr : UInt32} {i : UInt64} {b : Bytes} (hsize : b.size < 2 ^ 32)
    (hstart : ptr.toNat + 8 * i.toNat < 2 ^ 32) (words : List UInt64) :
    (writeFrom ptr i words).outcome b =
      (rowAnswer b.size (ptr.toNat + 8 * i.toNat) words.length (),
        b.overwrite (ptr.toNat + 8 * i.toNat)
          (rowBytes (reached b.size (ptr.toNat + 8 * i.toNat) words))) := by
  induction words generalizing i b with
  | nil => simp [writeFrom, rowAnswer_zero, reached, Bytes.overwrite]
  | cons word rest ih =>
    rw [writeFrom_cons hstart, List.length_cons]
    by_cases hdvd : 8 ∣ ptr.toNat + 8 * i.toNat
    · by_cases hfit : ptr.toNat + 8 * i.toNat + 8 ≤ b.size
      · have hnext : (i + 1).toNat = i.toNat + 1 :=
          Checked.toNat_next (by simp only [UInt64.size]; omega)
        have hstart' : ptr.toNat + 8 * (i + 1).toNat = ptr.toNat + 8 * i.toNat + 8 := by omega
        have hrest := ih (i := i + 1) (b := b.overwrite (ptr.toNat + 8 * i.toNat)
          (Width.w64.toBytes word)) (by simpa using hsize) (by omega)
        rw [if_pos hdvd, if_pos hfit, hrest, hstart', Bytes.size_overwrite,
          rowAnswer_succ_of_le hdvd hfit, reached_cons_of_le hdvd hfit, rowBytes_cons,
          Bytes.overwrite_append, Width.length_toBytes]
        rfl
      · have hlt := Nat.not_le.mp hfit
        rw [if_pos hdvd, if_neg hfit, rowAnswer_succ_of_lt hdvd hlt, reached_cons_of_lt hlt]
        rfl
    · rw [if_neg hdvd, rowAnswer_succ_of_not_dvd hdvd, reached_of_not_dvd hdvd]
      rfl

/-! ## Counting -/

theorem countFrom_succ {ptr i : UInt32} {b : Bytes}
    (hstart : ptr.toNat + 8 * i.toNat < 2 ^ 32) (count : Nat) (sum : UInt64) :
    countFrom b ptr (count + 1) i sum =
      if 8 ∣ ptr.toNat + 8 * i.toNat then
        if ptr.toNat + 8 * i.toNat + 8 ≤ b.size then
          countFrom b ptr count (i + 1)
            (sum + UInt64.ofNat (bytesSetBits (b.readFrom (ptr.toNat + 8 * i.toNat) 8)))
        else .error .outOfBounds
      else .error .misaligned := by
  have haddress : (ptr + i * 8).toUInt64.toNat = ptr.toNat + 8 * i.toNat := toNat_rowAddress hstart
  have hload : Access.loadAligned .w64 (Fin.last _) b (ptr + i * 8).toUInt64 =
      if 8 ∣ ptr.toNat + 8 * i.toNat then
        if ptr.toNat + 8 * i.toNat + 8 ≤ b.size then
          .ok (Width.w64.word (LittleEndian.decode (b.readFrom (ptr.toNat + 8 * i.toNat) 8)))
        else .error .outOfBounds
      else .error .misaligned := by
    rw [Access.loadAligned_of_lt
      (by rw [haddress]; simp only [Width.byteCount, UInt64.size]; omega), haddress]
    rfl
  by_cases hdvd : 8 ∣ ptr.toNat + 8 * i.toNat
  · by_cases hfit : ptr.toNat + 8 * i.toNat + 8 ≤ b.size
    · have hnext : (Checked.add i 1 : Except Fault UInt32) = .ok (i + 1) :=
        Checked.next_eq_ok (by simp only [UInt32.size]; omega)
      have hbits := Width.setBits_word_decode (w := .w64)
        (Bytes.length_readFrom b (ptr.toNat + 8 * i.toNat) 8)
      simp only [countFrom, hload, hdvd, hfit, if_true, popcount64_eq, hbits, hnext, bind,
        Except.bind]
    · simp only [countFrom, hload, hdvd, hfit, if_true, if_false, bind, Except.bind]
  · simp only [countFrom, hload, hdvd, if_false, bind, Except.bind]

/-- A walk adds up the set bits of the bytes of the row. -/
theorem countFrom_eq {ptr i : UInt32} {b : Bytes} (hsize : b.size < 2 ^ 32)
    (hstart : ptr.toNat + 8 * i.toNat < 2 ^ 32) (count : Nat) (sum : UInt64) :
    countFrom b ptr count i sum =
      rowAnswer b.size (ptr.toNat + 8 * i.toNat) count
        (sum + UInt64.ofNat
          (bytesSetBits (b.readFrom (ptr.toNat + 8 * i.toNat) (8 * count)))) := by
  induction count generalizing i sum with
  | zero => simp [countFrom, rowAnswer_zero, Bytes.readFrom, bytesSetBits]
  | succ count ih =>
    rw [countFrom_succ hstart]
    by_cases hdvd : 8 ∣ ptr.toNat + 8 * i.toNat
    · by_cases hfit : ptr.toNat + 8 * i.toNat + 8 ≤ b.size
      · have hnext : (i + 1).toNat = i.toNat + 1 :=
          Checked.toNat_next (by simp only [UInt32.size]; omega)
        have hstart' : ptr.toNat + 8 * (i + 1).toNat = ptr.toNat + 8 * i.toNat + 8 := by omega
        have hlength : 8 * (count + 1) = 8 + 8 * count := by omega
        rw [if_pos hdvd, if_pos hfit, ih (by omega), hstart', rowAnswer_succ_of_le hdvd hfit,
          hlength, Bytes.readFrom_add, bytesSetBits_append, UInt64.ofNat_add, UInt64.add_assoc]
      · rw [if_pos hdvd, if_neg hfit, rowAnswer_succ_of_lt hdvd (Nat.not_le.mp hfit)]
    · rw [if_neg hdvd, rowAnswer_succ_of_not_dvd hdvd]

/-! ## Reversing -/

theorem swapFrom_succ {ptr i : UInt32} {b : Bytes}
    (hstart : ptr.toNat + 4 * i.toNat < 2 ^ 32) (count : Nat) :
    (swapFrom ptr (count + 1) i).outcome b =
      if ptr.toNat + 4 * i.toNat + 4 ≤ b.size then
        (swapFrom ptr count (i + 1)).outcome
          (b.overwrite (ptr.toNat + 4 * i.toNat)
            (b.readFrom (ptr.toNat + 4 * i.toNat) 4).reverse)
      else (.error .outOfBounds, b) := by
  have haddress : (ptr + i * 4).toUInt64.toNat = ptr.toNat + 4 * i.toNat := toNat_rowAddress hstart
  have hoffset : (ptr + i * 4).toUInt64.toNat + Width.w32.byteCount < UInt64.size := by
    rw [haddress]
    simp only [Width.byteCount, UInt64.size]
    omega
  have hone (n : Nat) : (0 : Width.w32.Alignment).byteCount ∣ n := Nat.one_dvd n
  have hstep : swapFrom ptr (count + 1) i = (do
      let word ← Routine.reading (Access.loadAligned .w32 0 · (ptr + i * 4).toUInt64)
      Access.storeAligned .w32 0 (ptr + i * 4).toUInt64 (swapBytes32 word)
      let next ← Checked.add i 1
      swapFrom ptr count next) := rfl
  have hload := Access.loadAligned_of_lt (a := 0) (b := b) hoffset
  have hstore := Access.outcome_storeAligned_of_lt (a := 0) (b := b) hoffset
  simp only [haddress, hone, if_true] at hload hstore
  rw [hstep, Routine.outcome_bind, Routine.outcome_reading]
  by_cases hfit : ptr.toNat + 4 * i.toNat + 4 ≤ b.size
  · have hnext : (Checked.add i 1 : Except Fault UInt32) = .ok (i + 1) :=
      Checked.next_eq_ok (by simp only [UInt32.size]; omega)
    have hbytes : Width.toBytes .w32 (swapBytes32 (Width.w32.word
        (LittleEndian.decode (b.readFrom (ptr.toNat + 4 * i.toNat) 4)))) =
        (b.readFrom (ptr.toNat + 4 * i.toNat) 4).reverse := by
      rw [Width.toBytes_swapBytes32]
      exact congrArg List.reverse (Width.toBytes_word_decode (Bytes.length_readFrom ..))
    have hfit' : ptr.toNat + 4 * i.toNat + Width.w32.byteCount ≤ b.size := hfit
    simp only [hfit', if_true] at hload hstore
    rw [if_pos hfit]
    simp only [Routine.outcome_bind, Routine.outcome_liftM, hload, hstore, hnext]
    rw [← hbytes]
    rfl
  · have hfit' : ¬ptr.toNat + 4 * i.toNat + Width.w32.byteCount ≤ b.size := hfit
    simp only [hfit', if_false] at hload
    rw [if_neg hfit]
    simp only [hload]

/-- Each of the first `k` groups of four bytes from an address on has its
bytes reversed, and nothing else is changed. -/
structure GroupsReversed (start k : Nat) (b b' : Bytes) : Prop where
  size_eq : b'.size = b.size
  inside : ∀ i < k, ∀ j < 4,
    b'.byteAt (start + 4 * i + j) = b.byteAt (start + 4 * i + (3 - j))
  outside : ∀ a, a < start ∨ start + 4 * k ≤ a → b'.byteAt a = b.byteAt a

namespace GroupsReversed

variable {start k : Nat} {b b' b'' : Bytes}

theorem zero (start : Nat) (b : Bytes) : GroupsReversed start 0 b b where
  size_eq := rfl
  inside := by simp
  outside _ _ := rfl

/-- One group is reversed and then those behind it. -/
theorem cons (hfit : start + 4 ≤ b.size)
    (h : GroupsReversed (start + 4) k (b.overwrite start (b.readFrom start 4).reverse) b') :
    GroupsReversed start (k + 1) b b' := by
  have hone (a : Nat) : (b.overwrite start (b.readFrom start 4).reverse).byteAt a =
      if start ≤ a ∧ a < start + 4 then b.byteAt (start + (3 - (a - start))) else b.byteAt a := by
    rw [Bytes.byteAt_overwrite _ _ _ _ (by simpa using hfit), List.length_reverse,
      Bytes.length_readFrom]
    split
    · rw [List.getD_reverse _ (by rw [Bytes.length_readFrom]; omega), Bytes.length_readFrom,
        Bytes.getD_readFrom _ _ (by omega)]
    · rfl
  refine ⟨by simpa using h.size_eq, fun i hi j hj => ?_, fun a ha => ?_⟩
  · cases i with
    | zero =>
      rw [h.outside _ (by omega), hone, if_pos (by omega)]
      congr 1
      omega
    | succ i =>
      have hgroup := h.inside i (by omega) j hj
      rw [hone, if_neg (by omega)] at hgroup
      have hleft : start + 4 * (i + 1) + j = start + 4 + 4 * i + j := by omega
      have hright : start + 4 * (i + 1) + (3 - j) = start + 4 + 4 * i + (3 - j) := by omega
      rw [hleft, hright, hgroup]
  · rw [h.outside a (by omega), hone, if_neg (by omega)]

/-- Reversing the same groups twice restores the bytes. -/
theorem twice (h : GroupsReversed start k b b') (h' : GroupsReversed start k b' b'') :
    b'' = b := by
  refine Bytes.ext_byteAt (h'.size_eq.trans h.size_eq) fun a _ => ?_
  by_cases ha : a < start ∨ start + 4 * k ≤ a
  · rw [h'.outside a ha, h.outside a ha]
  · obtain ⟨i, j, hi, hj, rfl⟩ : ∃ i j, i < k ∧ j < 4 ∧ a = start + 4 * i + j :=
      ⟨(a - start) / 4, (a - start) % 4, by omega, by omega, by omega⟩
    have hback : 3 - (3 - j) = j := by omega
    rw [h'.inside i hi j hj, h.inside i hi (3 - j) (by omega), hback]

end GroupsReversed

/-- A walk reverses the groups that fit, and answers if all of them do. -/
theorem outcome_swapFrom {ptr i : UInt32} {b : Bytes} (hsize : b.size < 2 ^ 32)
    (hstart : ptr.toNat + 4 * i.toNat < 2 ^ 32) (count : Nat) :
    ∃ b', (swapFrom ptr count i).outcome b =
        (if count ≤ room b.size (ptr.toNat + 4 * i.toNat) 4 then .ok ()
          else .error .outOfBounds, b') ∧
      GroupsReversed (ptr.toNat + 4 * i.toNat)
        (min count (room b.size (ptr.toNat + 4 * i.toNat) 4)) b b' := by
  induction count generalizing i b with
  | zero =>
    rw [if_pos (Nat.zero_le _), Nat.zero_min]
    exact ⟨b, rfl, .zero _ b⟩
  | succ count ih =>
    rw [swapFrom_succ hstart]
    by_cases hfit : ptr.toNat + 4 * i.toNat + 4 ≤ b.size
    · -- the group fits, so the address behind it is no more than the size and has
      -- not wrapped around
      have hnext : (i + 1).toNat = i.toNat + 1 :=
        Checked.toNat_next (by simp only [UInt32.size]; omega)
      have hstart' : ptr.toNat + 4 * (i + 1).toNat = ptr.toNat + 4 * i.toNat + 4 := by omega
      obtain ⟨b', hrest, hreversed⟩ := ih (i := i + 1)
        (b := b.overwrite (ptr.toNat + 4 * i.toNat)
          (b.readFrom (ptr.toNat + 4 * i.toNat) 4).reverse) (by simpa using hsize) (by omega)
      rw [hstart', Bytes.size_overwrite] at hrest hreversed
      rw [if_pos hfit, hrest, room_of_le (by decide) hfit, Nat.succ_min_succ]
      exact ⟨b', by simp, hreversed.cons hfit⟩
    · rw [if_neg hfit, room_of_lt (by decide) (Nat.not_le.mp hfit), Nat.min_zero]
      exact ⟨b, by simp, .zero _ b⟩

/-! ## The page -/

/-- Every step keeps the page. -/
theorem perform_keeps_page (step : Step) (g : BitStats) (h : g.HasOnePage) :
    Instance.HasOnePage (step.perform.outcome g).2 := by
  cases step with
  | writeWords ptr words =>
    rw [Step.perform, Routine.outcome_bind_pure, BitStats.writeWords, Instance.outcome_onBytes,
      outcome_writeFrom h.size_lt (by simpa using ptr.toNat_lt)]
    exact h.withBytes (Bytes.size_overwrite ..)
  | popcountSum ptr len =>
    rw [Step.perform, Routine.outcome_bind, Routine.outcome_reading]
    cases BitStats.popcountSum g ptr len <;> exact h
  | bitSpan value =>
    rw [Step.perform, Routine.outcome_bind, Routine.outcome_ofExcept]
    cases BitStats.bitSpan value <;> exact h
  | swapWords ptr len =>
    obtain ⟨b', hrun, hreversed⟩ :=
      outcome_swapFrom (i := 0) h.size_lt (by simpa using ptr.toNat_lt) len.toNat
    rw [Step.perform, Routine.outcome_bind_pure, BitStats.swapWords, Instance.outcome_onBytes, hrun]
    exact h.withBytes hreversed.size_eq
  | floatSignBits x y => exact h
  | memory action => exact h.perform defaultLimit action

/-- A fresh guest is made with its page, and no run takes it away. -/
theorem exists_new : ∃ g₀, BitStats.new = .ok g₀ ∧ ∀ steps, (run g₀ steps).2.HasOnePage :=
  Instance.exists_tryNewInstalled perform_keeps_page

end BitStats

end Guest

end PagedMemory
