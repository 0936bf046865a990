/-
PagedMemory.Bytes.Basic — byte strings as the contents of a memory.

  - `Bytes.byteAt b i`      — the byte at an address; past the end it is
                              zero.  Size and `byteAt` are the view through
                              which every operation here is described, and
                              `ext_byteAt` says that they are all there is.
  - `Bytes.readFrom b i n`  — `n` bytes from address `i` on.
  - `Bytes.overwrite b i xs` — the bytes `xs` put at address `i` and on.
  - `Bytes.replicate n x`   — `n` copies of the byte `x`.
  - `Bytes.pad b n x`       — `n` copies of the byte `x` after the end.
  - `Bytes.truncate b n`    — at most the first `n` bytes.
  - `Bytes.fill b x`        — every byte replaced by `x`.

Each operation has one lemma on its size and one on its bytes.
-/
namespace PagedMemory

/-- The contents of a memory. -/
abbrev Bytes : Type := ByteArray

namespace Bytes

instance : DecidableEq Bytes := ByteArray.instDecidableEq

/-! ## Reading -/

/-- The byte at an address, zero past the end. -/
def byteAt (b : Bytes) (i : Nat) : UInt8 :=
  if h : i < b.size then b[i] else 0

/-- The `n` bytes from address `i` on. -/
def readFrom (b : Bytes) : (i n : Nat) → List UInt8
  | _, 0 => []
  | i, n + 1 => byteAt b i :: readFrom b (i + 1) n

/-- The `length` bytes at `offset`, if they all lie inside. -/
def window? (b : Bytes) (offset length : UInt64) : Option Bytes :=
  let stop := offset.toNat + length.toNat
  if stop ≤ b.size then some (b.extract offset.toNat stop) else none

/-! ## Writing -/

/-- The bytes with one of them replaced; an address past the end changes
nothing. -/
def put (b : Bytes) (i : Nat) (x : UInt8) : Bytes :=
  if h : i < b.size then b.set i x h else b

/-- The bytes with `xs` put at address `i` and on; what would lie past the
end is dropped. -/
def overwrite (b : Bytes) (i : Nat) : List UInt8 → Bytes
  | [] => b
  | x :: xs => overwrite (put b i x) (i + 1) xs

/-- `n` copies of one byte, made by doubling so that large stretches are
copied and not pushed byte by byte. -/
def replicate (n : Nat) (x : UInt8) : Bytes :=
  if n = 0 then ByteArray.empty
  else
    let half := replicate (n / 2) x
    if n % 2 = 0 then half ++ half else (half ++ half).push x
termination_by n

/-- The bytes followed by `n` copies of one byte. -/
def pad (b : Bytes) (n : Nat) (x : UInt8) : Bytes := b ++ replicate n x

/-- At most the first `n` bytes. -/
def truncate (b : Bytes) (n : Nat) : Bytes :=
  if b.size ≤ n then b else b.extract 0 n

/-- As many bytes as before, all of them equal to `x`. -/
def fill (b : Bytes) (x : UInt8) : Bytes := replicate b.size x

/-! ## The view -/

theorem byteAt_of_lt {b : Bytes} {i : Nat} (h : i < b.size) : byteAt b i = b[i] := dif_pos h

theorem byteAt_of_le {b : Bytes} {i : Nat} (h : b.size ≤ i) : byteAt b i = 0 :=
  dif_neg (Nat.not_lt.2 h)

/-- Two memories with the same size and the same byte at every address are
the same. -/
theorem ext_byteAt {a b : Bytes} (hsize : a.size = b.size)
    (hbyte : ∀ i, i < a.size → byteAt a i = byteAt b i) : a = b := by
  refine ByteArray.ext_getElem hsize fun i hi hi' => ?_
  rw [← byteAt_of_lt hi, ← byteAt_of_lt hi', hbyte i hi]

@[simp] theorem length_readFrom (b : Bytes) (i n : Nat) : (readFrom b i n).length = n := by
  induction n generalizing i with
  | zero => rfl
  | succ n ih => simp [readFrom, ih]

theorem getElem_readFrom (b : Bytes) (i n k : Nat) (h : k < (readFrom b i n).length) :
    (readFrom b i n)[k] = byteAt b (i + k) := by
  induction n generalizing i k with
  | zero => simp at h
  | succ n ih =>
    cases k with
    | zero => rfl
    | succ k =>
      have hk : k < (readFrom b (i + 1) n).length := by simpa [readFrom] using h
      simpa [readFrom, Nat.add_assoc, Nat.add_comm 1 k] using ih (i + 1) k hk

theorem getD_readFrom (b : Bytes) (i : Nat) {n k : Nat} (h : k < n) :
    (readFrom b i n).getD k 0 = byteAt b (i + k) := by
  have hk : k < (readFrom b i n).length := by simpa using h
  rw [List.getD_eq_getElem?_getD, List.getElem?_eq_getElem hk, Option.getD_some, getElem_readFrom]

/-- What is read depends on the bytes that are read only. -/
theorem readFrom_congr {b b' : Bytes} {i n : Nat}
    (h : ∀ k < n, byteAt b' (i + k) = byteAt b (i + k)) : readFrom b' i n = readFrom b i n := by
  apply List.ext_getElem
  · simp
  · intro k hk hk'
    rw [getElem_readFrom, getElem_readFrom]
    exact h k (by simpa using hk)

/-- The bytes from an address on, in two stretches. -/
theorem readFrom_add (b : Bytes) (i m n : Nat) :
    readFrom b i (m + n) = readFrom b i m ++ readFrom b (i + m) n := by
  induction m generalizing i with
  | zero => simp [readFrom]
  | succ m ih => simp [readFrom, Nat.succ_add, ih, Nat.add_assoc]

/-! ## Single bytes -/

@[simp] theorem size_put (b : Bytes) (i : Nat) (x : UInt8) : (put b i x).size = b.size := by
  unfold put
  split
  · rw [← ByteArray.size_data, ByteArray.data_set, Array.size_set, ByteArray.size_data]
  · rfl

theorem byteAt_put (b : Bytes) (i j : Nat) (x : UInt8) :
    byteAt (put b i x) j = if j = i ∧ j < b.size then x else byteAt b j := by
  by_cases hj : j < b.size
  · have hj' : j < (put b i x).size := by rwa [size_put]
    rw [byteAt_of_lt hj', byteAt_of_lt hj]
    by_cases hi : i < b.size
    · have hput : put b i x = b.set i x hi := dif_pos hi
      simp only [hput, ByteArray.getElem_eq_getElem_data, ByteArray.data_set, Array.getElem_set]
      by_cases hij : i = j
      · simp [hij, hj]
      · simp [hij, Ne.symm hij]
    · have hij : j ≠ i := fun h => hi (h ▸ hj)
      have hput : put b i x = b := dif_neg hi
      simp only [hput, hij, false_and, if_false]
  · have hj' : (put b i x).size ≤ j := by rw [size_put]; exact Nat.not_lt.1 hj
    rw [byteAt_of_le hj', byteAt_of_le (Nat.not_lt.1 hj)]
    simp [hj]

/-! ## Stretches of bytes -/

@[simp] theorem size_overwrite (b : Bytes) (i : Nat) (xs : List UInt8) :
    (overwrite b i xs).size = b.size := by
  induction xs generalizing b i with
  | nil => rfl
  | cons x xs ih => rw [overwrite, ih, size_put]

/-- An overwritten stretch holds the new bytes and all else is as before. -/
theorem byteAt_overwrite (b : Bytes) (i j : Nat) (xs : List UInt8)
    (hfit : i + xs.length ≤ b.size) :
    byteAt (overwrite b i xs) j =
      if i ≤ j ∧ j < i + xs.length then xs.getD (j - i) 0 else byteAt b j := by
  induction xs generalizing b i with
  | nil =>
    have : ¬(i ≤ j ∧ j < i + ([] : List UInt8).length) := by
      simp only [List.length_nil]
      omega
    rw [if_neg this, overwrite]
  | cons x xs ih =>
    simp only [List.length_cons] at hfit ⊢
    have hfit' : i + 1 + xs.length ≤ (put b i x).size := by rw [size_put]; omega
    rw [overwrite, ih (put b i x) (i + 1) hfit', byteAt_put]
    by_cases hj : j = i
    · subst hj
      rw [if_neg (by omega), if_pos ⟨rfl, by omega⟩, if_pos (by omega), Nat.sub_self]
      rfl
    · by_cases hin : i + 1 ≤ j ∧ j < i + 1 + xs.length
      · have hsub : j - i = j - (i + 1) + 1 := by omega
        rw [if_pos hin, if_pos (by omega), hsub, List.getD_cons_succ]
      · rw [if_neg hin, if_neg (fun h => hj h.1), if_neg (by omega)]

/-- Two stretches that follow each other are one stretch. -/
theorem overwrite_append (b : Bytes) (i : Nat) (xs ys : List UInt8) :
    overwrite b i (xs ++ ys) = overwrite (overwrite b i xs) (i + xs.length) ys := by
  induction xs generalizing b i with
  | nil => rfl
  | cons x xs ih =>
    rw [List.cons_append, overwrite, ih, overwrite, List.length_cons]
    congr 1
    omega

/-! ## Changing the size -/

theorem byteAt_append (a b : Bytes) (j : Nat) :
    byteAt (a ++ b) j = if j < a.size then byteAt a j else byteAt b (j - a.size) := by
  by_cases hj : j < a.size
  · have hj' : j < (a ++ b).size := by rw [ByteArray.size_append]; omega
    rw [if_pos hj, byteAt_of_lt hj', byteAt_of_lt hj, ByteArray.getElem_append_left hj]
  · rw [if_neg hj]
    by_cases hb : j - a.size < b.size
    · have hj' : j < (a ++ b).size := by rw [ByteArray.size_append]; omega
      rw [byteAt_of_lt hj', byteAt_of_lt hb, ByteArray.getElem_append_right (Nat.not_lt.1 hj)]
    · rw [byteAt_of_le (by rw [ByteArray.size_append]; omega), byteAt_of_le (Nat.not_lt.1 hb)]

theorem byteAt_push (b : Bytes) (j : Nat) (x : UInt8) :
    byteAt (ByteArray.push b x) j = if j = b.size then x else byteAt b j := by
  by_cases hj : j < b.size
  · have hj' : j < (ByteArray.push b x).size := by rw [ByteArray.size_push]; omega
    rw [byteAt_of_lt hj', byteAt_of_lt hj, if_neg (by omega)]
    exact Array.getElem_push_lt hj
  · by_cases heq : j = b.size
    · have hj' : j < (ByteArray.push b x).size := by rw [ByteArray.size_push]; omega
      subst heq
      rw [byteAt_of_lt hj', if_pos rfl]
      exact Array.getElem_push_eq
    · rw [byteAt_of_le (by rw [ByteArray.size_push]; omega), byteAt_of_le (by omega),
        if_neg heq]

@[simp] theorem size_replicate (n : Nat) (x : UInt8) : (replicate n x).size = n := by
  fun_induction replicate n x with
  | case1 => rfl
  | case2 n _ half heven ih =>
    rw [ByteArray.size_append, ih]
    omega
  | case3 n _ half hodd ih =>
    rw [ByteArray.size_push, ByteArray.size_append, ih]
    omega

theorem byteAt_replicate (n j : Nat) (x : UInt8) :
    byteAt (replicate n x) j = if j < n then x else 0 := by
  fun_induction replicate n x generalizing j with
  | case1 => exact byteAt_of_le (Nat.zero_le j)
  | case2 n _ half heven ih =>
    have hsize : half.size = n / 2 := size_replicate (n / 2) x
    rw [byteAt_append, ih, ih, hsize]
    grind
  | case3 n _ half hodd ih =>
    have hsize : half.size = n / 2 := size_replicate (n / 2) x
    rw [byteAt_push, byteAt_append, ih, ih, ByteArray.size_append, hsize]
    grind

@[simp] theorem size_pad (b : Bytes) (n : Nat) (x : UInt8) : (pad b n x).size = b.size + n := by
  rw [pad, ByteArray.size_append, size_replicate]

theorem byteAt_pad (b : Bytes) (n j : Nat) (x : UInt8) :
    byteAt (pad b n x) j = if b.size ≤ j ∧ j < b.size + n then x else byteAt b j := by
  rw [pad, byteAt_append, byteAt_replicate]
  by_cases hj : j < b.size
  · rw [if_pos hj, if_neg (by omega)]
  · rw [if_neg hj]
    by_cases hin : j < b.size + n
    · rw [if_pos (by omega), if_pos (by omega)]
    · rw [if_neg (by omega), if_neg (by omega), byteAt_of_le (Nat.not_lt.1 hj)]

@[simp] theorem size_truncate (b : Bytes) (n : Nat) :
    (truncate b n).size = min n b.size := by
  unfold truncate
  split
  · omega
  · rw [ByteArray.size_extract, Nat.sub_zero]

theorem byteAt_truncate (b : Bytes) (n j : Nat) :
    byteAt (truncate b n) j = if j < n then byteAt b j else 0 := by
  by_cases hj : j < n
  · rw [if_pos hj]
    by_cases hb : j < b.size
    · unfold truncate
      split
      · rfl
      · have hj' : j < (b.extract 0 n).size := by rw [ByteArray.size_extract]; omega
        rw [byteAt_of_lt hj', byteAt_of_lt hb]
        rw [ByteArray.getElem_extract]
        simp
    · rw [byteAt_of_le (by rw [size_truncate]; omega), byteAt_of_le (Nat.not_lt.1 hb)]
  · rw [if_neg hj, byteAt_of_le (by rw [size_truncate]; omega)]

@[simp] theorem size_fill (b : Bytes) (x : UInt8) : (fill b x).size = b.size := size_replicate ..

theorem byteAt_fill (b : Bytes) (j : Nat) (x : UInt8) :
    byteAt (fill b x) j = if j < b.size then x else 0 := byteAt_replicate ..

end Bytes

end PagedMemory
