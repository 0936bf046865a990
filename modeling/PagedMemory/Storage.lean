/-
PagedMemory.Storage — a growable byte string and the allocation behind it.

A storage holds its bytes inside an allocation that may be larger than
they are.  Only a request for a larger allocation can be refused: the
allocator grants requests up to a limit.

  - `Storage.reserve limit size s` — room for `size` bytes.  No request is
                               made when the allocation already has it;
                               otherwise exactly `size` bytes are asked for.
  - `Storage.resize n s`     — exactly `n` bytes, new ones zero.
  - `Storage.copy s`         — the same bytes in an allocation of their own,
                               which is no larger than they are.
-/
import PagedMemory.Bytes.Basic

namespace PagedMemory

/-- The largest request that the allocator grants unless it is told
otherwise. -/
def defaultLimit : Nat := 1 <<< 30

/-- Bytes and the size of the allocation that holds them. -/
structure Storage where
  bytes : Bytes
  allocation : Nat
  deriving DecidableEq

namespace Storage

/-- No bytes and no allocation. -/
def empty : Storage := ⟨ByteArray.empty, 0⟩

/-- Some bytes in an allocation of exactly their size. -/
def ofBytes (b : Bytes) : Storage := ⟨b, b.size⟩

/-- The same bytes in an allocation of exactly their size. -/
def copy (s : Storage) : Storage := ofBytes s.bytes

/-- The allocation covers the bytes. -/
def Covers (s : Storage) : Prop := s.bytes.size ≤ s.allocation

/-- Room for `size` bytes, or nothing when the request that it takes is
larger than the allocator's limit. -/
def reserve (limit size : Nat) (s : Storage) : Option Storage :=
  if size ≤ s.allocation then some s
  else if size ≤ limit then some { s with allocation := size }
  else none

/-- At most the first `n` bytes; the allocation stays. -/
def truncate (n : Nat) (s : Storage) : Storage := { s with bytes := s.bytes.truncate n }

/-- The bytes followed by others, in a larger allocation if they need it. -/
def append (xs : Bytes) (s : Storage) : Storage where
  bytes := s.bytes ++ xs
  allocation := max s.allocation (s.bytes.size + xs.size)

/-- The first `n` bytes, with zeros behind them if there are fewer; the
allocation is enlarged if it has to be. -/
def resize (n : Nat) (s : Storage) : Storage where
  bytes := (s.bytes.truncate n).pad (n - s.bytes.size) 0
  allocation := max s.allocation n

/-! ## Reserving -/

/-- A reservation fails exactly when it needs a request beyond the limit. -/
theorem reserve_eq_none_iff {limit size : Nat} {s : Storage} :
    reserve limit size s = none ↔ s.allocation < size ∧ limit < size := by
  unfold reserve
  split
  · simp; omega
  · split <;> simp <;> omega

/-- A reservation leaves the bytes alone and provides at least the room that
was asked for. -/
theorem reserve_eq_some {limit size : Nat} {s r : Storage} (h : reserve limit size s = some r) :
    r.bytes = s.bytes ∧ r.allocation = max s.allocation size := by
  unfold reserve at h
  split at h
  · cases h
    exact ⟨rfl, by omega⟩
  · split at h
    · cases h
      exact ⟨rfl, by simp only; omega⟩
    · cases h

/-! ## Resizing -/

@[simp] theorem size_resize (n : Nat) (s : Storage) : (resize n s).bytes.size = n := by
  simp only [resize, Bytes.size_pad, Bytes.size_truncate]
  omega

/-- Bytes below both sizes stay and new ones are zero. -/
theorem byteAt_resize (n i : Nat) (s : Storage) :
    (resize n s).bytes.byteAt i = if i < n then s.bytes.byteAt i else 0 := by
  simp only [resize, Bytes.byteAt_pad, Bytes.size_truncate, Bytes.byteAt_truncate]
  by_cases hi : i < n
  · by_cases hs : i < s.bytes.size
    · rw [if_neg (by omega)]
    · rw [if_pos (by omega), if_pos hi, Bytes.byteAt_of_le (Nat.not_lt.1 hs)]
  · rw [if_neg (by omega)]

end Storage

end PagedMemory
