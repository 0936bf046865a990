/-
PagedMemory.Guest.PlainSortSum — filling, sorting and summing an array of
signed numbers, with no memory behind it.

It computes what the guest of `PagedMemory.Guest.SortSum` computes in its
buffer.  Indices are checked 64-bit words and must lie inside the array, so
an answer also says that no index went wrong.
-/
import PagedMemory.Guest.SortSum

namespace PagedMemory

namespace Guest

namespace PlainSortSum

/-- The `count` values of the generator that follow `x`. -/
def generated : (count : Nat) → (x : UInt32) → List Int32
  | 0, _ => []
  | count + 1, x =>
    (SortSum.nextRandom x).toInt32 :: generated count (SortSum.nextRandom x)

/-- Element `j` and the one behind it exchanged if they are out of order. -/
def exchange (j : UInt64) (xs : Array Int32) : Except Fault (Array Int32) := do
  let next ← Checked.add j 1
  if h : j.toNat < xs.size ∧ next.toNat < xs.size then
    return if xs[next.toNat] < xs[j.toNat] then xs.swap j.toNat next.toNat else xs
  else throw .outOfBounds

/-- `count` exchanges of neighbours from element `j` on. -/
def sweep : (count : Nat) → (j : UInt64) → Array Int32 → Except Fault (Array Int32)
  | 0, _, xs => .ok xs
  | count + 1, j, xs => do
    let exchanged ← exchange j xs
    let next ← Checked.add j 1
    sweep count next exchanged

/-- `rounds` sweeps from round `i` on, each of `n - 1 - i` exchanges. -/
def sweeps (n : UInt64) :
    (rounds : Nat) → (i : UInt64) → Array Int32 → Except Fault (Array Int32)
  | 0, _, xs => .ok xs
  | rounds + 1, i, xs => do
    let last ← Checked.sub n 1
    let count ← Checked.sub last i
    let swept ← sweep count.toNat 0 xs
    let next ← Checked.add i 1
    sweeps n rounds next swept

/-- The first `n` values, or as many as the buffer has slots, in order. -/
def sorted (n seed : UInt32) : Except Fault (Array Int32) :=
  let count := min n SortSum.slots
  sweeps count.toUInt64 count.toNat 0 (generated count.toNat seed).toArray

/-- The sum of those values modulo `2 ^ 32`. -/
def sortSum (n seed : UInt32) : Except Fault UInt32 := do
  let xs ← sorted n seed
  return xs.foldl (fun sum x => sum + x.toUInt32) 0

end PlainSortSum

end Guest

end PagedMemory
