/-
PagedMemory.Proofs.ByteOrder — a byte swap reverses the bytes of a word.

A swap exchanges the halves of a word and swaps each of them, so the proof
follows the halves: `encode_add` cuts the bytes of a number in two, and
`encode_swapped_halves` says that reversed halves in exchanged places are the
bytes in reverse order.  `toBytes_swapBytes` says it of the words of any
width, as a memory sees them, and so a second swap undoes the first
(`swapBytes_swapBytes`).
-/
import PagedMemory.Proofs.WordTheorems
import PagedMemory.Word.ByteOrder

namespace PagedMemory

namespace LittleEndian

/-- The bytes of a number are its low bytes and then the bytes of the rest. -/
theorem encode_add (m n value : Nat) :
    encode (m + n) value = encode m value ++ encode n (value / 256 ^ m) := by
  induction m generalizing value with
  | zero => simp [encode]
  | succ m ih =>
    have hsum : m + 1 + n = m + n + 1 := by omega
    simp [hsum, encode, ih, Nat.div_div_eq_div_mul, Nat.pow_succ']

/-- Only the bits that are written count. -/
theorem encode_mod (m value : Nat) : encode m (value % 256 ^ m) = encode m value := by
  induction m generalizing value with
  | zero => rfl
  | succ m ih =>
    have hlow : UInt8.ofNat (value % 256 ^ (m + 1)) = UInt8.ofNat value := by
      apply UInt8.toNat_inj.mp
      simp only [UInt8.toNat_ofNat']
      exact Nat.mod_mod_of_dvd value (Dvd.intro_left (256 ^ m) rfl)
    have hhigh : value % 256 ^ (m + 1) / 256 = value / 256 % 256 ^ m := by
      rw [Nat.pow_succ', Nat.mod_mul_right_div_self]
    simp [encode, hlow, hhigh, ih]

/-- Halves that are reversed and change places are the whole in reverse
order. -/
theorem encode_swapped_halves {m value low high : Nat} (hhigh : high < 256 ^ m)
    (hreversedLow : encode m low = (encode m (value % 256 ^ m)).reverse)
    (hreversedHigh : encode m high = (encode m (value / 256 ^ m)).reverse) :
    encode (m + m) (low * 256 ^ m + high) = (encode (m + m) value).reverse := by
  have hpos : 0 < 256 ^ m := Nat.pow_pos (by decide)
  have hdiv : (low * 256 ^ m + high) / 256 ^ m = low := by
    rw [Nat.mul_comm, Nat.mul_add_div hpos, Nat.div_eq_of_lt hhigh, Nat.add_zero]
  have hmod : (low * 256 ^ m + high) % 256 ^ m = high := by
    rw [Nat.mul_comm, Nat.mul_add_mod, Nat.mod_eq_of_lt hhigh]
  rw [encode_add, encode_add, hdiv, ← encode_mod m (low * 256 ^ m + high), hmod, hreversedLow,
    hreversedHigh, encode_mod, List.reverse_append]

end LittleEndian

/-! ## Halves of words -/

/-- A number in the high bits and one in the low bits. -/
theorem shiftLeft_or_eq {high low : Nat} (k : Nat) (hlow : low < 2 ^ k) :
    high <<< k ||| low = high * 2 ^ k + low := by
  rw [← Nat.shiftLeft_add_eq_or_of_lt hlow, Nat.shiftLeft_eq]

theorem toNat_swapBytes16 (x : UInt16) :
    (swapBytes16 x).toNat = x.toNat % 256 * 256 ^ 1 + x.toNat / 256 ^ 1 := by
  have hx := x.toNat_lt
  have hlow : ((x.toNat % 256) <<< 8) % 65536 = (x.toNat % 256) <<< 8 := by
    rw [Nat.shiftLeft_eq]
    omega
  have hhigh : x.toNat / 256 % 256 = x.toNat / 256 := by omega
  unfold swapBytes16
  simp [Nat.shiftRight_eq_div_pow, hlow, hhigh]
  exact shiftLeft_or_eq 8 (by omega)

theorem toNat_swapBytes32 (x : UInt32) :
    (swapBytes32 x).toNat =
      (swapBytes16 x.toUInt16).toNat * 256 ^ 2 + (swapBytes16 (x >>> 16).toUInt16).toNat := by
  have hlow := (swapBytes16 (x >>> 16).toUInt16).toNat_lt
  have hhigh := (swapBytes16 x.toUInt16).toNat_lt
  have hshift : ((swapBytes16 x.toUInt16).toNat <<< 16) % 4294967296 =
      (swapBytes16 x.toUInt16).toNat <<< 16 := by
    rw [Nat.shiftLeft_eq]
    omega
  unfold swapBytes32
  simp [hshift]
  exact shiftLeft_or_eq 16 (by omega)

theorem toNat_swapBytes64 (x : UInt64) :
    (swapBytes64 x).toNat =
      (swapBytes32 x.toUInt32).toNat * 256 ^ 4 + (swapBytes32 (x >>> 32).toUInt32).toNat := by
  have hlow := (swapBytes32 (x >>> 32).toUInt32).toNat_lt
  have hhigh := (swapBytes32 x.toUInt32).toNat_lt
  have hshift : ((swapBytes32 x.toUInt32).toNat <<< 32) % 18446744073709551616 =
      (swapBytes32 x.toUInt32).toNat <<< 32 := by
    rw [Nat.shiftLeft_eq]
    omega
  unfold swapBytes64
  simp [hshift]
  exact shiftLeft_or_eq 32 (by omega)

/-! ## Words in memory -/

namespace Width

theorem toBytes_swapBytes16 (x : UInt16) :
    toBytes .w16 (swapBytes16 x) = (toBytes .w16 x).reverse := by
  show LittleEndian.encode (1 + 1) (swapBytes16 x).toNat = _
  rw [toNat_swapBytes16]
  refine LittleEndian.encode_swapped_halves ?_ rfl rfl
  have hx := x.toNat_lt
  omega

/-- The bytes of a swapped word stand in reverse order in memory. -/
theorem toBytes_swapBytes32 (x : UInt32) :
    toBytes .w32 (swapBytes32 x) = (toBytes .w32 x).reverse := by
  have hlow : value .w32 x % 256 ^ 2 = x.toUInt16.toNat := by simp [value]
  have hhigh : value .w32 x / 256 ^ 2 = (x >>> 16).toUInt16.toNat := by
    have hx := x.toNat_lt
    simp [value, Nat.shiftRight_eq_div_pow]
    omega
  show LittleEndian.encode (2 + 2) (swapBytes32 x).toNat = _
  rw [toNat_swapBytes32]
  refine LittleEndian.encode_swapped_halves (UInt16.toNat_lt _) ?_ ?_
  · rw [hlow]
    exact toBytes_swapBytes16 _
  · rw [hhigh]
    exact toBytes_swapBytes16 _

theorem toBytes_swapBytes64 (x : UInt64) :
    toBytes .w64 (swapBytes64 x) = (toBytes .w64 x).reverse := by
  have hlow : value .w64 x % 256 ^ 4 = x.toUInt32.toNat := by simp [value]
  have hhigh : value .w64 x / 256 ^ 4 = (x >>> 32).toUInt32.toNat := by
    have hx := x.toNat_lt
    simp [value, Nat.shiftRight_eq_div_pow]
    omega
  show LittleEndian.encode (4 + 4) (swapBytes64 x).toNat = _
  rw [toNat_swapBytes64]
  refine LittleEndian.encode_swapped_halves (UInt32.toNat_lt _) ?_ ?_
  · rw [hlow]
    exact toBytes_swapBytes32 _
  · rw [hhigh]
    exact toBytes_swapBytes32 _

theorem toBytes_swapBytes (w : Width) (v : Word w) :
    w.toBytes (w.swapBytes v) = (w.toBytes v).reverse := by
  cases w with
  | w16 => exact toBytes_swapBytes16 v
  | w32 => exact toBytes_swapBytes32 v
  | w64 => exact toBytes_swapBytes64 v

/-- A swap is its own inverse: a word is known by its bytes, and these are
reversed twice. -/
theorem swapBytes_swapBytes (w : Width) (v : Word w) : w.swapBytes (w.swapBytes v) = v := by
  calc w.swapBytes (w.swapBytes v)
      = w.word (LittleEndian.decode (w.toBytes (w.swapBytes (w.swapBytes v)))) :=
        (w.word_decode_toBytes _).symm
    _ = w.word (LittleEndian.decode (w.toBytes v)) := by
        rw [toBytes_swapBytes, toBytes_swapBytes, List.reverse_reverse]
    _ = v := w.word_decode_toBytes v

end Width

end PagedMemory
