import Mathlib.Data.List.Basic
import Mathlib.Logic.Function.Basic
import Mathlib.Algebra.Order.Ring.Nat
import Mathlib.Tactic.Ring

namespace Bytes

abbrev Memory := Nat → UInt8

section LittleEndian

/-- The `width` bytes of a number, least significant first. -/
def ofNat : Nat → Nat → List UInt8
  | 0, _ => []
  | width + 1, n => UInt8.ofNat n :: ofNat width (n / 256)

def toNat : List UInt8 → Nat
  | [] => 0
  | byte :: bytes => byte.toNat + 256 * toNat bytes

@[simp] theorem length_ofNat (width n : Nat) : (ofNat width n).length = width := by
  induction width generalizing n with
  | zero => rfl
  | succ width ih => simp [ofNat, ih]

theorem toNat_ofNat (width n : Nat) (small : n < 256 ^ width) : toNat (ofNat width n) = n := by
  induction width generalizing n with
  | zero =>
      have : n = 0 := by simpa using small
      simp [ofNat, toNat, this]
  | succ width ih =>
      have quotient : n / 256 < 256 ^ width := by
        apply Nat.div_lt_of_lt_mul
        rw [Nat.pow_succ'] at small
        exact small
      have digit : (UInt8.ofNat n).toNat = n % 256 := by simp
      rw [ofNat, toNat, ih _ quotient, digit]
      exact Nat.mod_add_div n 256

end LittleEndian

section Slices

variable {m : Memory} {off len i : Nat} {data : List UInt8}

def slice (m : Memory) (off len : Nat) : List UInt8 := (List.range len).map fun i => m (off + i)

def splice (m : Memory) (off : Nat) (data : List UInt8) : Memory :=
  fun i => if off ≤ i then data[i - off]?.getD (m i) else m i

@[simp] theorem length_slice (m : Memory) (off len : Nat) : (slice m off len).length = len := by
  simp [slice]

theorem getElem_slice (h : i < (slice m off len).length) : (slice m off len)[i] = m (off + i) := by
  simp [slice]

theorem slice_congr {m' : Memory} (same : ∀ i, off ≤ i → i < off + len → m i = m' i) :
    slice m off len = slice m' off len := by
  apply List.map_congr_left
  intro i hi
  have := List.mem_range.mp hi
  exact same (off + i) (by omega) (by omega)

theorem slice_add (m : Memory) (off len more : Nat) :
    slice m off (len + more) = slice m off len ++ slice m (off + len) more := by
  simp [slice, List.range_add, Nat.add_assoc]

theorem take_slice (m : Memory) (off len : Nat) (n : Nat) :
    (slice m off len).take n = slice m off (min n len) := by
  simp [slice, ← List.map_take, List.take_range]

theorem splice_before (h : i < off) : splice m off data i = m i := by
  simp [splice, Nat.not_le.mpr h]

theorem splice_after (h : off + data.length ≤ i) : splice m off data i = m i := by
  have : data.length ≤ i - off := by omega
  simp [splice, List.getElem?_eq_none this]

theorem splice_inside (h : i < data.length) : splice m off data (off + i) = data[i] := by
  simp [splice, List.getElem?_eq_getElem h]

@[simp] theorem splice_nil (m : Memory) (off : Nat) : splice m off [] = m := by
  funext i
  simp [splice]

theorem splice_append (m : Memory) (off : Nat) (front back : List UInt8) :
    splice m off (front ++ back) = splice (splice m off front) (off + front.length) back := by
  funext i
  by_cases before : i < off
  · rw [splice_before before, splice_before (by omega), splice_before before]
  · by_cases inFront : i < off + front.length
    · rw [splice_before inFront]
      have : i - off < front.length := by omega
      simp [splice, Nat.not_lt.mp before, List.getElem?_append_left this]
    · have : front.length ≤ i - off := by omega
      have index : i - off - front.length = i - (off + front.length) := by omega
      simp only [splice, Nat.not_lt.mp before, Nat.not_lt.mp inFront, if_true,
        List.getElem?_append_right this, index, List.getElem?_eq_none this, Option.getD_none]

@[simp] theorem slice_splice_self (m : Memory) (off : Nat) (data : List UInt8) :
    slice (splice m off data) off data.length = data := by
  apply List.ext_getElem
  · simp
  · intro i h h'
    rw [getElem_slice, splice_inside h']

theorem slice_splice_other {off' : Nat} (apart : off' + len ≤ off ∨ off + data.length ≤ off') :
    slice (splice m off data) off' len = slice m off' len := by
  apply slice_congr
  intro i low high
  rcases apart with h | h
  · exact splice_before (by omega)
  · exact splice_after (by omega)

end Slices

section Words

def load32 (m : Memory) (addr : Nat) : UInt32 := UInt32.ofNat (toNat (slice m addr 4))

def load64 (m : Memory) (addr : Nat) : UInt64 := UInt64.ofNat (toNat (slice m addr 8))

def bytes32 (w : UInt32) : List UInt8 := ofNat 4 w.toNat

def bytes64 (w : UInt64) : List UInt8 := ofNat 8 w.toNat

def store32 (m : Memory) (addr : Nat) (w : UInt32) : Memory := splice m addr (bytes32 w)

@[simp] theorem length_bytes32 (w : UInt32) : (bytes32 w).length = 4 := length_ofNat _ _

@[simp] theorem length_bytes64 (w : UInt64) : (bytes64 w).length = 8 := length_ofNat _ _

variable {m m' : Memory} {addr addr' : Nat}

theorem load32_congr (same : ∀ i, addr ≤ i → i < addr + 4 → m i = m' i) :
    load32 m addr = load32 m' addr := by
  rw [load32, slice_congr same, load32]

theorem load32_of_slice {w : UInt32} (h : slice m addr 4 = bytes32 w) : load32 m addr = w := by
  rw [load32, h, bytes32, toNat_ofNat _ _ w.toNat_lt, UInt32.ofNat_toNat]

theorem load64_of_slice {w : UInt64} (h : slice m addr 8 = bytes64 w) : load64 m addr = w := by
  rw [load64, h, bytes64, toNat_ofNat _ _ w.toNat_lt, UInt64.ofNat_toNat]

@[simp] theorem load32_store32 (m : Memory) (addr : Nat) (w : UInt32) :
    load32 (store32 m addr w) addr = w := by
  apply load32_of_slice
  have := slice_splice_self m addr (bytes32 w)
  rwa [length_bytes32] at this

theorem load32_store32_other {w : UInt32} (apart : addr' + 4 ≤ addr ∨ addr + 4 ≤ addr') :
    load32 (store32 m addr w) addr' = load32 m addr' := by
  rw [load32, store32, slice_splice_other (by simpa using apart), load32]

@[simp] theorem load32_zero (addr : Nat) : load32 (fun _ => 0) addr = 0 := by
  simp [load32, slice, toNat, List.range_succ]

def wordBytes (words : List UInt32) : List UInt8 := words.flatMap bytes32

@[simp] theorem length_wordBytes (words : List UInt32) : (wordBytes words).length = 4 * words.length := by
  induction words with
  | nil => rfl
  | cons w words ih =>
      simp only [wordBytes, List.flatMap_cons, List.length_append, length_bytes32, List.length_cons] at ih ⊢
      omega

theorem load32_wordBytes (m : Memory) (addr : Nat) (words : List UInt32) (rest : List UInt8) (k : Nat)
    (h : k < words.length) :
    load32 (splice m addr (wordBytes words ++ rest)) (addr + 4 * k) = words[k] := by
  induction words generalizing m addr k with
  | nil => simp at h
  | cons w words ih =>
      have split : wordBytes (w :: words) ++ rest = bytes32 w ++ (wordBytes words ++ rest) := by
        simp [wordBytes]
      rw [split, splice_append, length_bytes32]
      cases k with
      | zero =>
          apply load32_of_slice
          rw [slice_splice_other (Or.inl (by omega))]
          have := slice_splice_self m addr (bytes32 w)
          rwa [length_bytes32] at this
      | succ k =>
          have := ih (splice m addr (bytes32 w)) (addr + 4) k (by simpa using h)
          rw [show addr + 4 * (k + 1) = addr + 4 + 4 * k by ring]
          simpa using this

theorem load64_wordBytes (m : Memory) (addr : Nat) (words : List UInt32) (w : UInt64) :
    load64 (splice m addr (wordBytes words ++ bytes64 w)) (addr + 4 * words.length) = w := by
  apply load64_of_slice
  rw [splice_append, length_wordBytes]
  have := slice_splice_self (splice m addr (wordBytes words)) (addr + 4 * words.length) (bytes64 w)
  rwa [length_bytes64] at this

end Words

end Bytes
