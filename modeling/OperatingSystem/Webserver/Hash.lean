import OperatingSystem.Webserver.Cache
import Mathlib.Tactic.Ring

namespace OperatingSystem.Webserver

/-- The bytes of a name as the digits of a number in base 33, each with its sign. -/
def digits : Name → Int
  | [] => 0
  | c :: str => c.toInt8.toInt * 33 ^ str.length + digits str

def exactHash (str : Name) : Int := 5381 * 33 ^ str.length + digits str

theorem shift_add (hash : Int32) : (hash <<< 5) + hash = hash * 33 := by
  have shifted : hash <<< 5 = hash * 32 := by
    apply Int32.toBitVec_inj.mp
    have count : (5 : Int32).toBitVec.smod 32 = 5 := by decide
    rw [Int32.toBitVec_shiftLeft, count, Int32.toBitVec_mul]
    exact BitVec.shiftLeft_eq_mul_twoPow hash.toBitVec 5
  rw [shifted]
  calc
    hash * 32 + hash = hash * 32 + hash * 1 := by rw [Int32.mul_one]
    _ = hash * (32 + 1) := (Int32.mul_add).symm
    _ = hash * 33 := rfl

theorem hash_round (hash : Int32) (c : UInt8) :
    ((hash <<< 5) + hash + c.toInt8.toInt32).toInt = (hash.toInt * 33 + c.toInt8.toInt).bmod (2 ^ 32) := by
  rw [shift_add, Int32.toInt_add, Int32.toInt_mul, Int8.toInt_toInt32, Int.bmod_add_bmod]
  rfl

theorem hash_loop (str : Name) (hash : Int32) :
    (str.foldl (fun (hash : Int32) c => ((hash <<< 5) + hash) + c.toInt8.toInt32) hash).toInt =
      (hash.toInt * 33 ^ str.length + digits str).bmod (2 ^ 32) := by
  induction str generalizing hash with
  | nil =>
      simp [digits]
  | cons c str ih =>
      rw [List.foldl_cons, ih, hash_round, digits, List.length_cons]
      rw [← Int.bmod_add_bmod, Int.bmod_mul_bmod, Int.bmod_add_bmod]
      congr 1
      ring

theorem hash_toInt (str : Name) : (hash str).toInt = (exactHash str).bmod (2 ^ 32) := hash_loop str 5381

theorem bmod_nonneg_iff (x : Int) : 0 ≤ x.bmod (2 ^ 32) ↔ x % 2 ^ 32 < 2 ^ 31 := by
  rw [Int.bmod_def]
  have : 0 ≤ x % 2 ^ 32 := Int.emod_nonneg x (by decide)
  split <;> omega

theorem hash_nonneg_iff (str : Name) : 0 ≤ (hash str).toInt ↔ exactHash str % 2 ^ 32 < 2 ^ 31 := by
  rw [hash_toInt, bmod_nonneg_iff]

theorem tmod_bucket_iff (x max : Int) (positive : 0 < max) :
    (0 ≤ x.tmod max ∧ x.tmod max < max) ↔ 0 ≤ x ∨ max ∣ x := by
  have below : x.tmod max < max := Int.tmod_lt_of_pos x positive
  constructor
  · rintro ⟨nonneg, -⟩
    by_cases sign : 0 ≤ x
    · exact .inl sign
    · right
      have opposite : (-x).tmod max = -x.tmod max := Int.neg_tmod x max
      have : 0 ≤ (-x).tmod max := Int.tmod_nonneg max (by omega)
      apply Int.dvd_of_tmod_eq_zero
      omega
  · rintro (sign | divides)
    · exact ⟨Int.tmod_nonneg max sign, below⟩
    · exact ⟨(Int.tmod_eq_zero_of_dvd divides).ge, below⟩

theorem dvd_bmod_iff (x max : Int) (negative : ¬ x % 2 ^ 32 < 2 ^ 31) :
    max ∣ x.bmod (2 ^ 32) ↔ max ∣ 2 ^ 32 - x % 2 ^ 32 := by
  have value : x.bmod (2 ^ 32) = -(2 ^ 32 - x % 2 ^ 32) := by
    rw [Int.bmod_def]
    have : ¬ x % ↑(2 ^ 32 : Nat) < (↑(2 ^ 32 : Nat) + 1) / 2 := by omega
    rw [if_neg this]
    omega
  rw [value, Int.dvd_neg]

/-- The index that `cache_insert` and `cache_lookup` compute is one of a bucket exactly if the hash
does not come out negative, or comes out as a multiple of the size. -/
theorem hashKey_bucket_iff (name : Name) (maxCacheSize : Int) (positive : 0 < maxCacheSize) :
    (0 ≤ hashKey name maxCacheSize ∧ hashKey name maxCacheSize < maxCacheSize) ↔
      exactHash name % 2 ^ 32 < 2 ^ 31 ∨ maxCacheSize ∣ 2 ^ 32 - exactHash name % 2 ^ 32 := by
  rw [hashKey, tmod_bucket_iff _ _ positive, hash_nonneg_iff]
  by_cases sign : exactHash name % 2 ^ 32 < 2 ^ 31
  · exact iff_of_true (.inl sign) (.inl sign)
  · simp only [sign, false_or]
    rw [hash_toInt, dvd_bmod_iff _ _ sign]

/-- `./b.html`. -/
def page : Name := [46, 47, 98, 46, 104, 116, 109, 108]

theorem hashKey_bucket_iff_page :
    (0 : Int) < 100 ∧
      ((0 ≤ hashKey page 100 ∧ hashKey page 100 < 100) ↔
        exactHash page % 2 ^ 32 < 2 ^ 31 ∨ (100 : Int) ∣ 2 ^ 32 - exactHash page % 2 ^ 32) :=
  ⟨by decide, hashKey_bucket_iff _ 100 (by decide)⟩

theorem hashKey_bucket_fails :
    ¬ ∀ (name : Name) (maxCacheSize : Int), 0 < maxCacheSize →
      0 ≤ hashKey name maxCacheSize ∧ hashKey name maxCacheSize < maxCacheSize := by
  intro inTable
  have nonneg := (inTable page 100 (by decide)).1
  have index : hashKey page 100 = -9 := by decide
  omega

end OperatingSystem.Webserver
