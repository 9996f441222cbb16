import Mathlib.Data.Nat.Count
import OperatingSystem.Library.Result

namespace OperatingSystem.Fs

def BITS_PER_WORD : Nat := 8
def WORD_ALLBITS : UInt8 := 0xff

/-- How a run of the program can end outside its own error returns.

* `assertion`: an `assert` failed.
* `exit`: an `EXIT` on a failed seek.
* `outOfTable`: an index block was read past its 2048 entries.
* `overrun`: a copy ran past the end of a buffer.
* `uninitialised`: the program looked at memory that nothing was stored to.
* `useAfterFree`: an inode was used that is no longer in memory.
* `nullDereference`: a pointer that is `NULL` was followed.
* `overflow`: a length does not fit its type.
* `endless`: a loop over a directory took more turns than there are offsets in an `off_t`.
* `deep`: a recursion followed more directories than there are inodes. -/
inductive Fault
  | assertion | exit | outOfTable | overrun | uninitialised | useAfterFree | nullDereference | overflow | endless | deep
  deriving DecidableEq, Repr

def assert (condition : Prop) [Decidable condition] : Except Fault Unit :=
  if condition then .ok () else .error .assertion

@[simp] theorem assert_eq_ok {condition : Prop} [Decidable condition] {u : Unit} :
    assert condition = .ok u ↔ condition := by
  unfold assert
  split_ifs with h <;> simp [h]

@[simp] theorem assert_bind_eq_ok {α : Type} {condition : Prop} [Decidable condition]
    {f : Unit → Except Fault α} {a : α} :
    (assert condition >>= f) = .ok a ↔ condition ∧ f () = .ok a := by
  unfold assert
  split_ifs with h <;> simp [h]

structure Bitmap where
  nbits : Nat
  v : Nat → UInt8

namespace Bitmap

def mask (offset : Nat) : UInt8 := 1 <<< UInt8.ofNat offset

def clearOffset (word : UInt8) : Nat → Nat → Option Nat
  | 0, _ => none
  | fuel + 1, offset =>
      if word &&& mask offset = 0 then some offset else clearOffset word fuel (offset + 1)

def clearBit (b : Bitmap) : Nat → Nat → Except Fault (Option Nat)
  | 0, _ => .ok none
  | fuel + 1, ix =>
      if b.v ix = WORD_ALLBITS then clearBit b fuel (ix + 1)
      else
        match clearOffset (b.v ix) BITS_PER_WORD 0 with
        | none => .error .assertion
        | some offset => .ok (some (ix * BITS_PER_WORD + offset))

def words (b : Bitmap) : Nat := (b.nbits + BITS_PER_WORD - 1) / BITS_PER_WORD

def setWord (b : Bitmap) (ix : Nat) (word : UInt8) : Bitmap :=
  { b with v := Function.update b.v ix word }

/-- `b->v[ix] |= mask`. -/
def orMask (b : Bitmap) (index : Nat) : Bitmap :=
  b.setWord (index / BITS_PER_WORD) (b.v (index / BITS_PER_WORD) ||| mask (index % BITS_PER_WORD))

/-- `b->v[ix] &= ~mask`. -/
def andNotMask (b : Bitmap) (index : Nat) : Bitmap :=
  b.setWord (index / BITS_PER_WORD) (b.v (index / BITS_PER_WORD) &&& ~~~ mask (index % BITS_PER_WORD))

/-- `none` stands for `-ENOSPC`. -/
def bitmap_alloc (b : Bitmap) : Except Fault (Option (Nat × Bitmap)) := do
  match ← b.clearBit b.words 0 with
  | none => return none
  | some index =>
      assert (index < b.nbits)
      return some (index, b.orMask index)

def bitmap_isset (b : Bitmap) (index : Nat) : Bool :=
  b.v (index / BITS_PER_WORD) &&& mask (index % BITS_PER_WORD) ≠ 0

def bitmap_unmark (b : Bitmap) (index : Nat) : Except Fault Bitmap := do
  assert (index < b.nbits)
  assert (b.bitmap_isset index = true)
  return b.andNotMask index

def bitmap_nr_allocated (b : Bitmap) : Nat := Nat.count (b.bitmap_isset ·) b.nbits

variable {b : Bitmap} {index i : Nat}

theorem mask_toBitVec {offset : Nat} (h : offset < 8) : (mask offset).toBitVec = BitVec.twoPow 8 offset := by
  have all : ∀ k : Fin 8, (mask k).toBitVec = BitVec.twoPow 8 k := by decide
  exact all ⟨offset, h⟩

theorem and_mask_eq_zero (word : UInt8) {offset : Nat} (h : offset < 8) :
    word &&& mask offset = 0 ↔ word.toBitVec.getLsbD offset = false := by
  rw [← UInt8.toBitVec_inj, UInt8.toBitVec_and, mask_toBitVec h, BitVec.and_twoPow]
  have nonzero : BitVec.twoPow 8 offset ≠ 0#8 := by
    intro zero
    have := congrArg (BitVec.getLsbD · offset) zero
    simp [h] at this
  cases word.toBitVec.getLsbD offset <;> simp [nonzero]

theorem bitmap_isset_eq (b : Bitmap) (index : Nat) :
    b.bitmap_isset index = (b.v (index / 8)).toBitVec.getLsbD (index % 8) := by
  have := and_mask_eq_zero (b.v (index / 8)) (Nat.mod_lt index (show 0 < 8 by decide))
  rw [Bool.eq_iff_iff, bitmap_isset, decide_eq_true_iff, Ne]
  change ¬ (b.v (index / 8) &&& mask (index % 8) = 0) ↔ _
  rw [this]
  simp

theorem exists_clear {word : UInt8} (h : word ≠ WORD_ALLBITS) :
    ∃ k, k < 8 ∧ word.toBitVec.getLsbD k = false := by
  by_contra full
  push Not at full
  apply h
  apply UInt8.toBitVec_inj.mp
  apply BitVec.eq_of_getLsbD_eq
  intro k hk
  have ones : ∀ k : Fin 8, WORD_ALLBITS.toBitVec.getLsbD k = true := by decide
  rw [ones ⟨k, hk⟩]
  simpa using full k hk

theorem allbits_getLsbD {k : Nat} (h : k < 8) : WORD_ALLBITS.toBitVec.getLsbD k = true := by
  have ones : ∀ k : Fin 8, WORD_ALLBITS.toBitVec.getLsbD k = true := by decide
  exact ones ⟨k, h⟩

theorem clearOffset_spec {word : UInt8} {fuel offset : Nat} (h : offset + fuel = 8) :
    (∀ k, clearOffset word fuel offset = some k → offset ≤ k ∧ k < 8 ∧
      word.toBitVec.getLsbD k = false ∧ ∀ j, offset ≤ j → j < k → word.toBitVec.getLsbD j = true) ∧
    (clearOffset word fuel offset = none → ∀ j, offset ≤ j → j < 8 → word.toBitVec.getLsbD j = true) := by
  induction fuel generalizing offset with
  | zero => exact ⟨by simp [clearOffset], fun _ j low high => by omega⟩
  | succ fuel ih =>
      unfold clearOffset
      have inside : offset < 8 := by omega
      simp only [and_mask_eq_zero word inside]
      split_ifs with clear
      · refine ⟨fun k hk => ?_, by simp⟩
        obtain rfl := Option.some.inj hk
        exact ⟨Nat.le_refl _, inside, clear, fun j low high => by omega⟩
      · obtain ⟨found, full⟩ := @ih (offset + 1) (by omega)
        have set : word.toBitVec.getLsbD offset = true := by simpa using clear
        refine ⟨fun k hk => ?_, fun none j low high => ?_⟩
        · obtain ⟨above, below, isClear, before⟩ := found k hk
          refine ⟨by omega, below, isClear, fun j low high => ?_⟩
          rcases Nat.eq_or_lt_of_le low with rfl | low
          · exact set
          · exact before j low high
        · rcases Nat.eq_or_lt_of_le low with rfl | low
          · exact set
          · exact full none j low high

theorem isset_of_full {ix : Nat} (full : b.v ix = WORD_ALLBITS) (h : index / 8 = ix) :
    b.bitmap_isset index = true := by
  rw [bitmap_isset_eq, h, full]
  exact allbits_getLsbD (Nat.mod_lt _ (by decide))

theorem clearBit_spec {fuel ix : Nat} (before : ∀ j, j < ix * 8 → b.bitmap_isset j = true) :
    (∃ k, b.clearBit fuel ix = .ok (some k) ∧ k < (ix + fuel) * 8 ∧ b.bitmap_isset k = false ∧
      ∀ j, j < k → b.bitmap_isset j = true) ∨
    (b.clearBit fuel ix = .ok none ∧ ∀ j, j < (ix + fuel) * 8 → b.bitmap_isset j = true) := by
  induction fuel generalizing ix with
  | zero => exact Or.inr ⟨rfl, before⟩
  | succ fuel ih =>
      unfold clearBit
      split_ifs with full
      · have next : ∀ j, j < (ix + 1) * 8 → b.bitmap_isset j = true := by
          intro j hj
          by_cases low : j < ix * 8
          · exact before j low
          · exact isset_of_full full (by omega)
        have := @ih (ix + 1) next
        rwa [show ix + 1 + fuel = ix + (fuel + 1) by omega] at this
      · obtain ⟨k, below, isClear⟩ := exists_clear full
        obtain ⟨found, none⟩ := @clearOffset_spec (b.v ix) 8 0 rfl
        cases scan : clearOffset (b.v ix) 8 0 with
        | none => simp [none scan k (by omega) below] at isClear
        | some offset =>
            obtain ⟨-, inside, clear, earlier⟩ := found offset scan
            refine Or.inl ⟨ix * 8 + offset, ?_, by omega, ?_, fun j hj => ?_⟩
            · simp only [BITS_PER_WORD, scan]
            · rw [bitmap_isset_eq, show (ix * 8 + offset) / 8 = ix by omega,
                show (ix * 8 + offset) % 8 = offset by omega, clear]
            · by_cases low : j < ix * 8
              · exact before j low
              · rw [bitmap_isset_eq, show j / 8 = ix by omega]
                exact earlier (j % 8) (by omega) (by omega)

@[simp] theorem isset_orMask (b : Bitmap) (index i : Nat) :
    (b.orMask index).bitmap_isset i = (b.bitmap_isset i || decide (i = index)) := by
  have inside : index % 8 < 8 := Nat.mod_lt _ (by decide)
  rw [bitmap_isset_eq, bitmap_isset_eq, orMask, setWord, BITS_PER_WORD]
  by_cases word : i / 8 = index / 8
  · have same : (index % 8 = i % 8) ↔ i = index := by omega
    simp [word, mask_toBitVec inside, same, inside]
  · have other : i ≠ index := by
      rintro rfl
      exact word rfl
    simp [word, other]

@[simp] theorem isset_andNotMask (b : Bitmap) (index i : Nat) :
    (b.andNotMask index).bitmap_isset i = (b.bitmap_isset i && !decide (i = index)) := by
  have inside : index % 8 < 8 := Nat.mod_lt _ (by decide)
  have inside' : i % 8 < 8 := Nat.mod_lt _ (by decide)
  rw [bitmap_isset_eq, bitmap_isset_eq, andNotMask, setWord, BITS_PER_WORD]
  by_cases word : i / 8 = index / 8
  · have same : (i % 8 = index % 8) ↔ i = index := by omega
    simp [word, mask_toBitVec inside, same, inside']
  · have other : i ≠ index := by
      rintro rfl
      exact word rfl
    simp [word, other]

@[simp] theorem nbits_orMask (b : Bitmap) (index : Nat) : (b.orMask index).nbits = b.nbits := rfl

@[simp] theorem nbits_andNotMask (b : Bitmap) (index : Nat) : (b.andNotMask index).nbits = b.nbits := rfl

/-- The bits behind `nbits` that fill the last word are set. -/
def Padded (b : Bitmap) : Prop := ∀ i, b.nbits ≤ i → i < b.words * 8 → b.bitmap_isset i = true

theorem padded_of_whole (whole : b.nbits % 8 = 0) : b.Padded := by
  intro i past inside
  rw [words, BITS_PER_WORD] at inside
  omega

/-- The allocator of a padded bitmap takes the least clear bit, and fails when there is none. -/
theorem bitmap_alloc_spec (padded : b.Padded) :
    (∃ k, k < b.nbits ∧ b.bitmap_isset k = false ∧ (∀ j, j < k → b.bitmap_isset j = true) ∧
      b.bitmap_alloc = .ok (some (k, b.orMask k))) ∨
    ((∀ j, j < b.nbits → b.bitmap_isset j = true) ∧ b.bitmap_alloc = .ok none) := by
  have covered : b.nbits ≤ (0 + b.words) * 8 := by
    rw [words, BITS_PER_WORD]
    omega
  rcases @clearBit_spec b b.words 0 (by simp) with
    ⟨k, found, below, clear, before⟩ | ⟨found, full⟩
  · have inside : k < b.nbits := by
      by_contra past
      rw [Nat.zero_add] at below
      simp [padded k (by omega) below] at clear
    refine Or.inl ⟨k, inside, clear, before, ?_⟩
    simp [bitmap_alloc, found, assert, inside]
  · exact Or.inr ⟨fun j low => full j (by omega), by simp [bitmap_alloc, found]⟩

theorem bitmap_unmark_eq_ok {b' : Bitmap} : b.bitmap_unmark index = .ok b' ↔
    index < b.nbits ∧ b.bitmap_isset index = true ∧ b' = b.andNotMask index := by
  simp only [bitmap_unmark, assert_bind_eq_ok, Result.pure_eq_ok, Except.ok.injEq,
    eq_comm (a := b')]

theorem nr_allocated_orMask (inside : index < b.nbits) (clear : b.bitmap_isset index = false) :
    (b.orMask index).bitmap_nr_allocated = b.bitmap_nr_allocated + 1 := by
  simp only [bitmap_nr_allocated, Nat.count_eq_card_filter_range, nbits_orMask, isset_orMask]
  have grown : (Finset.range b.nbits).filter (fun i => (b.bitmap_isset i || decide (i = index)) = true) =
      insert index ((Finset.range b.nbits).filter fun i => b.bitmap_isset i = true) := by
    ext i
    simp only [Finset.mem_filter, Finset.mem_range, Bool.or_eq_true, decide_eq_true_eq,
      Finset.mem_insert]
    constructor
    · rintro ⟨h, h' | rfl⟩
      · exact Or.inr ⟨h, h'⟩
      · exact Or.inl rfl
    · rintro (rfl | ⟨h, h'⟩)
      · exact ⟨inside, Or.inr rfl⟩
      · exact ⟨h, Or.inl h'⟩
  rw [grown, Finset.card_insert_of_notMem]
  simp [clear]

theorem nr_allocated_andNotMask (inside : index < b.nbits) (set : b.bitmap_isset index = true) :
    (b.andNotMask index).bitmap_nr_allocated + 1 = b.bitmap_nr_allocated := by
  have restored : ((b.andNotMask index).orMask index).bitmap_nr_allocated = b.bitmap_nr_allocated := by
    simp only [bitmap_nr_allocated, nbits_orMask, nbits_andNotMask, isset_orMask, isset_andNotMask]
    congr 1
    funext i
    by_cases h : i = index <;> simp [h, set]
  rw [← restored, nr_allocated_orMask]
  · exact inside
  · simp

theorem nr_allocated_le (b : Bitmap) : b.bitmap_nr_allocated ≤ b.nbits := Nat.count_le _

theorem nr_allocated_lt (inside : index < b.nbits) (clear : b.bitmap_isset index = false) :
    b.bitmap_nr_allocated < b.nbits := by
  have := nr_allocated_orMask inside clear
  have := (b.orMask index).nr_allocated_le
  simp only [nbits_orMask] at this
  omega

theorem nr_allocated_full (full : ∀ j, j < b.nbits → b.bitmap_isset j = true) :
    b.bitmap_nr_allocated = b.nbits := by
  rw [bitmap_nr_allocated, Nat.count_iff_forall]
  exact fun j hj => full j hj

end Bitmap

end OperatingSystem.Fs
