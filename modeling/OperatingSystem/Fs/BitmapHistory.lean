import Mathlib.Algebra.Group.Int.Defs
import OperatingSystem.Library.Run
import OperatingSystem.Fs.Bitmap

namespace OperatingSystem.Fs.Bitmap
open Transition

def DIVROUNDUP (a b : UInt32) : UInt32 := (a + b - 1) / b

def markLeftover (b : Bitmap) (ix : Nat) : Nat → Nat → Bitmap
  | 0, _ => b
  | fuel + 1, j => markLeftover (b.setWord ix (b.v ix ||| mask j)) ix fuel (j + 1)

/-- `room` and `wordsRoom` say whether the two calls of `malloc` succeed; `none` stands for `-ENOMEM`. -/
def bitmap_create (room wordsRoom : Bool) (nbits : UInt32) : Except Fault (Option Bitmap) := do
  let words := DIVROUNDUP nbits 8
  if !room then return none
  if !wordsRoom then return none
  let b : Bitmap := { nbits := nbits.toNat, v := fun _ => 0 }
  if nbits / 8 < words then
    let ix := words - 1
    let overbits := nbits - ix * 8
    assert (nbits / 8 = words - 1)
    assert (overbits > 0 ∧ overbits < 8)
    return some (b.markLeftover ix.toNat (BITS_PER_WORD - overbits.toNat) overbits.toNat)
  else return some b

def bitmap_mark (b : Bitmap) (index : Nat) : Except Fault Bitmap := do
  assert (index < b.nbits)
  assert (b.bitmap_isset index = false)
  return b.orMask index

def countSet (b : Bitmap) : Nat → Nat → Int32 → Int32
  | 0, _, nr => nr
  | fuel + 1, i, nr => countSet b fuel (i + 1) (if b.bitmap_isset i then nr + 1 else nr)

inductive Call
  | alloc
  | mark (index : Nat)
  | unmark (index : Nat)
  deriving DecidableEq, Repr

def call (b : Bitmap) : Call → Except Fault (Bitmap × Option Nat)
  | .alloc => do
      match ← b.bitmap_alloc with
      | none => return (b, none)
      | some (index, b) => return (b, some index)
  | .mark index => do return (← b.bitmap_mark index, none)
  | .unmark index => do return (← b.bitmap_unmark index, none)

/-- The calls the assertions of `bitmap.c` admit. -/
def Legal (b : Bitmap) : Call → Prop
  | .alloc => True
  | .mark index => index < b.nbits ∧ b.bitmap_isset index = false
  | .unmark index => index < b.nbits ∧ b.bitmap_isset index = true

abbrev Label := Call × Option Nat

def isAlloc (label : Label) : Bool := decide (label.1 = .alloc) && label.2.isSome

def isMark : Label → Bool
  | (.mark _, _) => true
  | _ => false

def isUnmark : Label → Bool
  | (.unmark _, _) => true
  | _ => false

def allocs (labels : List Label) : Nat := labels.countP isAlloc
def marks (labels : List Label) : Nat := labels.countP isMark
def unmarks (labels : List Label) : Nat := labels.countP isUnmark

variable {b b' b₀ : Bitmap} {index i j ix fuel : Nat} {nbits : UInt32} {labels : List Label} {label : Label}

theorem DIVROUNDUP_toNat (small : nbits.toNat < 2 ^ 31) : (DIVROUNDUP nbits 8).toNat = (nbits.toNat + 7) / 8 := by
  have sum : (nbits + 8 - 1).toNat = nbits.toNat + 7 := by
    simp only [UInt32.toNat_sub, UInt32.toNat_add, UInt32.reduceToNat]
    omega
  rw [DIVROUNDUP, UInt32.toNat_div, sum]
  rfl

theorem setWord_mask (b : Bitmap) (ix : Nat) (inside : j < 8) :
    b.setWord ix (b.v ix ||| mask j) = b.orMask (ix * 8 + j) := by
  simp only [orMask, BITS_PER_WORD, show (ix * 8 + j) / 8 = ix by omega, show (ix * 8 + j) % 8 = j by omega]

@[simp] theorem nbits_markLeftover : (b.markLeftover ix fuel j).nbits = b.nbits := by
  induction fuel generalizing b j with
  | zero => rfl
  | succ fuel ih => exact ih

theorem words_congr (same : b'.nbits = b.nbits) : b'.words = b.words := by
  rw [words, words, same]

@[simp] theorem words_markLeftover : (b.markLeftover ix fuel j).words = b.words :=
  words_congr nbits_markLeftover

theorem isset_markLeftover (whole : j + fuel = 8) :
    (b.markLeftover ix fuel j).bitmap_isset i = (b.bitmap_isset i || decide (ix * 8 + j ≤ i ∧ i < (ix + 1) * 8)) := by
  induction fuel generalizing b j with
  | zero =>
      have : ¬ (ix * 8 + j ≤ i ∧ i < (ix + 1) * 8) := by omega
      simp [markLeftover, this]
  | succ fuel ih =>
      rw [markLeftover, ih (by omega), setWord_mask b ix (by omega), isset_orMask, Bool.or_assoc,
        ← Bool.decide_or]
      congr 1
      rw [decide_eq_decide]
      omega

theorem bitmap_mark_eq_ok : b.bitmap_mark index = .ok b' ↔
    index < b.nbits ∧ b.bitmap_isset index = false ∧ b' = b.orMask index := by
  simp only [bitmap_mark, assert_bind_eq_ok, Result.pure_eq_ok, Except.ok.injEq, eq_comm (a := b')]

theorem bitmap_create_spec (small : nbits.toNat < 2 ^ 31) :
    ∃ b₀, bitmap_create true true nbits = .ok (some b₀) ∧ b₀.nbits = nbits.toNat ∧
      ∀ i, b₀.bitmap_isset i = decide (nbits.toNat ≤ i ∧ i < b₀.words * 8) := by
  have eight : (8 : UInt32).toNat = 8 := rfl
  have words := DIVROUNDUP_toNat small
  have whole : (nbits / 8).toNat = nbits.toNat / 8 := by rw [UInt32.toNat_div, eight]
  let fresh : Bitmap := { nbits := nbits.toNat, v := fun _ => 0 }
  have clear : ∀ i, fresh.bitmap_isset i = false := by
    intro i
    simp [fresh, bitmap_isset_eq]
  have size : fresh.words = (nbits.toNat + 7) / 8 := rfl
  by_cases leftover : nbits / 8 < DIVROUNDUP nbits 8
  · have room : nbits.toNat / 8 < (nbits.toNat + 7) / 8 := by
      rwa [UInt32.lt_iff_toNat_lt, whole, words] at leftover
    have ix : (DIVROUNDUP nbits 8 - 1).toNat = nbits.toNat / 8 := by
      simp only [UInt32.toNat_sub, words, UInt32.reduceToNat]
      omega
    have overbits : (nbits - (DIVROUNDUP nbits 8 - 1) * 8).toNat = nbits.toNat % 8 := by
      simp only [UInt32.toNat_sub, UInt32.toNat_mul, ix, UInt32.reduceToNat]
      omega
    have same : nbits / 8 = DIVROUNDUP nbits 8 - 1 := UInt32.toNat_inj.mp (whole.trans ix.symm)
    have partly : nbits - (DIVROUNDUP nbits 8 - 1) * 8 > 0 ∧ nbits - (DIVROUNDUP nbits 8 - 1) * 8 < 8 := by
      rw [gt_iff_lt, UInt32.lt_iff_toNat_lt, UInt32.lt_iff_toNat_lt, overbits, eight, UInt32.toNat_zero]
      omega
    have made : bitmap_create true true nbits =
        .ok (some (fresh.markLeftover (nbits.toNat / 8) (8 - nbits.toNat % 8) (nbits.toNat % 8))) := by
      simp only [bitmap_create, Bool.not_true, Bool.false_eq_true, if_false, if_pos leftover, assert,
        if_pos same, if_pos partly, ix, overbits, Result.ok_bind, Result.pure_eq_ok]
      rfl
    refine ⟨_, made, nbits_markLeftover, fun i => ?_⟩
    rw [isset_markLeftover (by omega), clear, Bool.false_or, decide_eq_decide, words_markLeftover, size]
    omega
  · have full : ¬ nbits.toNat / 8 < (nbits.toNat + 7) / 8 := by
      rwa [UInt32.lt_iff_toNat_lt, whole, words] at leftover
    have made : bitmap_create true true nbits = .ok (some fresh) := by
      simp only [bitmap_create, Bool.not_true, Bool.false_eq_true, if_false, if_neg leftover,
        Result.pure_eq_ok]
      rfl
    refine ⟨fresh, made, rfl, fun i => ?_⟩
    have none : ¬ (nbits.toNat ≤ i ∧ i < fresh.words * 8) := by
      rw [size]
      omega
    rw [clear, decide_eq_false none]

theorem padded_orMask (padded : b.Padded) : (b.orMask index).Padded := by
  intro i past inside
  rw [isset_orMask, padded i past inside, Bool.true_or]

theorem padded_andNotMask (padded : b.Padded) (inside : index < b.nbits) : (b.andNotMask index).Padded := by
  intro i past low
  have other : i ≠ index := fun same => by
    rw [nbits_andNotMask] at past
    omega
  rw [isset_andNotMask, padded i past low, decide_eq_false other, Bool.not_false, Bool.and_true]

theorem call_cases (padded : b.Padded) {c : Call} {r : Bitmap × Option Nat} (run : b.call c = .ok r) :
    (∃ k, c = .alloc ∧ k < b.nbits ∧ b.bitmap_isset k = false ∧ r = (b.orMask k, some k)) ∨
    (c = .alloc ∧ r = (b, none)) ∨
    (∃ k, c = .mark k ∧ k < b.nbits ∧ b.bitmap_isset k = false ∧ r = (b.orMask k, none)) ∨
    (∃ k, c = .unmark k ∧ k < b.nbits ∧ b.bitmap_isset k = true ∧ r = (b.andNotMask k, none)) := by
  cases c with
  | alloc =>
      rcases bitmap_alloc_spec padded with ⟨k, inside, clear, -, alloc⟩ | ⟨-, alloc⟩
      · rw [call, alloc] at run
        exact .inl ⟨k, rfl, inside, clear, (Except.ok.inj run).symm⟩
      · rw [call, alloc] at run
        exact .inr (.inl ⟨rfl, (Except.ok.inj run).symm⟩)
  | mark index =>
      simp only [call, Result.bind_eq_ok, bitmap_mark_eq_ok, Result.pure_eq_ok, Except.ok.injEq] at run
      obtain ⟨_, ⟨inside, clear, rfl⟩, rfl⟩ := run
      exact .inr (.inr (.inl ⟨index, rfl, inside, clear, rfl⟩))
  | unmark index =>
      simp only [call, Result.bind_eq_ok, bitmap_unmark_eq_ok, Result.pure_eq_ok, Except.ok.injEq] at run
      obtain ⟨_, ⟨inside, set, rfl⟩, rfl⟩ := run
      exact .inr (.inr (.inr ⟨index, rfl, inside, set, rfl⟩))

theorem call_returns_iff (padded : b.Padded) {c : Call} : (∃ r, b.call c = .ok r) ↔ b.Legal c := by
  cases c with
  | alloc =>
      refine iff_of_true ?_ trivial
      rcases bitmap_alloc_spec padded with ⟨k, -, -, -, alloc⟩ | ⟨-, alloc⟩
      · exact ⟨_, by rw [call, alloc]; rfl⟩
      · exact ⟨_, by rw [call, alloc]; rfl⟩
  | mark index =>
      simp only [call, Legal, Result.bind_eq_ok, bitmap_mark_eq_ok]
      constructor
      · rintro ⟨_, _, ⟨inside, clear, -⟩, -⟩
        exact ⟨inside, clear⟩
      · rintro ⟨inside, clear⟩
        exact ⟨_, _, ⟨inside, clear, rfl⟩, rfl⟩
  | unmark index =>
      simp only [call, Legal, Result.bind_eq_ok, bitmap_unmark_eq_ok]
      constructor
      · rintro ⟨_, _, ⟨inside, set, -⟩, -⟩
        exact ⟨inside, set⟩
      · rintro ⟨inside, set⟩
        exact ⟨_, _, ⟨inside, set, rfl⟩, rfl⟩

structure Balanced (nbits : Nat) (labels : List Label) (b : Bitmap) : Prop where
  size : b.nbits = nbits
  padded : b.Padded
  balance : b.bitmap_nr_allocated + unmarks labels = allocs labels + marks labels

theorem Balanced.step {size : Nat} (held : Balanced size labels b) (taken : Takes call b label b') :
    Balanced size (labels ++ [label]) b' := by
  obtain ⟨c, shown⟩ := label
  have balance := held.balance
  simp only [allocs, marks, unmarks] at balance
  rcases call_cases held.padded taken with
    ⟨k, rfl, inside, clear, same⟩ | ⟨rfl, same⟩ | ⟨k, rfl, inside, clear, same⟩ | ⟨k, rfl, inside, set, same⟩
  all_goals obtain ⟨rfl, rfl⟩ := Prod.mk.inj same
  · refine ⟨held.size, padded_orMask held.padded, ?_⟩
    simp only [allocs, marks, unmarks, List.countP_append, nr_allocated_orMask inside clear,
      List.countP_singleton, isAlloc, isMark, isUnmark]
    simp
    omega
  · refine ⟨held.size, held.padded, ?_⟩
    simpa [allocs, marks, unmarks, isAlloc, isMark, isUnmark] using balance
  · refine ⟨held.size, padded_orMask held.padded, ?_⟩
    simp only [allocs, marks, unmarks, List.countP_append, nr_allocated_orMask inside clear,
      List.countP_singleton, isAlloc, isMark, isUnmark]
    simp
    omega
  · refine ⟨held.size, padded_andNotMask held.padded inside, ?_⟩
    have := nr_allocated_andNotMask inside set
    simp only [allocs, marks, unmarks, List.countP_append,
      List.countP_singleton, isAlloc, isMark, isUnmark]
    simp
    omega

theorem countSet_toInt {nr : Int32} (low : 0 ≤ nr.toInt) (small : nr.toInt + fuel < 2 ^ 31) :
    (b.countSet fuel i nr).toInt = nr.toInt + Nat.count (fun k => b.bitmap_isset (k + i)) fuel := by
  induction fuel generalizing i nr with
  | zero => simp [countSet]
  | succ fuel ih =>
      have next : (fun k => b.bitmap_isset (k + 1 + i) = true) = fun k => b.bitmap_isset (k + (i + 1)) = true := by
        funext k
        rw [Nat.add_assoc, Nat.add_comm 1 i]
      rw [countSet, Nat.count_succ', Nat.zero_add]
      simp only [next]
      have more : (nr + 1).toInt = nr.toInt + 1 := by
        rw [Int32.toInt_add, Int32.toInt_one]
        exact Int.bmod_eq_of_le (by omega) (by omega)
      by_cases set : b.bitmap_isset i = true
      · rw [if_pos set, if_pos set, ih (by omega) (by omega), more]
        omega
      · rw [if_neg set, if_neg set, ih low (by omega)]
        omega

theorem countSet_nbits (small : b.nbits < 2 ^ 31) : (b.countSet b.nbits 0 0).toInt = b.bitmap_nr_allocated := by
  rw [countSet_toInt (by decide) (by simpa using (by omega : (b.nbits : Int) < 2 ^ 31)), Int32.toInt_zero, Int.zero_add]
  rfl

theorem nr_allocated_clear (clear : ∀ i, i < b.nbits → b.bitmap_isset i = false) : b.bitmap_nr_allocated = 0 := by
  rw [bitmap_nr_allocated, Nat.count_eq_card_filter_range, Finset.card_eq_zero, Finset.filter_eq_empty_iff]
  intro i inside
  simp [clear i (Finset.mem_range.mp inside)]

theorem bitmap_create_balanced (small : nbits.toNat < 2 ^ 31) :
    ∃ b₀, bitmap_create true true nbits = .ok (some b₀) ∧ Balanced nbits.toNat [] b₀ := by
  obtain ⟨b₀, made, size, bits⟩ := bitmap_create_spec small
  refine ⟨b₀, made, size, fun i past inside => ?_, ?_⟩
  · rw [bits, decide_eq_true_iff, ← size]
    exact ⟨past, inside⟩
  · rw [nr_allocated_clear fun i inside => ?_]
    · rfl
    · rw [bits, decide_eq_false_iff_not]
      omega

theorem history_balanced {size : Nat} (initial : Balanced size [] b₀) (run : Run (Takes call) b₀ labels b) :
    Balanced size labels b :=
  run.history (Balanced size) initial fun _ _ _ _ held taken => held.step taken

def Turns (b : Bitmap) (index : Nat) (value : Bool) (b' : Bitmap) : Prop :=
  b'.nbits = b.nbits ∧ ∀ i, b'.bitmap_isset i = if i = index then value else b.bitmap_isset i

theorem turns_orMask (b : Bitmap) (index : Nat) : b.Turns index true (b.orMask index) := by
  refine ⟨rfl, fun i => ?_⟩
  by_cases same : i = index <;> simp [same]

theorem turns_andNotMask (b : Bitmap) (index : Nat) : b.Turns index false (b.andNotMask index) := by
  refine ⟨rfl, fun i => ?_⟩
  by_cases same : i = index <;> simp [same]

def Full (b : Bitmap) : Prop := ∀ j, j < b.nbits → b.bitmap_isset j = true

def LeastClear (b : Bitmap) (index : Nat) : Prop :=
  index < b.nbits ∧ b.bitmap_isset index = false ∧ ∀ j, j < index → b.bitmap_isset j = true

theorem bitmap_alloc_some (padded : b.Padded) (alloc : b.bitmap_alloc = .ok (some (index, b'))) :
    b.LeastClear index ∧ b.Turns index true b' := by
  rcases bitmap_alloc_spec padded with ⟨k, inside, clear, least, found⟩ | ⟨-, found⟩
  · obtain ⟨rfl, rfl⟩ := Prod.mk.inj (Option.some.inj (Except.ok.inj (found.symm.trans alloc)))
    exact ⟨⟨inside, clear, least⟩, turns_orMask b k⟩
  · rw [found] at alloc
    cases alloc

theorem bitmap_alloc_returns (padded : b.Padded) : ∃ r, b.bitmap_alloc = .ok r := by
  rcases bitmap_alloc_spec padded with ⟨k, -, -, -, found⟩ | ⟨-, found⟩
  · exact ⟨_, found⟩
  · exact ⟨_, found⟩

theorem bitmap_alloc_none_iff (padded : b.Padded) : b.bitmap_alloc = .ok none ↔ b.Full := by
  rcases bitmap_alloc_spec padded with ⟨k, inside, clear, -, found⟩ | ⟨full, found⟩
  · refine iff_of_false (by simp [found]) fun full => ?_
    rw [full k inside] at clear
    cases clear
  · exact iff_of_true found full

/-- Every history of calls on a new bitmap: a call returns exactly when it is legal, `bitmap_alloc`
never fails an assertion, and `bitmap_nr_allocated` keeps the balance. -/
theorem bitmap_histories (small : nbits.toNat < 2 ^ 31) :
    ∃ b₀, bitmap_create true true nbits = .ok (some b₀) ∧
      ∀ labels b, Run (Takes call) b₀ labels b →
        b.nbits = nbits.toNat ∧ b.Padded ∧
        (∀ c, (∃ r, b.call c = .ok r) ↔ b.Legal c) ∧
        (∃ r, b.bitmap_alloc = .ok r) ∧
        (∀ index b', b.bitmap_alloc = .ok (some (index, b')) → b.LeastClear index ∧ b.Turns index true b') ∧
        (b.bitmap_alloc = .ok none ↔ b.Full) ∧
        (∀ index b', b.bitmap_mark index = .ok b' → b.Turns index true b') ∧
        (∀ index b', b.bitmap_unmark index = .ok b' → b.Turns index false b') ∧
        (b.countSet b.nbits 0 0).toInt = allocs labels + marks labels - unmarks labels := by
  obtain ⟨b₀, made, initial⟩ := bitmap_create_balanced small
  refine ⟨b₀, made, fun labels b run => ?_⟩
  have held := history_balanced initial run
  have padded := held.padded
  refine ⟨held.size, padded, fun c => call_returns_iff padded, bitmap_alloc_returns padded,
    fun index b' => bitmap_alloc_some padded, bitmap_alloc_none_iff padded, fun index b' mark => ?_, fun index b' unmark => ?_, ?_⟩
  · obtain ⟨-, -, rfl⟩ := bitmap_mark_eq_ok.mp mark
    exact turns_orMask b index
  · obtain ⟨-, -, rfl⟩ := bitmap_unmark_eq_ok.mp unmark
    exact turns_andNotMask b index
  · rw [countSet_nbits (by rw [held.size]; exact small)]
    have := held.balance
    omega

theorem bitmap_histories_eleven :
    ∃ b₀, bitmap_create true true 11 = .ok (some b₀) ∧
      ∀ labels b, Run (Takes call) b₀ labels b →
        b.nbits = (11 : UInt32).toNat ∧ b.Padded ∧
        (∀ c, (∃ r, b.call c = .ok r) ↔ b.Legal c) ∧
        (∃ r, b.bitmap_alloc = .ok r) ∧
        (∀ index b', b.bitmap_alloc = .ok (some (index, b')) → b.LeastClear index ∧ b.Turns index true b') ∧
        (b.bitmap_alloc = .ok none ↔ b.Full) ∧
        (∀ index b', b.bitmap_mark index = .ok b' → b.Turns index true b') ∧
        (∀ index b', b.bitmap_unmark index = .ok b' → b.Turns index false b') ∧
        (b.countSet b.nbits 0 0).toInt = allocs labels + marks labels - unmarks labels :=
  bitmap_histories (by decide)

end OperatingSystem.Fs.Bitmap
