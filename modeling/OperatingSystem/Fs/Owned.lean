import OperatingSystem.Fs.Pointers

namespace OperatingSystem.Fs

open Bytes Ownership

def pointers (dev : Disk) (ds : Nat → DInode) (i : Fin NR_INODES) : Place → Int := pointer dev (ds i)

structure Owned (s : SuperBlock) (ds : Nat → DInode) : Prop where
  exact : Exact (pointers s.dev ds) s.Marked
  counts : ∀ i : Fin NR_INODES, (ds i).block_count.toInt = count (pointer s.dev (ds i))

theorem count_lt (own : Place → Int) : count own < 2 ^ 31 - 4 := by
  have card : count own ≤ Nat.card (Fin 4198412) := by
    have injected := Nat.card_le_card_of_injective Place.number Place.number_injective
    have subset := Set.ncard_le_card {k : Place | own k ≠ 0}
    exact Nat.le_trans subset injected
  rw [Nat.card_eq_fintype_card, Fintype.card_fin] at card
  omega

namespace InodePtr

/-- The dinodes of the file system when the inode `p` points to is its own. -/
def view (p : InodePtr) (ds : Nat → DInode) : Nat → DInode := Function.update ds p.inode.i_nr p.dinode

abbrev pointer (p : InodePtr) : Place → Int := Fs.pointer p.sb.dev p.dinode

def missing (p : InodePtr) (n : Nat) : List Place := (path n).filter fun k => p.pointer k = 0

end InodePtr

structure Holds (p : InodePtr) (ds : Nat → DInode) : Prop where
  accounts : Accounts p.sb
  number : p.inode.i_nr < NR_INODES
  owned : Owned p.sb (p.view ds)

namespace Holds

variable {p : InodePtr} {ds : Nat → DInode} (holds : Holds p ds)
include holds

theorem pointers_self : pointers p.sb.dev (p.view ds) ⟨p.inode.i_nr, holds.number⟩ = p.pointer := by
  simp [pointers, InodePtr.view]

omit holds in
theorem pointers_other {i : Fin NR_INODES} (other : i.val ≠ p.inode.i_nr) (dev : Disk) :
    pointers dev (p.view ds) i = Fs.pointer dev (ds i) := by
  simp [pointers, InodePtr.view, Function.update_of_ne other]

theorem marked {k : Place} (taken : p.pointer k ≠ 0) : p.sb.Marked (p.pointer k) := by
  have := holds.owned.exact.held ⟨p.inode.i_nr, holds.number⟩ k
  rw [holds.pointers_self] at this
  exact this taken

theorem range {b : Int} (inUse : p.sb.Marked b) : 146 ≤ b ∧ b < 146 + 1048576 := by
  obtain ⟨k, inside, rfl, -⟩ := (SuperBlock.marked_iff holds.accounts.layout).mp inUse
  omega

theorem nonneg (k : Place) : 0 ≤ p.pointer k := by
  by_cases taken : p.pointer k = 0
  · omega
  · have := holds.range (holds.marked taken)
    omega

theorem positive {k : Place} (taken : p.pointer k ≠ 0) : 146 ≤ p.pointer k :=
  (holds.range (holds.marked taken)).1

theorem injective {k k' : Place} (taken : p.pointer k ≠ 0) (same : p.pointer k = p.pointer k') : k = k' := by
  have := holds.owned.exact.once ⟨p.inode.i_nr, holds.number⟩ k ⟨p.inode.i_nr, holds.number⟩ k'
  rw [holds.pointers_self] at this
  exact (this taken same).2

theorem foreign {i : Fin NR_INODES} (other : i.val ≠ p.inode.i_nr) {k : Place}
    (taken : Fs.pointer p.sb.dev (ds i) k ≠ 0) :
    p.sb.Marked (Fs.pointer p.sb.dev (ds i) k) ∧ ∀ k', p.pointer k' ≠ Fs.pointer p.sb.dev (ds i) k := by
  have held := holds.owned.exact.held i k
  rw [pointers_other other] at held
  refine ⟨held taken, fun k' same => ?_⟩
  have once := holds.owned.exact.once i k ⟨p.inode.i_nr, holds.number⟩ k'
  rw [pointers_other other, holds.pointers_self] at once
  exact other (Fin.ext_iff.mp (once taken same.symm).1)

theorem block_count : p.dinode.block_count.toInt = count p.pointer := by
  have := holds.owned.counts ⟨p.inode.i_nr, holds.number⟩
  simpa [InodePtr.view] using this

end Holds

/-- What a change to one inode and its blocks leaves alone: its number, type and references, the
pointers it has, the marks, and the blocks of the other inodes. -/
structure Extends (p p' : InodePtr) : Prop where
  number : p'.inode.i_nr = p.inode.i_nr
  references : p'.inode.i_count = p.inode.i_count
  type : p'.dinode.i_type = p.dinode.i_type
  inode_freemap : p'.sb.inode_freemap = p.sb.inode_freemap
  keeps : ∀ k, p.pointer k ≠ 0 → p'.pointer k = p.pointer k
  marked : ∀ b, p.sb.Marked b → p'.sb.Marked b
  fresh : ∀ k, p'.pointer k ≠ 0 → p.pointer k = 0 → ¬ p.sb.Marked (p'.pointer k)
  others : ∀ b : Nat, 18 ≤ b → b < 146 ∨ (p.sb.Marked b ∧ ∀ k, p.pointer k ≠ b) → p'.sb.dev b = p.sb.dev b

namespace Extends

variable {p p' p'' : InodePtr}

theorem refl (p : InodePtr) : Extends p p :=
  ⟨rfl, rfl, rfl, rfl, fun _ _ => rfl, fun _ => id, fun _ taken empty => absurd empty taken, fun _ _ _ => rfl⟩

theorem trans (first : Extends p p') (second : Extends p' p'') : Extends p p'' := by
  refine ⟨second.number.trans first.number, second.references.trans first.references,
    second.type.trans first.type, second.inode_freemap.trans first.inode_freemap, ?_, ?_, ?_, ?_⟩
  · intro k taken
    have kept := first.keeps k taken
    rw [second.keeps k (by rwa [kept]), kept]
  · exact fun b inUse => second.marked b (first.marked b inUse)
  · intro k taken empty inUse
    by_cases between : p'.pointer k = 0
    · exact second.fresh k taken between (first.marked _ inUse)
    · rw [second.keeps k between] at inUse
      exact first.fresh k between empty inUse
  · intro b high side
    rw [second.others b high ?_, first.others b high side]
    rcases side with low | ⟨inUse, other⟩
    · exact Or.inl low
    · refine Or.inr ⟨first.marked b inUse, fun k same => ?_⟩
      have between : p'.pointer k ≠ 0 := by omega
      by_cases taken : p.pointer k = 0
      · exact first.fresh k between taken (same ▸ inUse)
      · exact other k (by rw [← first.keeps k taken, same])

theorem pointer_other (step : Extends p p') {ds : Nat → DInode} (holds : Holds p ds) {i : Fin NR_INODES}
    (other : i.val ≠ p.inode.i_nr) : pointer p'.sb.dev (ds i) = pointer p.sb.dev (ds i) := by
  apply pointer_congr
  intro k _ real
  have foreign := holds.foreign other (by omega : pointer p.sb.dev (ds i) k ≠ 0)
  have high := (holds.range foreign.1).1
  apply step.others
  · omega
  · refine Or.inr ⟨?_, fun k' same => foreign.2 k' ?_⟩
    · rw [Int.toNat_of_nonneg (by omega)]
      exact foreign.1
    · rw [same, Int.toNat_of_nonneg (by omega)]

theorem holds (step : Extends p p') {ds : Nat → DInode} (holds : Holds p ds) (accounts : Accounts p'.sb)
    (exact : Exact (Function.update (pointers p.sb.dev (p.view ds)) ⟨p.inode.i_nr, holds.number⟩ p'.pointer)
      p'.sb.Marked)
    (counted : p'.dinode.block_count.toInt = count p'.pointer) : Holds p' ds := by
  have same : pointers p'.sb.dev (p'.view ds) =
      Function.update (pointers p.sb.dev (p.view ds)) ⟨p.inode.i_nr, holds.number⟩ p'.pointer := by
    funext i
    by_cases here : i.val = p.inode.i_nr
    · have : i = ⟨p.inode.i_nr, holds.number⟩ := Fin.ext here
      subst this
      simp [pointers, InodePtr.view, step.number]
    · have : i ≠ ⟨p.inode.i_nr, holds.number⟩ := fun same => here (Fin.ext_iff.mp same)
      rw [Function.update_of_ne this, Holds.pointers_other here,
        Holds.pointers_other (by rwa [step.number]), step.pointer_other holds here]
  refine ⟨accounts, by rw [step.number]; exact holds.number, ?_, fun i => ?_⟩
  · rw [same]
    exact exact
  · by_cases here : i.val = p.inode.i_nr
    · simpa [InodePtr.view, here, step.number] using counted
    · have elsewhere : i.val ≠ p'.inode.i_nr := by rwa [step.number]
      have before := holds.owned.counts i
      simp only [InodePtr.view, Function.update_of_ne here] at before
      simp only [InodePtr.view, Function.update_of_ne elsewhere]
      rw [step.pointer_other holds here, before]

end Extends

end OperatingSystem.Fs
