import Mathlib.Data.List.Nodup
import Mathlib.Data.List.Perm.Subperm
import Mathlib.Logic.Function.Iterate

namespace Rooted

variable {ι : Type*} {nodes : List ι} {parent : ι → ι} {root d e c : ι} {n m : Nat}

inductive Level (parent : ι → ι) (root : ι) : ι → Nat → Prop
  | root : Level parent root root 0
  | step {d : ι} {n : Nat} : d ≠ root → Level parent root (parent d) n → Level parent root d (n + 1)

inductive Below (parent : ι → ι) (root d : ι) : ι → Prop
  | refl : Below parent root d d
  | step {e : ι} : e ≠ root → Below parent root d (parent e) → Below parent root d e

structure Tree (nodes : List ι) (parent : ι → ι) (root : ι) : Prop where
  nodup : nodes.Nodup
  root_mem : root ∈ nodes
  closed : ∀ d ∈ nodes, parent d ∈ nodes
  top : parent root = root
  reaches : ∀ d ∈ nodes, ∃ n, parent^[n] d = root

theorem Level.unique (first : Level parent root d n) (second : Level parent root d m) : n = m := by
  induction first generalizing m with
  | root =>
      cases second with
      | root => rfl
      | step other _ => exact absurd rfl other
  | step other _ ih =>
      cases second with
      | root => exact absurd rfl other
      | step _ above => rw [ih above]

namespace Below

theorem level (below : Below parent root d e) (level : Level parent root d n) :
    ∃ k, Level parent root e (n + k) ∧ parent^[k] e = d := by
  induction below with
  | refl => exact ⟨0, level, rfl⟩
  | step other _ ih =>
      obtain ⟨k, above, reached⟩ := ih
      exact ⟨k + 1, .step other above, reached⟩

theorem child (below : Below parent root d e) : e = d ∨ ∃ c, c ≠ root ∧ parent c = d ∧ Below parent root c e := by
  induction below with
  | refl => exact Or.inl rfl
  | @step e other above ih =>
      rcases ih with same | ⟨c, apart, up, below⟩
      · exact Or.inr ⟨e, other, same, .refl⟩
      · exact Or.inr ⟨c, apart, up, .step other below⟩

theorem of_child (other : c ≠ root) (below : Below parent root c e) : Below parent root (parent c) e := by
  induction below with
  | refl => exact .step other .refl
  | step apart _ ih => exact .step apart ih

theorem mem (below : Below parent root d e) (closed : ∀ d ∈ nodes, parent d ∈ nodes) (member : e ∈ nodes) : d ∈ nodes := by
  induction below with
  | refl => exact member
  | step _ _ ih => exact ih (closed _ member)

end Below

theorem Level.same_above (first : Level parent root c n) (second : Level parent root d n) (here : Below parent root c e)
    (there : Below parent root d e) : c = d := by
  obtain ⟨k, level, reached⟩ := here.level first
  obtain ⟨k', level', reached'⟩ := there.level second
  obtain rfl : k = k' := Nat.add_left_cancel (level.unique level')
  exact reached.symm.trans reached'

def descend (children : ι → List ι) : Nat → ι → List ι
  | 0, _ => []
  | depth + 1, d => d :: (children d).flatMap (descend children depth)

/-- A walk of that depth comes to its end, and `P` holds wherever it comes by. -/
def Walks (children : ι → List ι) (P : ι → Prop) : Nat → ι → Prop
  | 0, _ => False
  | depth + 1, d => P d ∧ ∀ c ∈ children d, Walks children P depth c

namespace Tree

variable (tree : Tree nodes parent root)
include tree

theorem level (member : d ∈ nodes) : ∃ n, Level parent root d n := by
  obtain ⟨n, reached⟩ := tree.reaches d member
  induction n generalizing d with
  | zero => exact ⟨0, reached ▸ .root⟩
  | succ n ih =>
      by_cases here : d = root
      · exact ⟨0, here ▸ .root⟩
      · obtain ⟨m, above⟩ := ih (tree.closed d member) reached
        exact ⟨m + 1, .step here above⟩

theorem level_lt (level : Level parent root d n) (member : d ∈ nodes) : n < nodes.length := by
  have way : ∃ l : List ι, l.length = n + 1 ∧ l.Nodup ∧ l ⊆ nodes ∧ ∀ e ∈ l, ∃ m, Level parent root e m ∧ m ≤ n := by
    induction level with
    | root => exact ⟨[root], rfl, List.nodup_singleton _, by simpa using member,
        by simpa using Level.root⟩
    | @step d n other above ih =>
        obtain ⟨l, length, nodup, inside, levels⟩ := ih (tree.closed d member)
        have fresh : d ∉ l := by
          intro again
          obtain ⟨m, level, low⟩ := levels d again
          have := level.unique (.step other above)
          omega
        refine ⟨d :: l, by rw [List.length_cons, length], List.nodup_cons.mpr ⟨fresh, nodup⟩,
          List.cons_subset.mpr ⟨member, inside⟩, fun e there => ?_⟩
        rcases List.mem_cons.mp there with rfl | there
        · exact ⟨n + 1, .step other above, Nat.le_refl _⟩
        · obtain ⟨m, level, low⟩ := levels e there
          exact ⟨m, level, by omega⟩
  obtain ⟨l, length, nodup, inside, -⟩ := way
  have := (nodup.subperm inside).length_le
  omega

theorem below_root (member : d ∈ nodes) : Below parent root root d := by
  obtain ⟨n, level⟩ := tree.level member
  induction level with
  | root => exact .refl
  | step other _ ih => exact .step other (ih (tree.closed _ member))

variable {children : ι → List ι} {depth : Nat}
  (child : ∀ d ∈ nodes, (children d).Nodup ∧ ∀ c, c ∈ children d ↔ c ∈ nodes ∧ c ≠ root ∧ parent c = d)
include child

theorem mem_descend (level : Level parent root d n) (member : d ∈ nodes) (enough : nodes.length ≤ depth + n) :
    e ∈ descend children depth d ↔ e ∈ nodes ∧ Below parent root d e := by
  induction depth generalizing d n with
  | zero =>
      have := tree.level_lt level member
      omega
  | succ depth ih =>
      rw [descend, List.mem_cons, List.mem_flatMap]
      have down {c : ι} (inside : c ∈ children d) : e ∈ descend children depth c ↔ e ∈ nodes ∧ Below parent root c e := by
        obtain ⟨there, other, rfl⟩ := ((child d member).2 c).mp inside
        exact ih (.step other level) there (by omega)
      constructor
      · rintro (rfl | ⟨c, inside, visited⟩)
        · exact ⟨member, .refl⟩
        · obtain ⟨-, other, rfl⟩ := ((child d member).2 c).mp inside
          obtain ⟨there, below⟩ := (down inside).mp visited
          exact ⟨there, below.of_child other⟩
      · rintro ⟨there, below⟩
        rcases below.child with rfl | ⟨c, other, rfl, under⟩
        · exact Or.inl rfl
        · have inside := ((child (parent c) member).2 c).mpr ⟨under.mem tree.closed there, other, rfl⟩
          exact Or.inr ⟨c, inside, (down inside).mpr ⟨there, under⟩⟩

theorem nodup_descend (level : Level parent root d n) (member : d ∈ nodes) (enough : nodes.length ≤ depth + n) :
    (descend children depth d).Nodup := by
  induction depth generalizing d n with
  | zero => exact List.nodup_nil
  | succ depth ih =>
      have down {c : ι} (inside : c ∈ children d) : c ∈ nodes ∧ Level parent root c (n + 1) := by
        obtain ⟨there, other, rfl⟩ := ((child d member).2 c).mp inside
        exact ⟨there, .step other level⟩
      have visited {c e : ι} (inside : c ∈ children d) (here : e ∈ descend children depth c) : Below parent root c e :=
        ((tree.mem_descend child (down inside).2 (down inside).1 (by omega)).mp here).2
      rw [descend, List.nodup_cons, List.nodup_flatMap]
      refine ⟨fun again => ?_, fun c inside => ih (down inside).2 (down inside).1 (by omega), ?_⟩
      · obtain ⟨c, inside, here⟩ := List.mem_flatMap.mp again
        obtain ⟨k, above, -⟩ := (visited inside here).level (down inside).2
        have := level.unique above
        omega
      · apply (child d member).1.imp_of_mem
        intro c c' inside inside' differ e here there
        exact differ ((down inside).2.same_above (down inside').2 (visited inside here) (visited inside' there))

theorem descend_perm (enough : nodes.length ≤ depth) : (descend children depth root).Perm nodes := by
  have member := tree.root_mem
  rw [List.perm_ext_iff_of_nodup (tree.nodup_descend child .root member enough) tree.nodup]
  intro e
  rw [tree.mem_descend child .root member enough]
  exact ⟨And.left, fun there => ⟨there, tree.below_root there⟩⟩

theorem walks_below {P : ι → Prop} (walks : Walks children P depth d) (member : d ∈ nodes) (there : e ∈ nodes)
    (below : Below parent root d e) : P e := by
  induction depth generalizing d with
  | zero => exact walks.elim
  | succ depth ih =>
      obtain ⟨here, deeper⟩ := walks
      rcases below.child with rfl | ⟨c, other, rfl, under⟩
      · exact here
      · have inside := under.mem tree.closed there
        exact ih (deeper c (((child (parent c) member).2 c).mpr ⟨inside, other, rfl⟩)) inside under

theorem walks_of_level {P : ι → Prop} (all : ∀ e ∈ nodes, P e) (level : Level parent root d n) (member : d ∈ nodes)
    (enough : nodes.length ≤ depth + n) : Walks children P depth d := by
  induction depth generalizing d n with
  | zero =>
      have := tree.level_lt level member
      omega
  | succ depth ih =>
      refine ⟨all d member, fun c inside => ?_⟩
      obtain ⟨there, other, rfl⟩ := ((child d member).2 c).mp inside
      exact ih (.step other level) there (by omega)

end Tree

end Rooted
