import Mathlib.Logic.Function.Basic
import Mathlib.Data.List.Range

namespace Ring

variable {α : Type*} {slots : Int → α} {n first : Int} {count : Nat}

def window (slots : Int → α) (n first : Int) (count : Nat) : List α :=
  (List.range count).map fun i : Nat => slots ((first + (i : Int)) % n)

theorem index_ne {i j : Nat} (below : i < j) (room : (j : Int) < n) :
    (first + (i : Int)) % n ≠ (first + (j : Int)) % n := by
  intro same
  have divides : n ∣ (first + j) - (first + i) := Int.dvd_of_emod_eq_zero (Int.emod_eq_emod_iff_emod_sub_eq_zero.mp same.symm)
  have gap : (first + j) - (first + i) = ((j - i : Nat) : Int) := by omega
  rw [gap] at divides
  have := Int.le_of_dvd (by omega) divides
  omega

theorem window_push (x : α) (room : (count : Int) < n) :
    window (Function.update slots ((first + count) % n) x) n first (count + 1) =
      window slots n first count ++ [x] := by
  unfold window
  rw [List.range_succ, List.map_append, List.map_singleton, Function.update_self]
  congr 1
  apply List.map_congr_left
  intro i member
  exact Function.update_of_ne (index_ne (List.mem_range.mp member) room) _ _

theorem window_pop : window slots n first (count + 1) =
    slots (first % n) :: window slots n ((first + 1) % n) count := by
  unfold window
  rw [List.range_succ_eq_map, List.map_cons, List.map_map]
  congr 1
  · simp
  · apply List.map_congr_left
    intro i _
    have shifted : ((first + 1) % n + (i : Int)) % n = (first + ((i + 1 : Nat) : Int)) % n := by
      rw [Int.emod_add_emod]
      congr 1
      omega
    rw [shifted]
    rfl

end Ring
