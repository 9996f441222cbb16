import OperatingSystem.Fs.Steps

namespace OperatingSystem.Fs

open Bytes

theorem bytes32_inj {a b : UInt32} (same : bytes32 a = bytes32 b) : a = b := by
  apply UInt32.toNat_inj.mp
  have value := congrArg Bytes.toNat same
  rwa [bytes32, bytes32, toNat_ofNat _ _ a.toNat_lt, toNat_ofNat _ _ b.toNat_lt] at value

theorem toUInt32_inj {a b : Int32} (same : a.toUInt32 = b.toUInt32) : a = b := by
  rw [← Int32.toInt32_toUInt32 a, same, Int32.toInt32_toUInt32]

namespace Record

variable {r r' : Record} {records records' : List Record}

theorem bytes_append_inj {rest rest' : List UInt8} (same : r.bytes ++ rest = r'.bytes ++ rest') : r = r' ∧ rest = rest' := by
  simp only [bytes, List.append_assoc] at same
  obtain ⟨len, same⟩ := List.append_inj same (by rw [length_bytes32, length_bytes32])
  obtain ⟨number, same⟩ := List.append_inj same (by rw [length_bytes32, length_bytes32])
  have len := congrArg Int32.toInt (toUInt32_inj (bytes32_inj len))
  rw [d_name_len_toInt, d_name_len_toInt] at len
  obtain ⟨name, rest⟩ := List.append_inj same (Int.ofNat_inj.mp len)
  have number := toUInt32_inj (bytes32_inj number)
  cases r
  cases r'
  simp only at number name
  subst number name
  exact ⟨rfl, rest⟩

theorem bytes_ne_nil : r.bytes ≠ [] := by
  intro none
  have length := congrArg List.length none
  rw [length_bytes, size, Dirent.size, List.length_nil] at length
  omega

theorem flatMap_bytes_inj (same : records.flatMap bytes = records'.flatMap bytes) : records = records' := by
  induction records generalizing records' with
  | nil =>
      cases records' with
      | nil => rfl
      | cons r' records' => exact absurd (List.append_eq_nil_iff.mp same.symm).1 bytes_ne_nil
  | cons r records ih =>
      cases records' with
      | nil => exact absurd (List.append_eq_nil_iff.mp same).1 bytes_ne_nil
      | cons r' records' =>
          obtain ⟨rfl, rest⟩ := bytes_append_inj same
          rw [ih rest]

end Record

section Seeing

variable {t : Testfs} {f g : Files} (same : Represents t f) (other : Represents t g)
include same other

theorem node_agrees {nr : Nat} (low : nr < NR_INODES) : (g.node nr).i_type = (f.node nr).i_type ∧ (g.node nr).i_size = (f.node nr).i_size ∧
    ∀ size : Nat, size ≤ (f.node nr).i_size → slice (g.node nr).content 0 size = slice (f.node nr).content 0 size := by
  have first := same.node nr low
  have second := other.node nr low
  refine ⟨second.i_type.trans first.i_type.symm, second.i_size.trans first.i_size.symm, fun size inside => ?_⟩
  have high := (same.consistent.tidy nr low).high
  rw [← first.i_size] at high
  apply List.map_congr_left
  intro i member
  have member := List.mem_range.mp member
  rw [second.content _ (by omega), first.content _ (by omega)]

variable {parent parent' : Nat → Nat} {records records' : Nat → List Record} {cur : Nat} {v v' : Namespace}

theorem Files.Shows.unique (shows : f.Shows parent records cur v) (shows' : g.Shows parent' records' cur v') : v' = v := by
  have isDir {d : Nat} (used : f.Used d) : g.IsDir d ↔ f.IsDir d := by
    rw [IsDir, (node_agrees same other used.1).1, IsDir]
  have used (d : Nat) : g.Used d ↔ f.Used d := used_congr (other.inode_freemap.trans same.inode_freemap.symm)
  have listed {d : Nat} (dir : f.Dir d) : records' d = records d := by
    obtain ⟨-, size, content⟩ := node_agrees same other dir.1.1
    obtain ⟨length, bytes, -⟩ := (shows.sound.directory d dir).lists
    obtain ⟨length', bytes', -⟩ := (shows'.sound.directory d ⟨(used d).mpr dir.1, (isDir dir.1).mpr dir.2⟩).lists
    rw [size, length] at length'
    have equal := Int.ofNat_inj.mp length'
    rw [Nat.zero_add, Nat.zero_add] at equal
    apply Record.flatMap_bytes_inj
    rw [← bytes', ← equal, content _ (by rw [length, Nat.zero_add]), bytes]
  have walked (p : List Name) : g.walk records' p = f.walk records p := by
    induction p using List.reverseRecOn with
    | nil => rfl
    | append_singleton p name ih =>
        rw [walk_snoc, walk_snoc, ih]
        cases here : f.walk records p with
        | none => rfl
        | some d =>
            have there := walk_used shows.sound here
            change g.child records' d name = f.child records d name
            by_cases dir : f.IsDir d
            · simp only [child, isDir there, listed ⟨there, dir⟩]
            · simp only [child, isDir there, dir, false_and, if_false]
  have tree : v'.tree = v.tree := by
    rw [shows.tree, shows'.tree]
    funext p
    rw [Files.tree, Files.tree, walked]
    cases here : f.walk records p with
    | none => rfl
    | some nr =>
        have there := walk_used shows.sound here
        obtain ⟨-, size, content⟩ := node_agrees same other there.1
        have entry : g.entry nr = f.entry nr := by
          by_cases dir : f.IsDir nr
          · rw [entry_eq_dir.mpr dir, entry_eq_dir.mpr ((isDir there).mpr dir)]
          · have low := (shows.sound.file nr there dir).low
            simp only [Files.entry, isDir there, dir, if_false, size]
            rw [content _ (Int.toNat_of_nonneg low).le]
        exact congrArg some entry
  have cwd : v'.cwd = v.cwd := walk_injective shows.sound ((walked _).symm.trans shows'.cwd) shows.cwd
  cases v
  cases v'
  simp only at tree cwd
  rw [tree, cwd]

end Seeing

theorem Session.Shows.unique {c : Session} {v v' : Namespace} (shows : c.Shows v) (shows' : c.Shows v') : v' = v := by
  obtain ⟨f, same, -, parent, records, all⟩ := shows
  obtain ⟨g, other, -, parent', records', all'⟩ := shows'
  exact Files.Shows.unique same other all all'

end OperatingSystem.Fs
