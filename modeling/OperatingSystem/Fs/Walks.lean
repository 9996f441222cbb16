import OperatingSystem.Fs.FileCommands
import OperatingSystem.Fs.Namespace

namespace OperatingSystem.Fs

namespace Files

variable (f : Files) (records : Nat → List Record)

def child (d : Nat) (name : Name) : Option Nat :=
  if f.IsDir d ∧ name ≠ dot ∧ name ≠ dotdot then lookup (records d) name else none

def walk (p : List Name) : Option Nat := p.foldlM (f.child records) 0

def entry (nr : Nat) : Entry := if f.IsDir nr then .dir else .file (Bytes.slice (f.node nr).content 0 (f.node nr).i_size.toNat)

def tree (p : List Name) : Option Entry := (f.walk records p).map f.entry

section Walking

variable {f records} {parent : Nat → Nat} {d nr m : Nat} {p q : List Name} {name other : Name}

theorem walk_nil : f.walk records [] = some 0 := rfl

theorem walk_snoc : f.walk records (p ++ [name]) = f.walk records p >>= fun d => f.child records d name := by
  rw [walk, List.foldlM_append]
  cases h : p.foldlM (f.child records) 0 with
  | none => simp [walk, h]
  | some d => simp [walk, h]

theorem walk_snoc_eq (here : f.walk records p = some d) : f.walk records (p ++ [name]) = f.child records d name := by
  rw [walk_snoc, here]
  rfl

theorem child_eq_some : f.child records d name = some nr ↔
    f.IsDir d ∧ name ≠ dot ∧ name ≠ dotdot ∧ lookup (records d) name = some nr := by
  rw [child]
  split_ifs with inside
  · simp [inside]
  · simp only [false_iff]
    exact fun all => inside ⟨all.1, all.2.1, all.2.2.1⟩

theorem tree_eq_none : f.tree records p = none ↔ f.walk records p = none := Option.map_eq_none_iff

theorem entry_eq_dir : f.entry nr = .dir ↔ f.IsDir nr := by
  rw [entry]
  split_ifs with dir
  · simp [dir]
  · simp [dir]

variable (sound : Sound f parent records)
include sound

theorem child_used (used : f.Used d) (found : f.child records d name = some nr) : f.Used nr ∧ nr ≠ 0 ∧ parent nr = d := by
  obtain ⟨dir, own, up, present⟩ := child_eq_some.mp found
  exact (sound.named_child ⟨used, dir⟩ present own up).2

theorem walk_used (here : f.walk records p = some nr) : f.Used nr := by
  induction p using List.reverseRecOn generalizing nr with
  | nil =>
      obtain rfl := Option.some.inj here
      exact sound.root.1
  | append_singleton p name ih =>
      rw [walk_snoc] at here
      obtain ⟨d, above, found⟩ := Option.bind_eq_some_iff.mp here
      exact (child_used sound (ih above) found).1

theorem child_unique (dir : f.Dir d) (first : f.child records d name = some nr) (second : f.child records d other = some nr) :
    name = other := by
  have entries {name : Name} (found : f.child records d name = some nr) : ∃ r ∈ records d, r.Child ∧ r.number = nr ∧ r.name = name := by
    obtain ⟨-, own, up, present⟩ := child_eq_some.mp found
    obtain ⟨r, member, live, rfl, rfl⟩ := (lookup_eq_some (sound.distinct d dir)).mp present
    exact ⟨r, member, ⟨live, own, up⟩, rfl, rfl⟩
  obtain ⟨r, member, child, number, rfl⟩ := entries first
  obtain ⟨r', member', child', number', rfl⟩ := entries second
  have once := sound.once d dir
  have same := List.inj_on_of_nodup_map once (List.mem_filter.mpr ⟨member, by simpa using child⟩)
    (List.mem_filter.mpr ⟨member', by simpa using child'⟩) (number.trans number'.symm)
  rw [same]

theorem walk_injective (first : f.walk records p = some nr) (second : f.walk records q = some nr) : p = q := by
  have away {p : List Name} {name : Name} {nr : Nat} (here : f.walk records (p ++ [name]) = some nr) :
      ∃ d, f.walk records p = some d ∧ f.child records d name = some nr ∧ nr ≠ 0 ∧ parent nr = d := by
    rw [walk_snoc] at here
    obtain ⟨d, above, found⟩ := Option.bind_eq_some_iff.mp here
    exact ⟨d, above, found, (child_used sound (walk_used sound above) found).2⟩
  induction p using List.reverseRecOn generalizing nr q with
  | nil =>
      obtain rfl := Option.some.inj first
      rcases List.eq_nil_or_concat q with rfl | ⟨q, name, rfl⟩
      · rfl
      · rw [List.concat_eq_append] at second
        obtain ⟨-, -, -, nonzero, -⟩ := away second
        exact absurd rfl nonzero
  | append_singleton p name ih =>
      obtain ⟨d, above, found, nonzero, under⟩ := away first
      rcases List.eq_nil_or_concat q with rfl | ⟨q, other, rfl⟩
      · exact absurd (Option.some.inj second).symm nonzero
      · rw [List.concat_eq_append] at second ⊢
        obtain ⟨d', above', found', -, under'⟩ := away second
        obtain rfl : d' = d := under'.symm.trans under
        have dir : f.Dir d' := ⟨walk_used sound above, (child_eq_some.mp found).1⟩
        rw [ih above above', child_unique sound dir found found']

theorem child_of_parent (used : f.Used nr) (other : nr ≠ 0) : ∃ name, f.child records (parent nr) name = some nr := by
  have dir := sound.above nr used
  have member := (sound.children _ dir nr).mpr ⟨used, other, rfl⟩
  obtain ⟨r, inside, number⟩ := List.mem_map.mp member
  obtain ⟨inside, child⟩ := List.mem_filter.mp inside
  have child : r.Child := by simpa using child
  exact ⟨r.name, child_eq_some.mpr ⟨dir.2, child.2.1, child.2.2,
    (lookup_eq_some (sound.distinct _ dir)).mpr ⟨r, inside, child.1, rfl, number⟩⟩⟩

theorem walk_total (used : f.Used nr) : ∃ p, f.walk records p = some nr := by
  obtain ⟨n, reached⟩ := sound.reaches nr used
  induction n generalizing nr with
  | zero =>
      obtain rfl := reached
      exact ⟨[], rfl⟩
  | succ n ih =>
      by_cases root : nr = 0
      · exact ⟨[], by rw [root]; rfl⟩
      obtain ⟨p, above⟩ := ih (sound.above nr used).1 reached
      obtain ⟨name, found⟩ := child_of_parent sound used root
      exact ⟨p ++ [name], (walk_snoc_eq above).trans found⟩

theorem ncard_tree : {p | f.tree records p ≠ none}.ncard = {nr | f.Used nr}.ncard := by
  have ends (p : List Name) (here : p ∈ {p | f.tree records p ≠ none}) : ∃ nr, f.walk records p = some nr :=
    Option.ne_none_iff_exists'.mp fun none => here (tree_eq_none.mpr none)
  refine Set.ncard_congr (fun p here => (ends p here).choose) (fun p here => walk_used sound (ends p here).choose_spec) ?_ ?_
  · intro p q here there same
    have first := (ends p here).choose_spec
    have second := (ends q there).choose_spec
    rw [← same] at second
    exact walk_injective sound first second
  · intro nr used
    obtain ⟨p, here⟩ := walk_total sound used
    have some : f.tree records p ≠ none := fun none => by
      rw [tree_eq_none.mp none] at here
      cases here
    exact ⟨p, some, Option.some.inj ((ends p some).choose_spec.symm.trans here)⟩

theorem full_iff : (∀ nr, nr < NR_INODES → f.Used nr) ↔ NR_INODES ≤ {p | f.tree records p ≠ none}.ncard := by
  have low : {nr | f.Used nr} ⊆ Finset.range NR_INODES := fun nr used => Finset.mem_coe.mpr (Finset.mem_range.mpr used.1)
  have count : (Finset.range NR_INODES : Set Nat).ncard = NR_INODES := by
    rw [Set.ncard_coe_finset, Finset.card_range]
  rw [ncard_tree sound]
  constructor
  · intro all
    have same : {nr | f.Used nr} = Finset.range NR_INODES :=
      Set.Subset.antisymm low fun nr inside => all nr (Finset.mem_range.mp (Finset.mem_coe.mp inside))
    rw [same, count]
  · intro many nr below
    have same := Set.eq_of_subset_of_ncard_le low (count.trans_le many) (Finset.finite_toSet _)
    exact same.symm.subset (Finset.mem_coe.mpr (Finset.mem_range.mpr below))

end Walking

section Changing

variable {f f' : Files} {parent : Nat → Nat} {records : Nat → List Record} {d nr : Nat} {c : List Name} {name : Name} {r : Record}
  {below : List Record} (sound : Sound f parent records) (here : f.walk records c = some d)
include sound here

theorem walk_grow (dir : f.Dir d) (unused : ¬ f.Used nr) (fresh : r.name ∉ names (records d)) (live : r.Live)
    (number : r.number = nr) (grows : Grows f f' d nr r (records d) below) (p : List Name) :
    f'.walk (Function.update (Function.update records d (enter r (records d))) nr below) p =
      if p = c ++ [r.name] then some nr else f.walk records p := by
  have proper := sound.child_of_fresh dir fresh live
  have sound' := sound.grow dir unused fresh live number grows
  have apart : d ≠ nr := by
    rintro rfl
    exact unused dir.1
  generalize changed : Function.update (Function.update records d (enter r (records d))) nr below = records' at sound' ⊢
  have recordsD : records' d = enter r (records d) := by rw [← changed, Function.update_of_ne apart, Function.update_self]
  have isDir {m : Nat} (other : m ≠ d) (old : m ≠ nr) : f'.IsDir m ↔ f.IsDir m := by
    rw [IsDir, grows.others m other old, IsDir]
  have absent : f.child records d r.name = none := by
    rw [child, if_pos ⟨dir.2, proper.2⟩]
    exact lookup_eq_none.mpr fresh
  have bare (m : Name) : f'.child records' nr m = none := by
    by_contra found
    obtain ⟨e, found⟩ := Option.ne_none_iff_exists'.mp found
    obtain ⟨type, own, up, present⟩ := child_eq_some.mp found
    rcases grows.new with file | made
    · rw [IsDir, file] at type
      exact absurd type (by decide)
    · have inside := (sound'.named_child ⟨(grows.used nr).mpr (Or.inr rfl), type⟩ present own up).1
      rw [← changed, Function.update_self, made.2.none] at inside
      cases inside
  induction p using List.reverseRecOn with
  | nil => simp [walk_nil]
  | append_singleton p m ih =>
      rw [walk_snoc, ih]
      by_cases new : p = c ++ [r.name]
      · have longer : p ++ [m] ≠ c ++ [r.name] := by
          subst new
          simp
        rw [if_pos new, if_neg longer, walk_snoc, new, walk_snoc_eq here, absent]
        exact bare m
      rw [if_neg new, walk_snoc]
      cases above : f.walk records p with
      | none =>
          have other : p ++ [m] ≠ c ++ [r.name] := by
            intro same
            obtain ⟨rfl, -⟩ := List.append_inj' same rfl
            rw [here] at above
            cases above
          rw [if_neg other]
          rfl
      | some e =>
          change f'.child records' e m = if p ++ [m] = c ++ [r.name] then some nr else f.child records e m
          have old : e ≠ nr := by
            rintro rfl
            exact unused (walk_used sound above)
          by_cases grown : e = d
          · subst grown
            obtain rfl := walk_injective sound above here
            have dir' : f'.IsDir e := grows.directory.type
            rw [child, child, recordsD]
            simp only [dir', dir.2, true_and, List.append_cancel_left_eq, List.cons.injEq, and_true]
            by_cases named : m = r.name
            · subst named
              have present : lookup (enter r (records e)) r.name = some nr := by
                rw [lookup_eq_some (recordsD ▸ sound'.distinct e ⟨(grows.used e).mpr (Or.inl dir.1), dir'⟩), named_enter live]
                exact Or.inl ⟨rfl, number⟩
              rw [if_pos proper.2, if_pos rfl, present]
            · have same : lookup (enter r (records e)) m = lookup (records e) m := by
                apply Option.ext
                intro x
                rw [lookup_eq_some (recordsD ▸ sound'.distinct e ⟨(grows.used e).mpr (Or.inl dir.1), dir'⟩),
                  lookup_eq_some (sound.distinct e dir), named_enter live]
                simp [Ne.symm named]
              rw [if_neg named, same]
          · have other : p ++ [m] ≠ c ++ [r.name] := by
              intro same
              obtain ⟨rfl, -⟩ := List.append_inj' same rfl
              exact grown (Option.some.inj (above.symm.trans here))
            have recordsE : records' e = records e := by
              rw [← changed, Function.update_of_ne old, Function.update_of_ne grown]
            simp only [if_neg other, child, recordsE, isDir grown old]

theorem walk_shrink (dir : f.Dir d) (present : lookup (records d) name = some nr) (own : name ≠ dot) (up : name ≠ dotdot)
    (bare : f.IsDir nr → inodes (records nr) = []) (shrinks : Shrinks f f' d nr name (records d)) (p : List Name) :
    f'.walk (Function.update records d (bury name (records d))) p = if p = c ++ [name] then none else f.walk records p := by
  have sound' := sound.shrink dir present own up bare shrinks
  have found : f.child records d name = some nr := child_eq_some.mpr ⟨dir.2, own, up, present⟩
  have apart : d ≠ nr := by
    rintro rfl
    exact sound.parent_ne (child_used sound dir.1 found).1 (child_used sound dir.1 found).2.1 (child_used sound dir.1 found).2.2
  generalize changed : Function.update records d (bury name (records d)) = records' at sound' ⊢
  have recordsD : records' d = bury name (records d) := by rw [← changed, Function.update_self]
  have isDir {m : Nat} (other : m ≠ d) (old : m ≠ nr) : f'.IsDir m ↔ f.IsDir m := by
    rw [IsDir, shrinks.others m other old, IsDir]
  have leaf (m : Name) : f.child records nr m = none := by
    by_contra some
    obtain ⟨e, some⟩ := Option.ne_none_iff_exists'.mp some
    obtain ⟨type, own', up', there⟩ := child_eq_some.mp some
    have inside := (sound.named_child ⟨(child_used sound dir.1 found).1, type⟩ there own' up').1
    rw [bare type] at inside
    cases inside
  have end_of {p : List Name} (above : f.walk records p = some nr) : p = c ++ [name] :=
    walk_injective sound above ((walk_snoc_eq here).trans found)
  induction p using List.reverseRecOn with
  | nil => simp [walk_nil]
  | append_singleton p m ih =>
      rw [walk_snoc, ih]
      by_cases gone : p = c ++ [name]
      · have longer : p ++ [m] ≠ c ++ [name] := by
          subst gone
          simp
        rw [if_pos gone, if_neg longer, walk_snoc, gone, walk_snoc_eq here, found]
        exact (leaf m).symm
      rw [if_neg gone, walk_snoc]
      cases above : f.walk records p with
      | none =>
          have none : (none : Option Nat) >>= (fun d => f'.child records' d m) = none := rfl
          rw [none]
          split_ifs
          · rfl
          · rfl
      | some e =>
          change f'.child records' e m = if p ++ [m] = c ++ [name] then none else f.child records e m
          have old : e ≠ nr := by
            rintro rfl
            exact gone (end_of above)
          by_cases shrunk : e = d
          · subst shrunk
            obtain rfl := walk_injective sound above here
            have dir' : f'.IsDir e := shrinks.directory.type
            have there : f'.Dir e := ⟨(shrinks.used e).mpr ⟨dir.1, apart⟩, dir'⟩
            rw [child, child, recordsD]
            simp only [dir', dir.2, true_and, List.append_cancel_left_eq, List.cons.injEq, and_true]
            have distinct := sound.distinct e dir
            by_cases named : m = name
            · subst named
              have absent : lookup (bury m (records e)) m = none := by
                rw [lookup_eq_none]
                intro member
                obtain ⟨s, inside, alive, same⟩ := mem_names.mp member
                exact ((named_bury distinct present).mp ⟨s, inside, alive, same, rfl⟩).1 rfl
              rw [if_pos ⟨own, up⟩, if_pos rfl, absent]
            · have same : lookup (bury name (records e)) m = lookup (records e) m := by
                apply Option.ext
                intro x
                rw [lookup_eq_some (recordsD ▸ sound'.distinct e there), lookup_eq_some distinct, named_bury distinct present]
                simp [named]
              rw [if_neg named, same]
          · have other : p ++ [m] ≠ c ++ [name] := by
              intro same
              obtain ⟨rfl, -⟩ := List.append_inj' same rfl
              exact shrunk (Option.some.inj (above.symm.trans here))
            have recordsE : records' e = records e := by rw [← changed, Function.update_of_ne shrunk]
            simp only [if_neg other, child, recordsE, isDir shrunk old]

end Changing

theorem walk_congr {f f' : Files} {records : Nat → List Record} (isDir : ∀ m, f'.IsDir m ↔ f.IsDir m) :
    f'.walk records = f.walk records := by
  have same : f'.child records = f.child records := by
    funext d name
    simp only [child, isDir]
  funext p
  rw [walk, same, walk]

end Files

end OperatingSystem.Fs
