import OperatingSystem.Library.Words
import OperatingSystem.Warmup.WordTable

namespace OperatingSystem.Warmup

open Words

def INT_MAX : Int := 2147483647

inductive ScanFault
  | outside | overflow | endless
  | heap (trap : Trap)
  deriving DecidableEq, Repr

def isspace (c : UInt8) : Bool := c == 32 || (9 ≤ c && c ≤ 13)

def byteAt (memory : List UInt8) (i : Nat) : Except ScanFault UInt8 :=
  match memory[i]? with
  | some c => .ok c
  | none => .error .outside

/-- `while (!isspace(*j))`.  `memory` is what can be read behind `word_array`: the text and the zero behind it. -/
def scanLoop (memory : List UInt8) : Nat → Nat → Int → Except ScanFault (Nat × Int)
  | 0, _, _ => .error .endless
  | fuel + 1, j, counter => do
      let c ← byteAt memory j
      if isspace c then return (j, counter)
      else if counter = INT_MAX then .error .overflow
      else scanLoop memory fuel (j + 1) (counter + 1)

def strncpy (memory : List UInt8) (i counter : Nat) : Word := ((memory.drop i).take counter).takeWhile (· ≠ 0)

def lifted (x : Except Trap Wc) : Except ScanFault Wc :=
  match x with
  | .ok wc => .ok wc
  | .error trap => .error (.heap trap)

def wcInitLoop (memory : List UInt8) : Nat → Nat → List Word → Wc → Except ScanFault (List Word × Wc)
  | 0, _, _, _ => .error .endless
  | fuel + 1, i, found, wc => do
      if (← byteAt memory i) = 0 then return (found, wc)
      else do
        let (j, counter) ← scanLoop memory (memory.length + 1) i 0
        -- the size of the copy is `counter + 1`
        if counter = INT_MAX then .error .overflow
        else
          let dummy := strncpy memory i counter.toNat
          if dummy = [] then wcInitLoop memory fuel (j + 1) found wc
          else do
            let wc ← lifted (insertWord dummy counter wc)
            wcInitLoop memory fuel (j + 1) (found ++ [dummy]) wc

def wcInit (memory : List UInt8) (size : Nat) : Except ScanFault (List Word × Wc) :=
  wcInitLoop memory (memory.length + 1) 0 [] (emptyTable size)

section Scanning

variable {memory tail w : List UInt8} {c : UInt8} {i j fuel : Nat} {counter : Int}

theorem byteAt_of_drop (here : memory.drop i = c :: tail) : byteAt memory i = .ok c ∧ memory.drop (i + 1) = tail := by
  constructor
  · have first : memory[i]? = some c := by
      rw [← Nat.add_zero i, ← List.getElem?_drop, here]
      rfl
    rw [byteAt, first]
  · rw [← List.drop_drop, here]
    rfl

theorem byteAt_end (ended : memory.drop i = []) : byteAt memory i = .error .outside := by
  rw [byteAt, List.getElem?_eq_none (List.drop_eq_nil_iff.mp ended)]

theorem scanLoop_stops (here : memory.drop j = w ++ c :: tail) (inner : ∀ d ∈ w, isspace d = false) (space : isspace c = true)
    (short : counter + w.length ≤ INT_MAX) (enough : w.length < fuel) :
    scanLoop memory fuel j counter = .ok (j + w.length, counter + w.length) := by
  induction w generalizing fuel j counter with
  | nil =>
      obtain ⟨fuel, rfl⟩ := Nat.exists_eq_succ_of_ne_zero (Nat.ne_zero_of_lt enough)
      rw [scanLoop, (byteAt_of_drop here).1, Result.ok_bind, if_pos space]
      simp
  | cons d w ih =>
      obtain ⟨fuel, rfl⟩ := Nat.exists_eq_succ_of_ne_zero (Nat.ne_zero_of_lt enough)
      obtain ⟨read, next⟩ := byteAt_of_drop here
      have first : isspace d = false := inner d List.mem_cons_self
      rw [List.length_cons] at short
      rw [scanLoop, read, Result.ok_bind, if_neg (by rw [first]; decide), if_neg (by omega),
        ih next (fun e member => inner e (List.mem_cons_of_mem d member)) (by omega) (Nat.lt_of_succ_lt_succ enough)]
      rw [List.length_cons]
      congr 2
      · omega
      · omega

/-- Without white space to come the loop runs off the memory, or its counter overflows. -/
theorem scanLoop_runs_off (none : ∀ d ∈ memory.drop j, isspace d = false) (r : Nat × Int) : scanLoop memory fuel j counter ≠ .ok r := by
  induction fuel generalizing j counter with
  | zero => exact nofun
  | succ fuel ih =>
      cases here : memory.drop j with
      | nil =>
          rw [scanLoop, byteAt_end here]
          exact nofun
      | cons d tail =>
          obtain ⟨read, next⟩ := byteAt_of_drop here
          have first : isspace d = false := none d (here ▸ List.mem_cons_self)
          rw [scanLoop, read, Result.ok_bind, if_neg (by rw [first]; decide)]
          split
          · exact nofun
          · refine ih fun e member => none e ?_
            rw [here]
            rw [next] at member
            exact List.mem_cons_of_mem d member

theorem scanLoop_overflows (here : memory.drop j = w ++ c :: tail) (inner : ∀ d ∈ w, isspace d = false)
    (long : INT_MAX < counter + w.length) (small : counter ≤ INT_MAX) (r : Nat × Int) : scanLoop memory fuel j counter ≠ .ok r := by
  induction w generalizing fuel j counter with
  | nil =>
      rw [List.length_nil] at long
      omega
  | cons d w ih =>
      cases fuel with
      | zero => exact nofun
      | succ fuel =>
          obtain ⟨read, next⟩ := byteAt_of_drop here
          have first : isspace d = false := inner d List.mem_cons_self
          rw [List.length_cons] at long
          rw [scanLoop, read, Result.ok_bind, if_neg (by rw [first]; decide)]
          split
          · exact nofun
          · exact ih next (fun e member => inner e (List.mem_cons_of_mem d member)) (by omega) (by omega)

theorem strncpy_word (here : memory.drop i = w ++ tail) (text : ∀ d ∈ w, d ≠ 0) : strncpy memory i w.length = w := by
  rw [strncpy, here, List.take_left]
  exact List.takeWhile_eq_self_iff.mpr fun d member => by simpa using text d member

variable {found : List Word} {wc : Wc}

theorem wcInitLoop_end (here : memory.drop i = 0 :: tail) : wcInitLoop memory (fuel + 1) i found wc = .ok (found, wc) := by
  rw [wcInitLoop, (byteAt_of_drop here).1, Result.ok_bind, if_pos rfl]
  rfl

theorem wcInitLoop_space (here : memory.drop i = c :: tail) (text : c ≠ 0) (space : isspace c = true) :
    wcInitLoop memory (fuel + 1) i found wc = wcInitLoop memory fuel (i + 1) found wc := by
  have stops : scanLoop memory (memory.length + 1) i 0 = .ok (i, 0) :=
    scanLoop_stops (w := []) here (by simp) space (by decide) (Nat.succ_pos _)
  rw [wcInitLoop, (byteAt_of_drop here).1, Result.ok_bind, if_neg text, stops, Result.ok_bind]
  rfl

theorem wcInitLoop_word (here : memory.drop i = w ++ c :: tail) (some : w ≠ []) (text : ∀ d ∈ w, d ≠ 0)
    (inner : ∀ d ∈ w, isspace d = false) (space : isspace c = true) (short : (w.length : Int) < INT_MAX) :
    wcInitLoop memory (fuel + 1) i found wc =
      lifted (insertWord w w.length wc) >>= wcInitLoop memory fuel (i + w.length + 1) (found ++ [w]) := by
  have enough : w.length < memory.length + 1 := by
    have total := congrArg List.length here
    rw [List.length_drop, List.length_append] at total
    omega
  have stops : scanLoop memory (memory.length + 1) i 0 = .ok (i + w.length, (w.length : Int)) := by
    rw [scanLoop_stops here inner space (by omega) enough, Int.zero_add]
  obtain ⟨d, w', rfl⟩ := List.exists_cons_of_ne_nil some
  rw [wcInitLoop, (byteAt_of_drop here).1, Result.ok_bind, if_neg (text d List.mem_cons_self), stops, Result.ok_bind]
  dsimp only
  rw [if_neg (Int.ne_of_lt short), Int.toNat_natCast, strncpy_word here text, if_neg some]

theorem wcInitLoop_stuck (here : memory.drop i = c :: tail) (text : c ≠ 0)
    (stuck : ∀ r, scanLoop memory (memory.length + 1) i 0 = .ok r → r.2 = INT_MAX) (r : List Word × Wc) :
    wcInitLoop memory fuel i found wc ≠ .ok r := by
  cases fuel with
  | zero => exact nofun
  | succ fuel =>
      rw [wcInitLoop, (byteAt_of_drop here).1, Result.ok_bind, if_neg text]
      cases scanned : scanLoop memory (memory.length + 1) i 0 with
      | error e => exact nofun
      | ok s =>
          obtain ⟨j, counter⟩ := s
          rw [Result.ok_bind]
          dsimp only
          rw [if_pos (stuck _ scanned)]
          exact nofun

/-- Every word of the text ends with white space, before its characters are too many for an `int`. -/
def Scannable (text : List UInt8) : Prop :=
  (∀ c, text.getLast? = some c → isspace c = true) ∧ ∀ w ∈ words isspace text, (w.length : Int) < INT_MAX

variable {rest : List UInt8} {wc' : Wc}

theorem scannable_space (space : isspace c = true) : Scannable (c :: rest) ↔ Scannable rest := by
  rw [Scannable, words_separator space, ← List.nil_append (c :: rest), last_behind_separator space, Scannable]

theorem scannable_word (some : w ≠ []) (inner : ∀ d ∈ w, isspace d = false) (space : isspace c = true) :
    Scannable (w ++ c :: rest) ↔ (w.length : Int) < INT_MAX ∧ Scannable rest := by
  rw [Scannable, words_first some inner space, last_behind_separator space, List.forall_mem_cons, and_left_comm, Scannable]

theorem not_scannable_last (some : w ≠ []) (inner : ∀ d ∈ w, isspace d = false) : ¬ Scannable w := by
  intro scannable
  have last := scannable.1 _ (List.getLast?_eq_getLast_of_ne_nil some)
  rw [inner _ (List.getLast_mem some)] at last
  cases last

theorem wcInitLoop_scans (here : memory.drop i = rest ++ [0]) (text : ∀ d ∈ rest, d ≠ 0) (scannable : Scannable rest)
    (inserted : insertWords (words isspace rest) wc = .ok wc') (enough : rest.length < fuel) :
    wcInitLoop memory fuel i found wc = .ok (found ++ words isspace rest, wc') := by
  induction rest using words_induction isspace generalizing i fuel found wc with
  | empty =>
      obtain ⟨fuel, rfl⟩ := Nat.exists_eq_succ_of_ne_zero (Nat.ne_zero_of_lt enough)
      obtain rfl := Except.ok.inj inserted
      rw [wcInitLoop_end here]
      simp [words]
  | separator c rest space ih =>
      obtain ⟨fuel, rfl⟩ := Nat.exists_eq_succ_of_ne_zero (Nat.ne_zero_of_lt enough)
      rw [words_separator space] at inserted ⊢
      rw [wcInitLoop_space here (text c List.mem_cons_self) space]
      exact ih (byteAt_of_drop here).2 (fun d member => text d (List.mem_cons_of_mem c member)) ((scannable_space space).mp scannable)
        inserted (Nat.lt_of_succ_lt_succ enough)
  | last w some inner => exact (not_scannable_last some inner scannable).elim
  | word w c rest some inner space ih =>
      obtain ⟨fuel, rfl⟩ := Nat.exists_eq_succ_of_ne_zero (Nat.ne_zero_of_lt enough)
      obtain ⟨short, scannable⟩ := (scannable_word some inner space).mp scannable
      rw [words_first some inner space, insertWords] at inserted
      obtain ⟨wc₁, first, inserted⟩ := Result.bind_eq_ok.mp inserted
      have here : memory.drop i = w ++ c :: (rest ++ [0]) := by rw [here, List.append_assoc, List.cons_append]
      have next : memory.drop (i + w.length + 1) = rest ++ [0] := by
        rw [Nat.add_assoc, ← List.drop_drop, here, ← List.drop_drop, List.drop_left]
        rfl
      rw [wcInitLoop_word here some (fun d member => text d (by simp [member])) inner space short, first]
      refine (ih next (fun d member => text d (by simp [member])) scannable inserted ?_).trans ?_
      · rw [List.length_append, List.length_cons] at enough
        omega
      · rw [words_first some inner space, List.append_assoc]
        rfl

theorem wcInitLoop_fails (here : memory.drop i = rest ++ [0]) (text : ∀ d ∈ rest, d ≠ 0) (bad : ¬ Scannable rest) (r : List Word × Wc) :
    wcInitLoop memory fuel i found wc ≠ .ok r := by
  induction rest using words_induction isspace generalizing i fuel found wc with
  | empty => exact (bad ⟨by simp, by simp [words]⟩).elim
  | separator c rest space ih =>
      cases fuel with
      | zero =>
          intro ran
          cases ran
      | succ fuel =>
          rw [wcInitLoop_space here (text c List.mem_cons_self) space]
          exact ih (byteAt_of_drop here).2 (fun d member => text d (List.mem_cons_of_mem c member)) (mt (scannable_space space).mpr bad)
  | last w some inner =>
      obtain ⟨d, w', rfl⟩ := List.exists_cons_of_ne_nil some
      refine wcInitLoop_stuck here (text d List.mem_cons_self) (fun s scanned => (scanLoop_runs_off (fun e member => ?_) s scanned).elim) r
      rw [here] at member
      rcases List.mem_append.mp member with word | zero
      · exact inner e word
      · obtain rfl := List.mem_singleton.mp zero
        rfl
  | word w c rest some inner space ih =>
      have here : memory.drop i = w ++ c :: (rest ++ [0]) := by rw [here, List.append_assoc, List.cons_append]
      by_cases short : (w.length : Int) < INT_MAX
      · cases fuel with
        | zero =>
            intro ran
            cases ran
        | succ fuel =>
            have next : memory.drop (i + w.length + 1) = rest ++ [0] := by
              rw [Nat.add_assoc, ← List.drop_drop, here, ← List.drop_drop, List.drop_left]
              rfl
            rw [wcInitLoop_word here some (fun d member => text d (by simp [member])) inner space short]
            cases lifted (insertWord w w.length wc) with
            | error e =>
                intro ran
                cases ran
            | ok wc₁ =>
                rw [Result.ok_bind]
                exact ih next (fun d member => text d (by simp [member])) fun scannable =>
                  bad ((scannable_word some inner space).mpr ⟨short, scannable⟩)
      · obtain ⟨d, w', rfl⟩ := List.exists_cons_of_ne_nil some
        refine wcInitLoop_stuck here (text d (by simp)) (fun s scanned => ?_) r
        rcases Int.lt_or_eq_of_le (Int.not_lt.mp short) with long | full
        · exact (scanLoop_overflows here inner (by omega) (by decide) s scanned).elim
        · have enough : (d :: w').length < memory.length + 1 := by
            have total := congrArg List.length here
            rw [List.length_drop, List.length_append] at total
            omega
          obtain rfl := Except.ok.inj ((scanLoop_stops here inner space (by omega) enough).symm.trans scanned)
          exact (Int.zero_add _).trans full.symm

end Scanning

def ScansWords (text : List UInt8) : Prop := ∃ wc, wcInit (text ++ [0]) text.length = .ok (words isspace text, wc)

theorem wcInit_inserts {text : List UInt8} (some : ∀ c ∈ text, c ≠ 0) (scannable : Scannable text) :
    ∃ wc, insertWords (words isspace text) (emptyTable text.length) = .ok wc ∧
      wcInit (text ++ [0]) text.length = .ok (words isspace text, wc) := by
  obtain ⟨wc, -, inserted, -⟩ := insertWords_tallied (tallied_empty text.length) (words isspace text)
  refine ⟨wc, inserted, ?_⟩
  exact wcInitLoop_scans rfl some scannable inserted (by simp only [List.length_append]; omega)

theorem scans_words_iff {text : List UInt8} (ascii : ∀ c ∈ text, c ≠ 0 ∧ c < 128) : ScansWords text ↔ Scannable text := by
  have some : ∀ c ∈ text, c ≠ 0 := fun c member => (ascii c member).1
  refine ⟨fun scans => ?_, fun scannable => ?_⟩
  · obtain ⟨wc, ran⟩ := scans
    exact not_not.mp fun bad => wcInitLoop_fails rfl some bad _ ran
  · obtain ⟨wc, -, ran⟩ := wcInit_inserts some scannable
    exact ⟨wc, ran⟩

theorem scans_words_iff_line : ScansWords [97, 98, 32, 97, 10] ↔ Scannable [97, 98, 32, 97, 10] := scans_words_iff (by simp)

/-- A text of one letter. -/
theorem scans_words_fails : ¬ ∀ text : List UInt8, text ≠ [] → (∀ c ∈ text, c ≠ 0 ∧ c < 128) → ScansWords text := by
  intro claim
  obtain ⟨wc, ran⟩ := claim [97] (by decide) (by simp)
  have outside : wcInit ([97] ++ [0]) [97].length = .error .outside := rfl
  cases outside.symm.trans ran

end OperatingSystem.Warmup
