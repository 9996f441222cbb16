import OperatingSystem.Fs.Dir
import OperatingSystem.Library.Words

/-!
# The command line of `testfs`

How `main` and `parse_command` of `testfs.c` take a line apart.  A string is its bytes before the NUL, and
`NULL` is `none`.
-/

namespace OperatingSystem.Fs

open Words

abbrev MAX_ARGS : Nat := 6

/-- Entry `j` of `cmd`; no command of `cmdtable` leads to an index above `MAX_ARGS`. -/
structure Context where
  nargs : Nat
  cmd : Nat → Option Name

def ascii (string : List Char) : Name := string.map fun c => c.toNat.toUInt8

/-- The delimiters `" \t\r\n"` and `"\r\n"`. -/
def blanks : List UInt8 := [32, 9, 13, 10]
def lineEnds : List UInt8 := [13, 10]

/-- The token and the `save` pointer.  Without a string it follows the `save` pointer, which may be `NULL`. -/
def strtok_r (str : Option Name) (delim : List UInt8) (save : Option Name) : Except Fault (Option Name × Option Name) :=
  match str <|> save with
  | none => .error .nullDereference
  | some str =>
      match takeWord delim.contains str with
      | none => .ok (none, some [])
      | some (token, rest) => .ok (some token, some rest)

structure Cmd where
  name : Name
  max_args : Nat
  deriving DecidableEq

def cmdtable : List Cmd :=
  [⟨ascii ['h', 'e', 'l', 'p'], 1⟩, ⟨ascii ['c', 'd'], 2⟩, ⟨ascii ['p', 'w', 'd'], 1⟩, ⟨ascii ['l', 's'], 2⟩,
    ⟨ascii ['l', 's', 'r'], 2⟩, ⟨ascii ['c', 'r', 'e', 'a', 't', 'e'], 2⟩, ⟨ascii ['s', 't', 'a', 't'], 2⟩,
    ⟨ascii ['r', 'm'], 2⟩, ⟨ascii ['m', 'k', 'd', 'i', 'r'], 2⟩, ⟨ascii ['r', 'e', 'a', 'd'], 4⟩,
    ⟨ascii ['w', 'r', 'i', 't', 'e'], 4⟩, ⟨ascii ['f', 's', 's', 't', 'a', 't'], 1⟩, ⟨ascii ['q', 'u', 'i', 't'], 1⟩]

structure Scan where
  j : Nat
  cmd : Nat → Option Name
  args : Option Name
  save : Option Name

/-- The loop, with `left` for `max_args - j`.  `args` is cleared in the body only. -/
def readTokens : Nat → Scan → Except Fault Scan
  | 0, s => .ok s
  | left + 1, s => do
      let (token, save) ← strtok_r s.args blanks s.save
      let s := { s with cmd := Function.update s.cmd s.j token, save }
      if token.isSome then readTokens left { s with j := s.j + 1, args := none } else return s

/-- What is behind the loop.  When the last token is there, the entry behind it is not cleared. -/
def closeArguments (s : Scan) (token : Option Name) : Context :=
  let cmd := Function.update s.cmd s.j token
  let nargs := if token.isSome then s.j + 1 else s.j
  { nargs, cmd := fun j => if nargs < j ∧ j ≤ MAX_ARGS then none else cmd j }

def parse_command (max_args : Nat) (c : Context) (name : Name) (args : Option Name) : Except Fault Context := do
  let s ← readTokens (max_args - 1) ⟨1, Function.update c.cmd 0 (some name), args, none⟩
  let (token, _) ← strtok_r s.args lineEnds s.save
  return closeArguments s token

def mainTokens (line : Name) : Except Fault (Option Name × Option Name) := do
  let (cname, save) ← strtok_r (some line) blanks none
  let (pargs, _) ← strtok_r none lineEnds save
  return (cname, pargs)

def tokens (args : Option Name) : List Name := words blanks.contains (args.getD [])

section Tokens

variable {str token rest : Name} {args save save' : Option Name} {delim : List UInt8}

theorem strtok_r_none (here : (args <|> save) = some str) (none : takeWord delim.contains str = none) :
    strtok_r args delim save = .ok (Option.none, some []) := by
  simp only [strtok_r, here, none]

theorem strtok_r_some (here : (args <|> save) = some str) (taken : takeWord delim.contains str = some (token, rest)) :
    strtok_r args delim save = .ok (some token, some rest) := by
  simp only [strtok_r, here, taken]

theorem strtok_r_mem (ran : strtok_r args delim save = .ok (some str, save')) : str ≠ [] ∧ ∀ b ∈ str, b ∉ delim := by
  unfold strtok_r at ran
  split at ran
  · cases ran
  · split at ran
    · cases ran
    · rename_i whole _ token rest taken
      obtain rfl := Option.some.inj (Prod.mk.inj (Except.ok.inj ran)).1
      obtain ⟨s, tail, -, -, some, none, -⟩ := takeWord_shape taken
      exact ⟨some, by simpa using none⟩

theorem strtok_r_whole (here : (args <|> save) = some str) (some : str ≠ []) (none : ∀ b ∈ str, b ∉ delim) :
    ∃ save', strtok_r args delim save = .ok (Option.some str, save') := by
  cases taken : takeWord delim.contains str with
  | none =>
      obtain ⟨b, member⟩ := List.exists_mem_of_ne_nil str some
      have inside := takeWord_eq_none.mp taken b member
      exact absurd (by simpa using inside) (none b member)
  | some found =>
      obtain ⟨token, rest⟩ := found
      refine ⟨Option.some rest, ?_⟩
      rw [strtok_r_some here taken]
      obtain ⟨s, tail, shape, separators, -, -, ends⟩ := takeWord_shape taken
      have first : s = [] := by
        apply List.eq_nil_iff_forall_not_mem.mpr
        intro b member
        exact none b (by simp [shape, member]) (by simpa using separators b member)
      rcases ends with ⟨rfl, -⟩ | ⟨b, inside, rfl⟩
      · simp [shape, first]
      · exact absurd (by simpa using inside) (none b (by simp [shape]))

theorem mainTokens_args {line name str : Name} (taken : mainTokens line = .ok (some name, some str)) :
    str ≠ [] ∧ ∀ b ∈ str, b ∉ lineEnds := by
  obtain ⟨⟨cname, save⟩, -, taken⟩ := Result.bind_eq_ok.mp taken
  obtain ⟨⟨pargs, save'⟩, rest, taken⟩ := Result.bind_eq_ok.mp taken
  obtain ⟨-, rfl⟩ := Prod.mk.inj (Except.ok.inj taken)
  exact strtok_r_mem rest

end Tokens

section Loop

variable {str : Name} {left : Nat} {s : Scan}

structure Reads (str : Name) (left : Nat) (s s' : Scan) : Prop where
  j : s'.j = s.j + min left (words blanks.contains str).length
  cmd : ∀ i, s'.cmd i = if s.j ≤ i ∧ i < s.j + min left ((words blanks.contains str).length + 1)
    then (words blanks.contains str)[i - s.j]? else s.cmd i
  exhausted : (words blanks.contains str).length < left →
    s'.args = (if words blanks.contains str = [] then s.args else none) ∧ s'.save = some []
  more : 0 < left → left ≤ (words blanks.contains str).length → s'.args = none ∧ ∃ rest, s'.save = some rest ∧
    words blanks.contains rest = (words blanks.contains str).drop left ∧ (∀ b ∈ rest, b ∈ str) ∧
      (left = (words blanks.contains str).length → rest.length = trailing blanks.contains str - 1)

theorem readTokens_reads (here : (s.args <|> s.save) = some str) :
    ∃ s', readTokens left s = .ok s' ∧ Reads str left s s' := by
  induction left generalizing s str with
  | zero =>
      refine ⟨s, rfl, by simp, fun i => ?_, by simp, by simp⟩
      have outside : ¬ (s.j ≤ i ∧ i < s.j) := fun both => absurd both.2 (not_lt.mpr both.1)
      simp [outside]
  | succ left ih =>
      cases taken : takeWord blanks.contains str with
      | none =>
          have empty := words_eq_nil.mpr (takeWord_eq_none.mp taken)
          refine ⟨{ s with cmd := Function.update s.cmd s.j none, save := some [] }, ?_, by simp [empty], fun i => ?_,
            fun _ => by simp [empty], by simp [empty]⟩
          · simp [readTokens, strtok_r_none here taken]
          · simp only [empty, Function.update_apply, List.length_nil, List.getElem?_nil]
            split_ifs <;> first | rfl | omega
      | some found =>
          obtain ⟨token, rest⟩ := found
          have first := words_takeWord taken
          obtain ⟨s', ran, reads⟩ :=
            @ih rest { j := s.j + 1, cmd := Function.update s.cmd s.j (some token), args := none, save := some rest } rfl
          refine ⟨s', ?_, ?_, fun i => ?_, fun short => ?_, fun _ long => ?_⟩
          · simp [readTokens, strtok_r_some here taken, ran]
          · rw [reads.j, first, List.length_cons]
            simp only
            omega
          · rw [reads.cmd, first, List.length_cons]
            simp only [Function.update_apply]
            by_cases start : i = s.j
            · subst start
              simp
            · by_cases inside : s.j + 1 ≤ i ∧ i < s.j + 1 + min left ((words blanks.contains rest).length + 1)
              · rw [if_pos inside, if_pos (by omega), show i - s.j = i - (s.j + 1) + 1 by omega, List.getElem?_cons_succ]
              · rw [if_neg inside, if_neg start, if_neg (by omega)]
          · rw [first] at short ⊢
            obtain ⟨args, save⟩ := reads.exhausted (by simpa using short)
            refine ⟨?_, save⟩
            rw [args, if_neg (List.cons_ne_nil _ _)]
            split_ifs <;> rfl
          · rw [first] at long ⊢
            have subset := takeWord_subset taken
            rcases Nat.eq_zero_or_pos left with rfl | positive
            · obtain rfl := Except.ok.inj ran
              refine ⟨rfl, rest, rfl, by simp, subset, fun last => trailing_last taken ?_⟩
              rw [List.length_cons] at last
              exact List.length_eq_zero_iff.mp (by omega)
            · obtain ⟨args, rest', save, dropped, inside, last⟩ := reads.more positive (by simpa using long)
              refine ⟨args, rest', save, by simpa using dropped, fun b member => subset b (inside b member), fun all => ?_⟩
              have all : left = (words blanks.contains rest).length := by simpa using all
              rw [last all, trailing_more taken]
              intro empty
              rw [empty] at all
              exact absurd all (ne_of_gt positive)

end Loop

structure Parsed (max_args : Nat) (args : Option Name) (c : Context) : Prop where
  few : (tokens args).length < max_args →
    c.nargs = (tokens args).length + 1 ∧ ∀ i, i < (tokens args).length → c.cmd (i + 1) = (tokens args)[i]?
  proper : ∀ token ∈ tokens args, token ≠ [] ∧ ∀ b ∈ token, b ∉ blanks
  many : max_args ≤ (tokens args).length → max_args < c.nargs
  cleared : ∀ j, c.nargs ≤ j → j ≤ MAX_ARGS → c.cmd j = none

def Parses (max_args : Nat) (c : Context) (name : Name) (args : Option Name) : Prop :=
  ∃ c', parse_command max_args c name args = .ok c' ∧ Parsed max_args args c'

/-- The arguments are not only blanks, and no two blanks follow the last one a command takes; when there are too
many, the entry behind them was `NULL` before. -/
def WellSpaced (max_args : Nat) (c : Context) (args : Name) : Prop :=
  if max_args ≤ (tokens (some args)).length then c.cmd (max_args + 1) = none
  else tokens (some args) ≠ [] ∧ ((tokens (some args)).length + 1 = max_args → trailing blanks.contains args ≤ 1)

section Parsing

variable {max_args : Nat} {c : Context} {name : Name} {args : Option Name} {s : Scan}

theorem tokens_proper : ∀ token ∈ tokens args, token ≠ [] ∧ ∀ b ∈ token, b ∉ blanks := by
  intro token member
  obtain ⟨some, none⟩ := mem_words member
  exact ⟨some, by simpa using none⟩

theorem closeArguments_none :
    (closeArguments s none).nargs = s.j ∧ (∀ j, j < s.j → (closeArguments s none).cmd j = s.cmd j) ∧
      ∀ j, s.j ≤ j → j ≤ MAX_ARGS → (closeArguments s none).cmd j = none := by
  simp only [closeArguments, Option.isSome_none, Bool.false_eq_true, if_false, true_and]
  refine ⟨fun j before => ?_, fun j after below => ?_⟩
  · rw [if_neg fun both => absurd before (not_lt.mpr (le_of_lt both.1)), Function.update_of_ne (ne_of_lt before)]
  · by_cases here : j = s.j
    · subst here
      simp
    · rw [if_pos ⟨lt_of_le_of_ne after (Ne.symm here), below⟩]

theorem closeArguments_some {token : Name} :
    (closeArguments s (some token)).nargs = s.j + 1 ∧ ∀ j, s.j < j → j ≤ MAX_ARGS →
      (closeArguments s (some token)).cmd j = if j = s.j + 1 then s.cmd j else none := by
  simp only [closeArguments, Option.isSome_some, if_true, true_and]
  intro j above below
  rw [Function.update_of_ne (ne_of_gt above)]
  by_cases here : j = s.j + 1
  · simp [here]
  · rw [if_neg here, if_pos ⟨by omega, below⟩]

variable (loop : readTokens (max_args - 1) ⟨1, Function.update c.cmd 0 (some name), args, none⟩ = .ok s)
  {token save : Option Name} (last : strtok_r s.args lineEnds s.save = .ok (token, save))
include loop last

theorem parse_command_eq : parse_command max_args c name args = .ok (closeArguments s token) := by
  rw [parse_command, loop, Result.ok_bind, last]
  rfl

theorem parses_iff : Parses max_args c name args ↔ Parsed max_args args (closeArguments s token) := by
  rw [Parses, parse_command_eq loop last]
  exact ⟨fun parsed => Exists.elim parsed fun c' both => Except.ok.inj both.1 ▸ both.2, fun parsed => ⟨_, rfl, parsed⟩⟩

omit loop last in
theorem Parsed.of_none (count : s.j = (tokens args).length + 1) (few : (tokens args).length < max_args)
    (taken : ∀ i, i < (tokens args).length → s.cmd (i + 1) = (tokens args)[i]?) :
    Parsed max_args args (closeArguments s none) := by
  obtain ⟨nargs, kept, cleared⟩ := @closeArguments_none s
  refine ⟨fun _ => ⟨nargs.trans count, fun i inside => ?_⟩, tokens_proper, fun many => absurd few (not_lt.mpr many), ?_⟩
  · rw [kept (i + 1) (by omega)]
    exact taken i inside
  · rw [nargs]
    exact cleared

omit loop last in
theorem not_parsed {token : Name} (count : s.j = (tokens args).length + 1) (few : (tokens args).length < max_args) :
    ¬ Parsed max_args args (closeArguments s (some token)) := by
  intro parsed
  have nargs := (@closeArguments_some s token).1
  rw [(parsed.few few).1] at nargs
  omega

end Parsing

section Commands

variable {max_args : Nat} {c : Context} {name : Name}

theorem not_parses_null : ¬ Parses max_args c name none := by
  rintro ⟨c', ran, -⟩
  obtain ⟨s, loop, ran⟩ := Result.bind_eq_ok.mp ran
  cases more : max_args - 1 with
  | zero =>
      rw [more] at loop
      obtain rfl := Except.ok.inj loop
      cases ran
  | succ left =>
      rw [more] at loop
      cases loop

variable {str : Name} (filled : str ≠ []) (positive : 0 < max_args)
include filled positive

omit filled positive in
theorem words_length_pos {rest : Name} {n : Nat} (dropped : words blanks.contains rest = (tokens (some str)).drop n)
    (more : n < (tokens (some str)).length) : rest ≠ [] := by
  rintro rfl
  have empty : (tokens (some str)).drop n = [] := dropped.symm
  exact absurd (List.drop_eq_nil_iff.mp empty) (not_le.mpr more)

theorem readTokens_left {cmd : Nat → Option Name} {s : Scan} (enough : max_args - 1 ≤ (tokens (some str)).length)
    (loop : readTokens (max_args - 1) ⟨1, cmd, some str, none⟩ = .ok s) :
    ∃ rest, (s.args <|> s.save) = some rest ∧ (∀ b ∈ rest, b ∈ str) ∧
      (rest = [] ↔ (tokens (some str)).length + 1 = max_args ∧ tokens (some str) ≠ [] ∧ trailing blanks.contains str ≤ 1) := by
  rcases Nat.lt_or_ge 1 max_args with several | single
  · obtain ⟨s', ran, reads⟩ := @readTokens_reads str (max_args - 1) ⟨1, cmd, some str, none⟩ rfl
    obtain rfl := Except.ok.inj (loop.symm.trans ran)
    obtain ⟨args, rest, save, dropped, inside, last⟩ := reads.more (by omega) enough
    refine ⟨rest, by rw [args, save]; rfl, inside, ?_⟩
    rcases Nat.lt_or_ge (max_args - 1) (tokens (some str)).length with more | all
    · refine iff_of_false (words_length_pos dropped more) fun right => ?_
      have count := right.1
      omega
    · have all := le_antisymm enough all
      have length := last all
      have some : tokens (some str) ≠ [] := by
        intro empty
        rw [empty] at all
        exact absurd all (Nat.sub_ne_zero_of_lt several)
      rw [← List.length_eq_zero_iff, length, ← all]
      simp only [some, ne_eq, not_false_eq_true, true_and]
      omega
  · obtain rfl : max_args = 1 := le_antisymm single positive
    obtain rfl := Except.ok.inj loop
    refine ⟨str, rfl, fun b member => member, iff_of_false filled fun right => ?_⟩
    exact right.2.1 (List.length_eq_zero_iff.mp (Nat.succ.inj right.1))

variable (oneLine : ∀ b ∈ str, b ∉ lineEnds)
include oneLine

theorem parses_few {s : Scan} (loop : readTokens (max_args - 1) ⟨1, Function.update c.cmd 0 (some name), some str, none⟩ = .ok s)
    (reads : Reads str (max_args - 1) ⟨1, Function.update c.cmd 0 (some name), some str, none⟩ s)
    (short : (tokens (some str)).length < max_args - 1)
    (taken : ∀ i, i < (tokens (some str)).length → s.cmd (i + 1) = (tokens (some str))[i]?) :
    Parses max_args c name (some str) ↔ WellSpaced max_args c str := by
  have j : s.j = 1 + min (max_args - 1) (tokens (some str)).length := reads.j
  have few : (tokens (some str)).length < max_args := by omega
  have count : s.j = (tokens (some str)).length + 1 := by omega
  obtain ⟨args, save⟩ := reads.exhausted short
  rw [WellSpaced, if_neg (not_le.mpr few)]
  by_cases empty : tokens (some str) = []
  · have args : s.args = some str := args.trans (if_pos empty)
    have here : (s.args <|> s.save) = some str := by rw [args]; rfl
    obtain ⟨save', last⟩ := strtok_r_whole here filled oneLine
    rw [parses_iff loop last]
    exact iff_of_false (not_parsed count few) fun spaced => spaced.1 empty
  · have args : s.args = none := args.trans (if_neg empty)
    have last : strtok_r s.args lineEnds s.save = .ok (none, some []) := by
      rw [args, save]
      rfl
    rw [parses_iff loop last]
    refine iff_of_true (.of_none count few taken) ⟨empty, fun all => ?_⟩
    omega

variable (bounded : max_args < MAX_ARGS)
include bounded

omit filled positive oneLine in
theorem parsed_many {s : Scan} {rest : Name} (count : s.j = max_args) (many : max_args ≤ (tokens (some str)).length)
    (stale : s.cmd (max_args + 1) = c.cmd (max_args + 1)) :
    Parsed max_args (some str) (closeArguments s (some rest)) ↔ c.cmd (max_args + 1) = none := by
  obtain ⟨nargs, after⟩ := @closeArguments_some s rest
  rw [count] at nargs after
  have next := after (max_args + 1) (Nat.lt_succ_self max_args) bounded
  rw [if_pos rfl, stale] at next
  rw [← next]
  refine ⟨fun parsed => parsed.cleared _ (le_of_eq nargs) bounded, fun cleared => ⟨fun few => absurd many (not_le.mpr few),
    tokens_proper, fun _ => by omega, fun j above below => ?_⟩⟩
  rcases Nat.lt_or_ge (max_args + 1) j with later | here
  · rw [after j (by omega) below, if_neg (by omega)]
  · obtain rfl : j = max_args + 1 := by omega
    exact cleared

theorem parses_some : Parses max_args c name (some str) ↔ WellSpaced max_args c str := by
  obtain ⟨s, loop, reads⟩ :=
    @readTokens_reads str (max_args - 1) ⟨1, Function.update c.cmd 0 (some name), some str, none⟩ rfl
  have j : s.j = 1 + min (max_args - 1) (tokens (some str)).length := reads.j
  have taken (short : (tokens (some str)).length < max_args) (i : Nat) (inside : i < (tokens (some str)).length) :
      s.cmd (i + 1) = (tokens (some str))[i]? := by
    refine (reads.cmd (i + 1)).trans (if_pos ⟨Nat.le_add_left 1 i, ?_⟩)
    change i + 1 < 1 + min (max_args - 1) ((tokens (some str)).length + 1)
    omega
  rcases Nat.lt_or_ge (tokens (some str)).length (max_args - 1) with short | enough
  · exact parses_few filled positive oneLine loop reads short (taken (by omega))
  have count : s.j = max_args := by omega
  obtain ⟨rest, here, inside, empty⟩ := readTokens_left filled positive enough loop
  by_cases none : rest = []
  · obtain ⟨all, some, spaces⟩ := empty.mp none
    have last : strtok_r s.args lineEnds s.save = .ok (Option.none, Option.some []) :=
      strtok_r_none here (by rw [none]; rfl)
    have few : (tokens (Option.some str)).length < max_args := by omega
    rw [parses_iff loop last, WellSpaced, if_neg (not_le.mpr few)]
    exact iff_of_true (.of_none (by omega) few (taken few)) ⟨some, fun _ => spaces⟩
  · obtain ⟨save', last⟩ := strtok_r_whole here none fun b member => oneLine b (inside b member)
    rw [parses_iff loop last, WellSpaced]
    split_ifs with many
    · refine parsed_many bounded count many ?_
      have initial : Function.update c.cmd 0 (some name) (max_args + 1) = c.cmd (max_args + 1) :=
        Function.update_of_ne (Nat.succ_ne_zero max_args) _ _
      refine (reads.cmd (max_args + 1)).trans ((if_neg ?_).trans initial)
      change ¬ (1 ≤ max_args + 1 ∧ max_args + 1 < 1 + min (max_args - 1) ((tokens (some str)).length + 1))
      omega
    · have few := not_le.mp many
      refine iff_of_false (not_parsed (by omega) few) fun spaced => none (empty.mpr ⟨by omega, spaced.1, ?_⟩)
      exact spaced.2 (by omega)

end Commands

theorem cmdtable_max_args : ∀ cmd ∈ cmdtable, 0 < cmd.max_args ∧ cmd.max_args < MAX_ARGS := by decide

theorem parse_command_iff (line name : Name) (args : Option Name) (taken : mainTokens line = .ok (some name, args))
    (cmd : Cmd) (listed : cmd ∈ cmdtable) (c : Context) :
    Parses cmd.max_args c name args ↔ ∃ str, args = some str ∧ WellSpaced cmd.max_args c str := by
  obtain ⟨positive, bounded⟩ := cmdtable_max_args cmd listed
  cases args with
  | none => exact iff_of_false not_parses_null fun some => Exists.elim some fun str both => nomatch both.1
  | some str =>
      obtain ⟨filled, oneLine⟩ := mainTokens_args taken
      rw [parses_some filled positive oneLine bounded]
      exact ⟨fun spaced => ⟨str, rfl, spaced⟩, fun some => Exists.elim some fun str' both =>
        Option.some.inj both.1 ▸ both.2⟩

def pwd : Name := ascii ['p', 'w', 'd']

def bareLine : Name := pwd ++ [10]
def pwdLine : Name := pwd ++ [32, 32, 10]
def statLine : Name := ascii ['s', 't', 'a', 't'] ++ [32, 102, 10]

theorem parse_command_fails : ⟨pwd, 1⟩ ∈ cmdtable ∧
    (mainTokens pwdLine = .ok (some pwd, some [32]) ∧ tokens (some [32]) = [] ∧
      (∃ c', parse_command 1 ⟨0, fun _ => none⟩ pwd (some [32]) = .ok c' ∧ c'.nargs = 2) ∧
        ¬ Parses 1 ⟨0, fun _ => none⟩ pwd (some [32])) ∧
    (mainTokens bareLine = .ok (some pwd, none) ∧
      parse_command 1 ⟨0, fun _ => none⟩ pwd none = .error .nullDereference) := by
  have ran : parse_command 1 ⟨0, fun _ => none⟩ pwd (some [32]) =
      .ok (closeArguments ⟨1, Function.update (fun _ => none) 0 (some pwd), some [32], none⟩ (some [32])) := rfl
  refine ⟨by decide, ⟨by decide, rfl, ⟨_, ran, rfl⟩, ?_⟩, by decide, rfl⟩
  rintro ⟨c', ran', parsed⟩
  obtain rfl := Except.ok.inj (ran.symm.trans ran')
  exact absurd (parsed.few Nat.one_pos).1 (by decide)

theorem parse_command_iff_stat :
    Parses 2 ⟨0, fun _ => none⟩ (ascii ['s', 't', 'a', 't']) (some [102]) ↔
      ∃ str, some [102] = some str ∧ WellSpaced 2 ⟨0, fun _ => none⟩ str :=
  parse_command_iff statLine (ascii ['s', 't', 'a', 't']) (some [102]) (by decide) ⟨ascii ['s', 't', 'a', 't'], 2⟩ (by decide)
    ⟨0, fun _ => none⟩

end OperatingSystem.Fs
