import OperatingSystem.Library.Bytes

/-!
# `common.c`: buffered reading of lines

What a connection delivers is the list of what `read` comes back with, call by call; behind its end every `read` returns 0.
-/

namespace OperatingSystem.Webserver

open Bytes

def RIO_BUFSIZE : Nat := 8192

def INT_MAX : Int := 2147483647

def newline : UInt8 := 10

inductive Arrival
  | bytes (first : UInt8) (more : List UInt8)
  | interrupted
  | failed
  deriving DecidableEq, Repr

/-- `struct rio`; the descriptor is what it still delivers, `rioBufptr` an index into `rioBuf`. -/
structure Rio where
  connection : List Arrival
  rioCnt : Int
  rioBufptr : Nat
  rioBuf : Memory

def rioInit (connection : List Arrival) (rioBuf : Memory) : Rio := ⟨connection, 0, 0, rioBuf⟩

/-- What a `read` leaves of the bytes that arrived together when they are more than it asked for. -/
def leftover : List UInt8 → List Arrival → List Arrival
  | [], rest => rest
  | c :: cs, rest => .bytes c cs :: rest

def refill (rp : Rio) : List Arrival → Option Int × Rio
  | [] => (some 0, { rp with connection := [], rioCnt := 0 })
  | .interrupted :: rest => refill { rp with rioCnt := -1 } rest
  | .failed :: rest => (some (-1), { rp with connection := rest, rioCnt := -1 })
  | .bytes first more :: rest =>
      let got := (first :: more).take RIO_BUFSIZE
      (none, {
        connection := leftover ((first :: more).drop RIO_BUFSIZE) rest
        rioCnt := got.length
        rioBufptr := 0
        rioBuf := splice rp.rioBuf 0 got })

def rioReadb (n : Nat) (rp : Rio) : Int × List UInt8 × Rio :=
  match if rp.rioCnt ≤ 0 then refill rp rp.connection else (none, rp) with
  | (some rc, rp) => (rc, [], rp)
  | (none, rp) =>
      let cnt : Int := if rp.rioCnt < n then rp.rioCnt else n
      (cnt, slice rp.rioBuf rp.rioBufptr cnt.toNat,
        { rp with rioBufptr := rp.rioBufptr + cnt.toNat, rioCnt := rp.rioCnt - cnt })

/-- The loop of `rio_readlineb` with `maxlen - n` rounds to go and `stored` written so far.  Without a value the counter
`n` overflowed. -/
def readlineLoop : Nat → Rio → Int → List UInt8 → Option (Int × List UInt8 × Rio)
  | 0, rp, n, stored => some (n, stored ++ [0], rp)
  | rounds + 1, rp, n, stored =>
      match rioReadb 1 rp with
      | (1, c, rp) =>
          if n = INT_MAX then none
          else if c = [newline] then some (n + 1, stored ++ c ++ [0], rp)
          else readlineLoop rounds rp (n + 1) (stored ++ c)
      | (0, _, rp) => if n = 0 then some (0, stored, rp) else some (n, stored ++ [0], rp)
      | (_, _, rp) => some (-1, stored, rp)

def rioReadlineb (maxlen : Nat) (rp : Rio) : Option (Int × List UInt8 × Rio) := readlineLoop maxlen rp 0 []

section Stream

def delivered : List Arrival → List UInt8
  | [] => []
  | .bytes first more :: rest => first :: more ++ delivered rest
  | .interrupted :: rest | .failed :: rest => delivered rest

def Rio.stream (rp : Rio) : List UInt8 := slice rp.rioBuf rp.rioBufptr rp.rioCnt.toNat ++ delivered rp.connection

def Rio.Sound (rp : Rio) : Prop := .failed ∉ rp.connection

variable {rp rp' : Rio}

@[simp] theorem stream_rioInit (connection : List Arrival) (rioBuf : Memory) : (rioInit connection rioBuf).stream = delivered connection := rfl

theorem delivered_leftover (bytes : List UInt8) (rest : List Arrival) : delivered (leftover bytes rest) = bytes ++ delivered rest := by
  cases bytes <;> rfl

theorem failed_leftover {bytes : List UInt8} {rest : List Arrival} (sound : .failed ∉ rest) : .failed ∉ leftover bytes rest := by
  cases bytes <;> simp [leftover, sound]

/-- A refill loses nothing: the stream stays, and the function returns from inside it only at its end. -/
theorem refill_stream {connection : List Arrival} (sound : .failed ∉ connection) :
    (delivered connection = [] ∧ ∃ rp', refill rp connection = (some 0, rp') ∧ rp'.Sound ∧ rp'.stream = []) ∨
    ∃ rp', refill rp connection = (none, rp') ∧ rp'.Sound ∧ 0 < rp'.rioCnt ∧ rp'.stream = delivered connection := by
  induction connection generalizing rp with
  | nil => exact .inl ⟨rfl, _, rfl, List.not_mem_nil, rfl⟩
  | cons arrival rest ih =>
      have behind : .failed ∉ rest := fun member => sound (List.mem_cons_of_mem arrival member)
      cases arrival with
      | failed => exact (sound List.mem_cons_self).elim
      | interrupted => exact ih behind
      | bytes first more =>
          refine .inr ⟨_, rfl, failed_leftover behind, ?_, ?_⟩
          · simp [RIO_BUFSIZE]
          · unfold Rio.stream
            rw [delivered_leftover, Int.toNat_natCast, slice_splice_self, ← List.append_assoc, List.take_append_drop]
            rfl

def Rio.taken (rp : Rio) : Rio := { rp with rioBufptr := rp.rioBufptr + 1, rioCnt := rp.rioCnt - 1 }

theorem stream_taken (some : 0 < rp.rioCnt) : rp.stream = rp.rioBuf rp.rioBufptr :: rp.taken.stream := by
  have count : rp.rioCnt.toNat = 1 + (rp.rioCnt - 1).toNat := by omega
  unfold Rio.stream Rio.taken
  rw [count, slice_add]
  rfl

theorem rioReadb_held (some : 0 < rp.rioCnt) : rioReadb 1 rp = (1, [rp.rioBuf rp.rioBufptr], rp.taken) := by
  have least : ¬ rp.rioCnt < (1 : Nat) := by omega
  unfold rioReadb
  rw [if_neg (by omega)]
  dsimp only
  rw [if_neg least]
  rfl

theorem rioReadb_one (sound : rp.Sound) :
    (rp.stream = [] ∧ ∃ rp', rioReadb 1 rp = (0, [], rp') ∧ rp'.Sound ∧ rp'.stream = []) ∨
    ∃ c rp', rioReadb 1 rp = (1, [c], rp') ∧ rp'.Sound ∧ rp.stream = c :: rp'.stream := by
  by_cases held : 0 < rp.rioCnt
  · exact .inr ⟨_, _, rioReadb_held held, sound, stream_taken held⟩
  · have empty : rp.stream = delivered rp.connection := by
      unfold Rio.stream
      rw [Int.toNat_of_nonpos (by omega)]
      rfl
    rcases @refill_stream rp _ sound with ⟨ended, rp', filled, sound', rest⟩ | ⟨rp', filled, sound', some, same⟩
    · refine .inl ⟨empty.trans ended, rp', ?_, sound', rest⟩
      unfold rioReadb
      rw [if_pos (by omega), filled]
    · have copied : rioReadb 1 rp = rioReadb 1 rp' := by
        unfold rioReadb
        rw [if_pos (by omega), filled, if_neg (by omega)]
      refine .inr ⟨_, _, copied.trans (rioReadb_held some), sound', ?_⟩
      rw [empty, ← same, stream_taken some]

end Stream

section Lines

def cut : Nat → List UInt8 → List UInt8
  | 0, _ => []
  | _ + 1, [] => []
  | limit + 1, c :: cs => if c = newline then [c] else c :: cut limit cs

structure IsPiece (limit : Nat) (stream piece rest : List UInt8) : Prop where
  whole : piece ++ rest = stream
  inner : ∀ c ∈ piece.dropLast, c ≠ newline
  short : piece.length ≤ limit
  ends : piece.getLast? = some newline ∨ piece.length = limit ∨ rest = []

variable {limit : Nat} {stream : List UInt8}

theorem isPiece_cut (limit : Nat) (stream : List UInt8) : IsPiece limit stream (cut limit stream) (stream.drop (cut limit stream).length) := by
  induction limit generalizing stream with
  | zero => exact ⟨rfl, by simp [cut], Nat.le_refl _, .inr (.inl rfl)⟩
  | succ limit ih =>
      cases stream with
      | nil => exact ⟨rfl, by simp [cut], Nat.zero_le _, .inr (.inr rfl)⟩
      | cons c cs =>
          by_cases line : c = newline
          · simp only [cut, if_pos line]
            exact ⟨rfl, by simp, Nat.succ_le_succ (Nat.zero_le _), .inl (by rw [line]; rfl)⟩
          · have piece := ih cs
            simp only [cut, if_neg line]
            refine ⟨congrArg (c :: ·) piece.whole, ?_, Nat.succ_le_succ piece.short, ?_⟩
            · cases rest : cut limit cs with
              | nil => simp
              | cons d ds =>
                  rw [List.dropLast_cons_cons, ← rest]
                  exact List.forall_mem_cons.mpr ⟨line, piece.inner⟩
            · cases rest : cut limit cs with
              | nil =>
                  have ends := piece.ends
                  rw [rest] at ends
                  rcases ends with last | full | empty
                  · cases last
                  · exact .inr (.inl (congrArg Nat.succ full))
                  · exact .inr (.inr empty)
              | cons d ds =>
                  have ends := piece.ends
                  rw [rest] at ends
                  exact ends.imp id (Or.imp (congrArg Nat.succ) id)

variable {rp : Rio}

theorem readlineLoop_fits {rounds : Nat} {n : Int} {stored : List UInt8} (sound : rp.Sound) (nonneg : 0 ≤ n)
    (fits : n + (cut rounds rp.stream).length ≤ INT_MAX) :
    ∃ rp', rp'.Sound ∧ rp'.stream = rp.stream.drop (cut rounds rp.stream).length ∧
      readlineLoop rounds rp n stored = some (n + (cut rounds rp.stream).length,
        stored ++ cut rounds rp.stream ++ (if n = 0 ∧ 0 < rounds ∧ rp.stream = [] then [] else [0]), rp') := by
  induction rounds generalizing rp n stored with
  | zero => exact ⟨rp, sound, rfl, by simp [cut, readlineLoop]⟩
  | succ rounds ih =>
      rcases rioReadb_one sound with ⟨ended, rp', read, sound', rest⟩ | ⟨c, rp', read, sound', next⟩
      · refine ⟨rp', sound', by rw [rest, ended]; rfl, ?_⟩
        rw [ended, readlineLoop, read]
        by_cases first : n = 0 <;> simp [first, cut]
      · rw [next] at fits ⊢
        rw [readlineLoop, read]
        by_cases line : c = newline
        · simp only [cut, if_pos line, List.length_singleton] at fits ⊢
          refine ⟨rp', sound', rfl, ?_⟩
          rw [if_neg (by omega), if_pos (by rw [line]), if_neg (by simp)]
          rfl
        · simp only [cut, if_neg line, List.length_cons, Nat.cast_succ] at fits ⊢
          have more : (n + 1) + ((cut rounds rp'.stream).length : Int) ≤ INT_MAX := by omega
          obtain ⟨rp'', sound'', stream, ran⟩ := @ih rp' (n + 1) (stored ++ [c]) sound' (by omega) more
          refine ⟨rp'', sound'', stream, ?_⟩
          rw [if_neg (by omega), if_neg (by simpa using line), ran, if_neg (by omega), if_neg (by simp)]
          simp only [List.append_assoc, List.cons_append]
          congr 2
          omega

theorem readlineLoop_overflows {rounds : Nat} {n : Int} {stored : List UInt8} (sound : rp.Sound) (small : n ≤ INT_MAX)
    (long : INT_MAX < n + (cut rounds rp.stream).length) : readlineLoop rounds rp n stored = none := by
  induction rounds generalizing rp n stored with
  | zero =>
      simp only [cut, List.length_nil, Nat.cast_zero] at long
      omega
  | succ rounds ih =>
      rcases rioReadb_one sound with ⟨ended, -⟩ | ⟨c, rp', read, sound', next⟩
      · simp only [ended, cut, List.length_nil, Nat.cast_zero] at long
        omega
      · rw [next] at long
        rw [readlineLoop, read]
        by_cases full : n = INT_MAX
        · exact if_pos full
        · by_cases line : c = newline
          · simp only [cut, if_pos line, List.length_singleton, Nat.cast_one] at long
            omega
          · simp only [cut, if_neg line, List.length_cons, Nat.cast_succ] at long
            exact (if_neg full).trans ((if_neg (by simpa using line)).trans (ih sound' (by omega) (by omega)))

theorem cut_eq_nil (positive : 0 < limit) : cut limit stream = [] ↔ stream = [] := by
  obtain ⟨limit, rfl⟩ := Nat.exists_eq_succ_of_ne_zero positive.ne'
  cases stream with
  | nil => exact iff_of_true rfl rfl
  | cons c cs =>
      refine iff_of_false ?_ (List.cons_ne_nil c cs)
      unfold cut
      split <;> exact List.cons_ne_nil _ _

end Lines

section Calls

/-- What a call of `rio_readlineb` owes its caller: the next piece of the stream, its length, and no more than `maxlen` bytes
stored. -/
def Delivers (maxlen : Nat) (stream : List UInt8) (rc : Int) (stored rest : List UInt8) : Prop :=
  ∃ piece, IsPiece maxlen stream piece rest ∧ rc = piece.length ∧ stored = (if piece = [] then [] else piece ++ [0]) ∧
    stored.length ≤ maxlen

def Fits (maxlen : Nat) (stream : List UInt8) : Prop :=
  (cut maxlen stream).length < maxlen ∧ ((cut maxlen stream).length : Int) ≤ INT_MAX

def DeliversAll : List Nat → Rio → Prop
  | [], _ => True
  | maxlen :: more, rp => ∃ rc stored rp', rioReadlineb maxlen rp = some (rc, stored, rp') ∧
      Delivers maxlen rp.stream rc stored rp'.stream ∧ DeliversAll more rp'

def FitsAll : List Nat → List UInt8 → Prop
  | [], _ => True
  | maxlen :: more, stream => Fits maxlen stream ∧ FitsAll more (stream.drop (cut maxlen stream).length)

instance (maxlen : Nat) (stream : List UInt8) : Decidable (Fits maxlen stream) := by
  unfold Fits
  infer_instance

instance decidableFitsAll : (maxlens : List Nat) → (stream : List UInt8) → Decidable (FitsAll maxlens stream)
  | [], _ => .isTrue trivial
  | _ :: more, stream =>
      have := decidableFitsAll more
      inferInstanceAs (Decidable (Fits _ stream ∧ FitsAll more _))

variable {rp rp' : Rio} {maxlen : Nat}

theorem rioReadlineb_fits (sound : rp.Sound) (small : ((cut maxlen rp.stream).length : Int) ≤ INT_MAX) :
    ∃ rp', rp'.Sound ∧ rp'.stream = rp.stream.drop (cut maxlen rp.stream).length ∧
      rioReadlineb maxlen rp = some (((cut maxlen rp.stream).length : Int),
        cut maxlen rp.stream ++ (if 0 < maxlen ∧ rp.stream = [] then [] else [0]), rp') := by
  have fits : (0 : Int) + (cut maxlen rp.stream).length ≤ INT_MAX := by omega
  obtain ⟨rp', sound', rest, ran⟩ := @readlineLoop_fits rp maxlen 0 [] sound le_rfl fits
  refine ⟨rp', sound', rest, ?_⟩
  rw [rioReadlineb, ran]
  simp

theorem rioReadlineb_small {rc : Int} {stored : List UInt8} (sound : rp.Sound) (ran : rioReadlineb maxlen rp = some (rc, stored, rp')) :
    ((cut maxlen rp.stream).length : Int) ≤ INT_MAX := by
  by_contra long
  rw [rioReadlineb, readlineLoop_overflows sound (by decide) (by omega)] at ran
  cases ran

theorem delivers_of_fits (sound : rp.Sound) (fits : Fits maxlen rp.stream) :
    ∃ rc stored rp', rioReadlineb maxlen rp = some (rc, stored, rp') ∧ Delivers maxlen rp.stream rc stored rp'.stream := by
  obtain ⟨rp', -, rest, ran⟩ := rioReadlineb_fits sound fits.2
  have positive : 0 < maxlen := Nat.zero_lt_of_lt fits.1
  refine ⟨_, _, rp', ran, cut maxlen rp.stream, rest ▸ isPiece_cut maxlen rp.stream, rfl, ?_, ?_⟩
  · by_cases ended : rp.stream = []
    · rw [if_pos ⟨positive, ended⟩, if_pos ((cut_eq_nil positive).mpr ended), List.append_nil, (cut_eq_nil positive).mpr ended]
    · rw [if_neg fun both => ended both.2, if_neg (mt (cut_eq_nil positive).mp ended)]
  · have room := fits.1
    split <;> simp <;> omega

theorem fits_of_delivers {rc : Int} {stored : List UInt8} (sound : rp.Sound) (ran : rioReadlineb maxlen rp = some (rc, stored, rp'))
    (delivers : Delivers maxlen rp.stream rc stored rp'.stream) :
    Fits maxlen rp.stream ∧ rp'.Sound ∧ rp'.stream = rp.stream.drop (cut maxlen rp.stream).length := by
  have small := rioReadlineb_small sound ran
  obtain ⟨rp'', sound'', rest, ran'⟩ := rioReadlineb_fits sound small
  obtain ⟨rfl, rfl, rfl⟩ := Prod.mk.inj (Option.some.inj (ran'.symm.trans ran)) |>.imp_right Prod.mk.inj
  refine ⟨⟨?_, small⟩, sound'', rest⟩
  obtain ⟨-, -, -, -, room⟩ := delivers
  by_cases ended : 0 < maxlen ∧ rp.stream = []
  · rw [(cut_eq_nil ended.1).mpr ended.2]
    exact ended.1
  · rw [if_neg ended, List.length_append, List.length_singleton] at room
    exact room

theorem deliversAll_iff (maxlens : List Nat) (sound : rp.Sound) : DeliversAll maxlens rp ↔ FitsAll maxlens rp.stream := by
  induction maxlens generalizing rp with
  | nil => exact Iff.rfl
  | cons maxlen more ih =>
      constructor
      · rintro ⟨rc, stored, rp', ran, delivers, after⟩
        obtain ⟨fits, sound', rest⟩ := fits_of_delivers sound ran delivers
        exact ⟨fits, rest ▸ (ih sound').mp after⟩
      · rintro ⟨fits, after⟩
        obtain ⟨rc, stored, rp', ran, delivers⟩ := delivers_of_fits sound fits
        obtain ⟨-, sound', rest⟩ := fits_of_delivers sound ran delivers
        exact ⟨rc, stored, rp', ran, delivers, (ih sound').mpr (rest ▸ after)⟩

theorem rio_readlineb_delivers_iff {connection : List Arrival} (sound : .failed ∉ connection) (rioBuf : Memory) (maxlens : List Nat) :
    DeliversAll maxlens (rioInit connection rioBuf) ↔ FitsAll maxlens (delivered connection) :=
  @deliversAll_iff (rioInit connection rioBuf) maxlens sound

/-- A line that comes in two parts, one that the end of the stream ends, and a call behind the end. -/
theorem rio_readlineb_delivers_iff_lines :
    DeliversAll [16, 3, 1] (rioInit [.bytes 65 [66], .interrupted, .bytes 67 [10, 68], .bytes 69 []] fun _ => 0) :=
  (rio_readlineb_delivers_iff (by decide) _ _).mpr (by decide)

/-- A line as long as the limit: its last byte is the last of the buffer, and the byte that ends it goes behind. -/
theorem rio_readlineb_delivers_fails :
    ¬ ∀ connection rioBuf maxlens, .failed ∉ connection → (∀ maxlen ∈ maxlens, 1 ≤ maxlen) →
      DeliversAll maxlens (rioInit connection rioBuf) := by
  intro always
  have sound : .failed ∉ [Arrival.bytes 65 []] := by decide
  have all := always [.bytes 65 []] (fun _ => 0) [1] sound (by decide)
  have fits := (@deliversAll_iff (rioInit [.bytes 65 []] fun _ => 0) [1] sound).mp all
  exact absurd fits.1.1 (by decide)

end Calls

end OperatingSystem.Webserver
