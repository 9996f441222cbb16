import OperatingSystem.Library.Result
import OperatingSystem.Webserver.Rio

namespace OperatingSystem.Webserver

open Bytes

def MAXLINE : Nat := 8192

def emptyLine : List UInt8 := [13, 10]

def holdsString (buf : Memory) (str : List UInt8) : Bool := slice buf 0 (str.length + 1) == str ++ [0]

/-- Why a call has not come back: it is still running, the process ended, or it wrote behind its buffer. -/
inductive Pending
  | running | exited | overflow | overrun
  deriving DecidableEq, Repr

/-- `Rio_readlineb` into `buf[MAXLINE]`, which is at the start of the memory `buf`. -/
def readlineInto (rp : Rio) (buf : Memory) : Except Pending (Rio × Memory) :=
  match rioReadlineb MAXLINE rp with
  | none => .error .overflow
  | some (rc, stored, rp) =>
      if MAXLINE < stored.length then .error .overrun
      else if rc < 0 then .error .exited
      else .ok (rp, splice buf 0 stored)

def readHeadersLoop : Nat → Rio → Memory → Except Pending (Rio × Memory)
  | 0, _, _ => .error .running
  | rounds + 1, rp, buf =>
      if holdsString buf emptyLine then .ok (rp, buf)
      else do
        let (rp, buf) ← readlineInto rp buf
        readHeadersLoop rounds rp buf

def requestReadHeaders (rounds : Nat) (rp : Rio) (buf : Memory) : Except Pending (Rio × Memory) := do
  let (rp, buf) ← readlineInto rp buf
  readHeadersLoop rounds rp buf

/-- Cut into lines of at most `MAXLINE` bytes, the stream has an empty one, and those before it leave room for the byte that
ends them. -/
inductive HasEmptyLine : List UInt8 → Prop
  | here {stream : List UInt8} : cut MAXLINE stream = emptyLine → HasEmptyLine stream
  | later {stream : List UInt8} : stream ≠ [] → (cut MAXLINE stream).length < MAXLINE →
      HasEmptyLine (stream.drop (cut MAXLINE stream).length) → HasEmptyLine stream

variable {rp : Rio} {buf : Memory}

def nextLine (stream : List UInt8) (buf : Memory) : Memory := if stream = [] then buf else splice buf 0 (cut MAXLINE stream ++ [0])

theorem readlineInto_eq (sound : rp.Sound) (buf : Memory) :
    ∃ rp', rp'.Sound ∧ rp'.stream = rp.stream.drop (cut MAXLINE rp.stream).length ∧
      readlineInto rp buf = if (cut MAXLINE rp.stream).length < MAXLINE then .ok (rp', nextLine rp.stream buf) else .error .overrun := by
  have short := (isPiece_cut MAXLINE rp.stream).short
  have small : ((cut MAXLINE rp.stream).length : Int) ≤ INT_MAX := by
    unfold MAXLINE at short
    unfold INT_MAX MAXLINE
    omega
  obtain ⟨rp', sound', rest, ran⟩ := rioReadlineb_fits sound small
  refine ⟨rp', sound', rest, ?_⟩
  have positive : 0 < MAXLINE := by decide
  have none : cut MAXLINE [] = [] := rfl
  rw [readlineInto, ran]
  dsimp only
  rw [nextLine]
  by_cases ended : rp.stream = []
  · have untouched : (if 0 < MAXLINE ∧ ([] : List UInt8) = [] then [] else [(0 : UInt8)]) = [] := if_pos ⟨positive, rfl⟩
    rw [ended, none, untouched, List.append_nil, splice_nil]
    rfl
  · have written : (if 0 < MAXLINE ∧ rp.stream = [] then [] else [(0 : UInt8)]) = [0] := if_neg fun both => ended both.2
    rw [written, if_neg ended, List.length_append, List.length_singleton]
    by_cases room : (cut MAXLINE rp.stream).length < MAXLINE
    · rw [if_neg (by omega), if_neg (by omega), if_pos room]
    · rw [if_pos (by omega), if_neg room]

theorem holdsString_emptyLine (buf : Memory) : holdsString buf emptyLine = true ↔ [buf 0, buf 1, buf 2] = [13, 10, 0] := beq_iff_eq

theorem holdsString_iff {limit : Nat} {stream piece rest : List UInt8} (buf : Memory) (cutOff : IsPiece limit stream piece rest) (some : piece ≠ []) :
    holdsString (splice buf 0 (piece ++ [0])) emptyLine = true ↔ piece = emptyLine := by
  rw [holdsString_emptyLine]
  match piece with
  | [] => exact (some rfl).elim
  | [a] =>
      have second : splice buf 0 ([a] ++ [0]) 1 = 0 := rfl
      rw [second]
      refine iff_of_false (fun same => ?_) fun same => ?_
      · exact absurd (List.cons.inj (List.cons.inj same).2).1 (by decide)
      · have lengths := congrArg List.length same
        simp [emptyLine] at lengths
  | [a, b] =>
      change [a, b, 0] = [13, 10, 0] ↔ [a, b] = [13, 10]
      simp
  | a :: b :: c :: more =>
      change [a, b, c] = [13, 10, 0] ↔ a :: b :: c :: more = [13, 10]
      have inner : b ≠ newline := cutOff.inner b (by simp [List.dropLast_cons_cons])
      refine iff_of_false (fun same => inner (List.cons.inj (List.cons.inj same).2).1) fun same => ?_
      have lengths := congrArg List.length same
      simp at lengths

theorem HasEmptyLine.short {stream : List UInt8} (has : HasEmptyLine stream) : (cut MAXLINE stream).length < MAXLINE := by
  cases has with
  | here line =>
      rw [line]
      decide
  | later _ short _ => exact short

theorem hasEmptyLine_iff {stream : List UInt8} (some : stream ≠ []) (short : (cut MAXLINE stream).length < MAXLINE) :
    HasEmptyLine stream ↔ cut MAXLINE stream = emptyLine ∨ HasEmptyLine (stream.drop (cut MAXLINE stream).length) := by
  constructor
  · intro has
    cases has with
    | here line => exact .inl line
    | later _ _ rest => exact .inr rest
  · rintro (line | rest)
    · exact .here line
    · exact .later some short rest

theorem hasEmptyLine_read {rest : List UInt8} (some : rp.stream ≠ []) (short : (cut MAXLINE rp.stream).length < MAXLINE)
    (behind : rest = rp.stream.drop (cut MAXLINE rp.stream).length) :
    holdsString (nextLine rp.stream buf) emptyLine = true ∨ HasEmptyLine rest ↔ HasEmptyLine rp.stream := by
  have positive : 0 < MAXLINE := by decide
  rw [hasEmptyLine_iff some short, behind, nextLine, if_neg some,
    holdsString_iff buf (isPiece_cut _ _) (mt (cut_eq_nil positive).mp some)]

theorem readHeadersLoop_returned {rounds : Nat} {r : Rio × Memory} (sound : rp.Sound) (ran : readHeadersLoop rounds rp buf = .ok r) :
    holdsString buf emptyLine = true ∨ HasEmptyLine rp.stream := by
  induction rounds generalizing rp buf with
  | zero => cases ran
  | succ rounds ih =>
      rw [readHeadersLoop] at ran
      by_cases holds : holdsString buf emptyLine = true
      · exact .inl holds
      obtain ⟨rp', sound', rest, read⟩ := readlineInto_eq sound buf
      by_cases short : (cut MAXLINE rp.stream).length < MAXLINE
      · rw [if_neg holds, read, if_pos short, Result.ok_bind] at ran
        have found := ih sound' ran
        by_cases ended : rp.stream = []
        · rw [rest, nextLine, if_pos ended, ended, List.drop_nil] at found
          rw [ended]
          exact found
        · exact .inr ((hasEmptyLine_read ended short rest).mp found)
      · rw [if_neg holds, read, if_neg short] at ran
        cases ran

theorem readHeadersLoop_held (rp : Rio) (holds : holdsString buf emptyLine = true) : ∃ rounds r, readHeadersLoop rounds rp buf = .ok r :=
  ⟨1, _, if_pos holds⟩

theorem readHeadersLoop_returns {stream : List UInt8} (has : HasEmptyLine stream) (sound : rp.Sound) (same : rp.stream = stream) :
    ∃ rounds r, readHeadersLoop rounds rp buf = .ok r := by
  induction has generalizing rp buf with
  | @here stream line =>
      by_cases first : holdsString buf emptyLine = true
      · exact readHeadersLoop_held rp first
      · obtain ⟨rp', sound', rest, read⟩ := readlineInto_eq sound buf
        have some : rp.stream ≠ [] := by
          intro ended
          rw [same.symm.trans ended] at line
          exact absurd line (by decide)
        have short := (HasEmptyLine.here line).short
        have positive : 0 < MAXLINE := by decide
        have holds : holdsString (nextLine rp.stream buf) emptyLine = true := by
          rw [nextLine, if_neg some]
          exact (holdsString_iff buf (isPiece_cut MAXLINE rp.stream) (mt (cut_eq_nil positive).mp some)).mpr (same ▸ line)
        obtain ⟨rounds, r, ran⟩ := readHeadersLoop_held rp' holds
        refine ⟨rounds + 1, r, ?_⟩
        rw [readHeadersLoop, if_neg first, read, if_pos (same ▸ short)]
        exact ran
  | @later stream some short rest ih =>
      by_cases first : holdsString buf emptyLine = true
      · exact readHeadersLoop_held rp first
      · obtain ⟨rp', sound', behind, read⟩ := readlineInto_eq sound buf
        obtain ⟨rounds, r, ran⟩ := @ih rp' (nextLine rp.stream buf) sound' (behind.trans (by rw [same]))
        refine ⟨rounds + 1, r, ?_⟩
        rw [readHeadersLoop, if_neg first, read, if_pos (same ▸ short)]
        exact ran

theorem requestReadHeaders_eq (sound : rp.Sound) (buf : Memory) :
    ∃ rp', rp'.Sound ∧ rp'.stream = rp.stream.drop (cut MAXLINE rp.stream).length ∧ ∀ rounds, requestReadHeaders rounds rp buf =
      if (cut MAXLINE rp.stream).length < MAXLINE then readHeadersLoop rounds rp' (nextLine rp.stream buf) else .error .overrun := by
  obtain ⟨rp', sound', rest, read⟩ := readlineInto_eq sound buf
  refine ⟨rp', sound', rest, fun rounds => ?_⟩
  rw [requestReadHeaders, read]
  split_ifs
  · rfl
  · rfl

theorem not_hasEmptyLine_nil : ¬ HasEmptyLine [] := by
  intro has
  cases has with
  | here line => exact absurd line (by decide)
  | later some _ _ => exact some rfl

/-- `request_read_headers` comes back when the rest of the stream has an empty line behind lines that fit its buffer, or when
nothing is left to read and the buffer happens to hold one before anything is written to it. -/
theorem request_read_headers_returns_iff (sound : rp.Sound) (buf : Memory) :
    (∃ rounds r, requestReadHeaders rounds rp buf = .ok r) ↔
      HasEmptyLine rp.stream ∨ rp.stream = [] ∧ holdsString buf emptyLine = true := by
  obtain ⟨rp', sound', rest, entered⟩ := requestReadHeaders_eq sound buf
  by_cases short : (cut MAXLINE rp.stream).length < MAXLINE
  · simp only [entered, if_pos short]
    by_cases ended : rp.stream = []
    · rw [ended, List.drop_nil] at rest
      rw [nextLine, if_pos ended, ended]
      constructor
      · rintro ⟨rounds, r, ran⟩
        rcases readHeadersLoop_returned sound' ran with holds | has
        · exact .inr ⟨rfl, holds⟩
        · exact .inl (rest ▸ has)
      · rintro (has | ⟨-, holds⟩)
        · exact readHeadersLoop_returns has sound' rest
        · exact readHeadersLoop_held rp' holds
    · rw [or_iff_left fun both => ended both.1, ← hasEmptyLine_read ended short rest]
      constructor
      · rintro ⟨rounds, r, ran⟩
        exact readHeadersLoop_returned sound' ran
      · rintro (holds | has)
        · exact readHeadersLoop_held rp' holds
        · exact readHeadersLoop_returns has sound' rfl
  · simp only [entered, if_neg short]
    refine iff_of_false (fun ran => nomatch ran) ?_
    rintro (has | ⟨ended, -⟩)
    · exact short has.short
    · rw [ended] at short
      exact short (by decide)

/-- A header line, and a blank line that is sent in two parts with an interrupted `read` between them. -/
theorem request_read_headers_returns_blank : ∃ rounds r, requestReadHeaders rounds
    (rioInit [.bytes 65 [58, 13, 10], .bytes 13 [], .interrupted, .bytes 10 [66]] fun _ => 0) (fun _ => 0) = .ok r := by
  refine (request_read_headers_returns_iff (show Rio.Sound _ by unfold Rio.Sound; decide) _).mpr (.inl ?_)
  have header : cut MAXLINE [65, 58, 13, 10, 13, 10, 66] = [65, 58, 13, 10] := by decide
  refine .later (List.cons_ne_nil _ _) ?_ ?_
  · exact header.symm ▸ (by decide)
  · exact header.symm ▸ .here (by decide)

/-- A client that sends one header line and closes its side: the line stays in the buffer for ever. -/
theorem request_read_headers_returns_fails :
    ¬ ∀ (rp : Rio) (buf : Memory), rp.Sound → ∃ rounds r, requestReadHeaders rounds rp buf = .ok r := by
  intro always
  have sound : (rioInit [.bytes 65 [10]] fun _ => 0).Sound := by
    unfold Rio.Sound
    decide
  obtain ⟨rounds, r, ran⟩ := always (rioInit [.bytes 65 [10]] fun _ => 0) (fun _ => 0) sound
  obtain ⟨rp', sound', rest, entered⟩ := requestReadHeaders_eq sound fun _ => 0
  have stream : (rioInit [.bytes 65 [10]] fun _ => 0).stream = [65, 10] := rfl
  have line : cut MAXLINE [65, 10] = [65, 10] := by decide
  rw [stream, line] at rest entered
  rw [entered, if_pos (by decide)] at ran
  rcases readHeadersLoop_returned sound' ran with holds | has
  · exact absurd holds (by decide)
  · rw [rest] at has
    exact not_hasEmptyLine_nil has

end OperatingSystem.Webserver
