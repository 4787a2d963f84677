import Mathlib.Data.List.Induction
import Osh.Lib.CString
import Osh.Lib.PartialRun

/-!
# Reading a request line

The loop that reads a client's line, one character at a time, in
`TCPserverSelectHi.c`, `TCPserverForkHi.c` and `TCPserverPthreadsHi.c`. The three have the same
text. What `read` returns is not looked at: where it stores nothing, `tmpchar` keeps the
character of the iteration before, or whatever it held at the start. `clientline` is followed
by other memory, and the indices that `strncat` writes are recorded.

## Main definitions

* `Reading`, `body`, `iteration`: the variables of the loop, its body, and one iteration.
* `chars`: the characters that the iterations see, from the results of `read`.
* `Unfinished`: the loop goes on after these characters.

## Main results

* `exec_afterChars`: the state after a run of the loop, from the characters alone.
* `exists_exec_iff`: how many iterations there are.
-/
namespace Osh.RequestLine
open CString PartialRun

/-- The servers that have the loop. -/
inductive Program where
  | TCPserverSelectHi | TCPserverForkHi | TCPserverPthreadsHi

def MAX_NCHARS : Program → ℕ
  | .TCPserverSelectHi | .TCPserverForkHi | .TCPserverPthreadsHi => 128

/-- `'\n'` -/
def newline : Program → Byte
  | .TCPserverSelectHi | .TCPserverForkHi | .TCPserverPthreadsHi => 10

/-- The local variables. -/
structure Reading where
  /-- The memory from the start of the array on. -/
  clientline : List Byte
  tmpchar : Byte
  eob : Bool
  /-- The indices of `clientline` that have been written. -/
  written : List ℕ

section
variable (p : Program)

/-- The variables before the loop. `tmpchar` is not initialised; `after` is what follows
`clientline` in memory. -/
def start (tmpchar : Byte) (after : List Byte) : Reading where
  clientline := List.replicate (MAX_NCHARS p) 0 ++ after
  tmpchar := tmpchar
  eob := false
  written := []

/-- The condition of the loop. -/
def goesOn (s : Reading) : Bool := !s.eob && decide (strlen s.clientline < MAX_NCHARS p)

/-- The body of the loop. `read` stores a character or nothing. -/
def body (read : Option Byte) (s : Reading) : Reading :=
  let tmpchar := read.getD s.tmpchar
  { clientline := strncat s.clientline [tmpchar] 1
    tmpchar
    eob := tmpchar = newline p
    written := s.written ++ strncatIndices s.clientline [tmpchar] 1 }

def iteration (s : Reading) (read : Option Byte) : Option Reading :=
  if goesOn p s then some (body p read s) else none

end

/-- The values of `tmpchar` after each `read`. -/
def chars (tmpchar : Byte) : List (Option Byte) → List Byte
  | [] => []
  | read :: reads => read.getD tmpchar :: chars (read.getD tmpchar) reads

/-- The characters that `strncat` appends. -/
def nonNul (line : List Byte) : List Byte := line.filter (· ≠ 0)

/-- The loop goes on after these characters: the last is not a newline, and the string is
not too long. -/
def Unfinished (p : Program) (line : List Byte) : Prop :=
  line.getLast? ≠ some (newline p) ∧ (nonNul line).length < MAX_NCHARS p

/-- The variables after the loop has seen these characters. -/
structure AfterChars (p : Program) (line : List Byte) (s : Reading) : Prop where
  clientline : Holds s.clientline (nonNul line)
  eob : s.eob = decide (line.getLast? = some (newline p))
  written_le : ∀ i ∈ s.written, i ≤ (nonNul line).length
  written_last : line ≠ [] → (nonNul line).length ∈ s.written

section
variable {p : Program} {line : List Byte} {s t : Reading} {tmpchar : Byte} {after : List Byte}
  {reads : List (Option Byte)}

theorem MAX_NCHARS_pos : 0 < MAX_NCHARS p := by
  cases p <;> decide

theorem newline_ne_zero : newline p ≠ 0 := by
  cases p <;> decide

theorem nonNul_append (as bs : List Byte) : nonNul (as ++ bs) = nonNul as ++ nonNul bs :=
  List.filter_append ..

theorem nonNul_singleton (c : Byte) : nonNul [c] = str [c] := by
  by_cases hc : c = 0
  · subst hc
    rfl
  · have hfilter : nonNul [c] = [c] := List.filter_cons_of_pos (by simpa using hc)
    have hstr : str [c] = [c] := List.takeWhile_cons_of_pos (by simpa using hc)
    rw [hfilter, hstr]

theorem nonNul_eq_self (h : 0 ∉ line) : nonNul line = line := by
  refine List.filter_eq_self.mpr fun b hb => ?_
  have hne : b ≠ 0 := fun hzero => h (hzero ▸ hb)
  simpa using hne

theorem length_chars : (chars tmpchar reads).length = reads.length := by
  induction reads generalizing tmpchar with
  | nil => rfl
  | cons read reads ih => simp [chars, ih]

theorem chars_append (reads₁ reads₂ : List (Option Byte)) : chars tmpchar (reads₁ ++ reads₂) =
    chars tmpchar reads₁ ++ chars ((chars tmpchar reads₁).getLast?.getD tmpchar) reads₂ := by
  induction reads₁ generalizing tmpchar with
  | nil => rfl
  | cons read reads₁ ih =>
      rw [List.cons_append, chars, chars, ih, List.cons_append, List.getLast?_cons]
      rfl

/-! ## One iteration -/

theorem afterChars_start : AfterChars p [] (start p tmpchar after) where
  clientline := holds_replicate_zero MAX_NCHARS_pos after
  eob := rfl
  written_le := fun _ hi => absurd hi List.not_mem_nil
  written_last := fun h => absurd rfl h

/-- The condition of the loop depends on the characters seen so far. -/
theorem AfterChars.goesOn_iff (h : AfterChars p line s) :
    goesOn p s = true ↔ Unfinished p line := by
  simp [goesOn, Unfinished, h.eob, h.clientline.strlen_eq]

theorem AfterChars.body (h : AfterChars p line s) (read : Option Byte) :
    AfterChars p (line ++ [read.getD s.tmpchar]) (body p read s) := by
  have hline : nonNul (line ++ [read.getD s.tmpchar]) =
      nonNul line ++ str [read.getD s.tmpchar] := by
    rw [nonNul_append, nonNul_singleton]
  have hindices : strncatIndices s.clientline [read.getD s.tmpchar] 1 =
      List.range' (nonNul line).length ((str [read.getD s.tmpchar]).length + 1) := by
    rw [strncatIndices, h.clientline.strlen_eq]
    rfl
  refine ⟨?_, ?_, ?_, ?_⟩
  · rw [hline]
    exact h.clientline.strncat _ 1
  · simp [RequestLine.body]
  · intro i hi
    rw [hline, List.length_append]
    rcases List.mem_append.mp hi with hi | hi
    · exact Nat.le_add_right_of_le (h.written_le i hi)
    · rw [hindices, List.mem_range'_1] at hi
      omega
  · intro _
    rw [hline, List.length_append]
    refine List.mem_append_right _ ?_
    rw [hindices, List.mem_range'_1]
    omega

/-! ## Runs of the loop -/

/-- **The state after some iterations** follows from the characters that they have seen. -/
theorem exec_afterChars (h : AfterChars p line s) (ht : exec (iteration p) reads s = some t) :
    AfterChars p (line ++ chars s.tmpchar reads) t := by
  induction reads generalizing line s with
  | nil =>
      obtain rfl : s = t := Option.some.inj ht
      rw [chars, List.append_nil]
      exact h
  | cons read reads ih =>
      obtain ⟨u, hu, hut⟩ := exec_cons_eq_some_iff.mp ht
      obtain ⟨-, hu⟩ := Option.ite_none_right_eq_some.mp hu
      obtain rfl := Option.some.inj hu
      have hrun := ih (h.body read) hut
      rw [List.append_assoc] at hrun
      exact hrun

/-- The loop makes these iterations if it goes on after every one but the last. -/
theorem exists_exec_iff (h : AfterChars p line s) :
    (∃ t, exec (iteration p) reads s = some t) ↔
      ∀ k < reads.length, Unfinished p (line ++ (chars s.tmpchar reads).take k) := by
  induction reads generalizing line s with
  | nil => exact iff_of_true ⟨s, rfl⟩ fun k hk => absurd hk (Nat.not_lt_zero k)
  | cons read reads ih =>
      have hfirst : (∃ t, exec (iteration p) (read :: reads) s = some t) ↔
          Unfinished p line ∧ ∃ t, exec (iteration p) reads (body p read s) = some t := by
        simp only [exec_cons_eq_some_iff, iteration, Option.ite_none_right_eq_some,
          Option.some.injEq, ← h.goesOn_iff]
        constructor
        · rintro ⟨t, u, ⟨hgoes, rfl⟩, ht⟩
          exact ⟨hgoes, t, ht⟩
        · rintro ⟨hgoes, t, ht⟩
          exact ⟨t, _, ⟨hgoes, rfl⟩, ht⟩
      rw [hfirst, ih (h.body read)]
      constructor
      · rintro ⟨hline, hrest⟩ k hk
        cases k with
        | zero => simpa using hline
        | succ k =>
            have hk' := hrest k (Nat.lt_of_succ_lt_succ hk)
            rw [List.append_assoc] at hk'
            exact hk'
      · intro hall
        refine ⟨?_, ?_⟩
        · simpa using hall 0 (Nat.succ_pos _)
        · intro k hk
          rw [List.append_assoc]
          exact hall (k + 1) (Nat.succ_lt_succ hk)

end
end Osh.RequestLine
