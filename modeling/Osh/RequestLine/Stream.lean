import Mathlib.Data.Nat.Find
import Osh.RequestLine.Loop

/-!
# When the reading of a request line ends

A client sends a finite stream and closes the connection. From then on `read` stores nothing,
and every further iteration sees the last character of the stream again (or, if nothing was
sent, what `tmpchar` held at the start). If that character is not NUL the string grows until
the loop ends; if it is, and there was no reason to end before, the loop runs forever.

## Main definitions

* `reads`, `received`: the results of `read` on a stream, and the characters seen.
* `Ends`: the loop ends.

## Main results

* `received_of_le`, `received_add`: the characters seen, during the stream and after it.
* `ends_iff`: when the loop ends.
-/
namespace Osh.RequestLine
open CString PartialRun

/-- The results of the first `n` calls of `read`: the stream, and nothing after its end. -/
def reads (stream : List Byte) (n : ℕ) : List (Option Byte) :=
  (List.range n).map fun i => stream[i]?

/-- The characters that the first `n` iterations see. -/
def received (tmpchar : Byte) (stream : List Byte) (n : ℕ) : List Byte :=
  chars tmpchar (reads stream n)

/-- What the end of the stream leaves in `tmpchar`. -/
def lastChar (tmpchar : Byte) (stream : List Byte) : Byte := stream.getLast?.getD tmpchar

/-- The variables after `n` iterations, if there are as many. -/
def afterReads (p : Program) (tmpchar : Byte) (after stream : List Byte) (n : ℕ) :
    Option Reading :=
  exec (iteration p) (reads stream n) (start p tmpchar after)

/-- The loop ends after finitely many iterations. -/
def Ends (p : Program) (tmpchar : Byte) (after stream : List Byte) : Prop :=
  ∃ n t, afterReads p tmpchar after stream n = some t ∧ goesOn p t = false

section
variable {p : Program} {tmpchar : Byte} {after stream : List Byte} {t : Reading} {k n : ℕ}

/-! ## The characters that are seen -/

@[simp] theorem length_reads : (reads stream n).length = n := by
  simp [reads]

@[simp] theorem length_received : (received tmpchar stream n).length = n := by
  rw [received, length_chars, length_reads]

theorem received_succ : received tmpchar stream (n + 1) = received tmpchar stream n ++
    [stream[n]?.getD ((received tmpchar stream n).getLast?.getD tmpchar)] := by
  rw [received, reads, List.range_succ, List.map_append, chars_append]
  rfl

theorem take_received (h : k ≤ n) :
    (received tmpchar stream n).take k = received tmpchar stream k := by
  induction n with
  | zero =>
      obtain rfl : k = 0 := by omega
      rfl
  | succ n ih =>
      rcases Nat.lt_or_ge n k with hlt | hle
      · obtain rfl : k = n + 1 := by omega
        exact List.take_of_length_le (by rw [length_received])
      · rw [received_succ, List.take_append_of_le_length (by rw [length_received]; exact hle)]
        exact ih hle

/-- During the stream. -/
theorem received_of_le (h : n ≤ stream.length) : received tmpchar stream n = stream.take n := by
  induction n with
  | zero => rfl
  | succ n ih =>
      have hn : n < stream.length := h
      rw [received_succ, ih (Nat.le_of_lt hn), List.getElem?_eq_getElem hn, Option.getD_some,
        List.take_succ_eq_append_getElem hn]

/-- After the end of the stream its last character comes again and again. -/
theorem received_add : received tmpchar stream (stream.length + k) =
    stream ++ List.replicate k (lastChar tmpchar stream) := by
  induction k with
  | zero => simp [received_of_le]
  | succ k ih =>
      have hlast : (stream ++ List.replicate k (lastChar tmpchar stream)).getLast?.getD tmpchar =
          lastChar tmpchar stream := by
        cases k with
        | zero => simp [lastChar]
        | succ k => simp [List.replicate_succ', ← List.append_assoc]
      rw [← Nat.add_assoc, received_succ, ih, hlast,
        List.getElem?_eq_none (Nat.le_add_right _ k), Option.getD_none, List.append_assoc,
        List.replicate_succ']

/-! ## Iterations -/

theorem afterChars_received (h : afterReads p tmpchar after stream n = some t) :
    AfterChars p (received tmpchar stream n) t :=
  exec_afterChars afterChars_start h

/-- There are `n` iterations if the loop goes on after fewer. -/
theorem exists_afterReads_iff : (∃ t, afterReads p tmpchar after stream n = some t) ↔
    ∀ k < n, Unfinished p (received tmpchar stream k) := by
  rw [afterReads, exists_exec_iff afterChars_start, length_reads]
  refine forall_congr' fun k => forall_congr' fun hk => ?_
  have htake : (chars tmpchar (reads stream n)).take k = received tmpchar stream k :=
    take_received (Nat.le_of_lt hk)
  rw [← htake]
  rfl

/-- Whether the loop goes on depends on the characters seen. -/
theorem goesOn_eq_false_iff (h : afterReads p tmpchar after stream n = some t) :
    goesOn p t = false ↔ ¬ Unfinished p (received tmpchar stream n) := by
  rw [Bool.eq_false_iff, ne_eq, (afterChars_received h).goesOn_iff]

theorem ends_iff_exists : Ends p tmpchar after stream ↔
    ∃ n, ¬ Unfinished p (received tmpchar stream n) := by
  classical
  constructor
  · rintro ⟨n, t, ht, hgoes⟩
    exact ⟨n, (goesOn_eq_false_iff ht).mp hgoes⟩
  · intro hfinished
    -- the first number of iterations after which the loop does not go on
    obtain ⟨t, ht⟩ := exists_afterReads_iff.mpr fun k hk =>
      not_not.mp (Nat.find_min hfinished hk)
    exact ⟨Nat.find hfinished, t, ht, (goesOn_eq_false_iff ht).mpr (Nat.find_spec hfinished)⟩

/-! ## Termination -/

theorem nonNul_replicate_zero : nonNul (List.replicate k 0) = [] := by
  simp [nonNul]

theorem nonNul_replicate {c : Byte} (hc : c ≠ 0) :
    nonNul (List.replicate k c) = List.replicate k c :=
  nonNul_eq_self fun h => hc (List.eq_of_mem_replicate h).symm

theorem length_nonNul_take_le : (nonNul (stream.take n)).length ≤ (nonNul stream).length :=
  ((List.take_sublist n stream).filter _).length_le

/-- **When the reading of a request line ends.** A stream sent before the connection is closed
makes the loop end if and only if it has a newline, or as many characters as `clientline`
takes, or does not leave a NUL in `tmpchar`. -/
theorem ends_iff (p : Program) (tmpchar : Byte) (after stream : List Byte) :
    Ends p tmpchar after stream ↔ newline p ∈ stream ∨
      MAX_NCHARS p ≤ (nonNul stream).length ∨ lastChar tmpchar stream ≠ 0 := by
  rw [ends_iff_exists]
  constructor
  · rintro ⟨n, hfinished⟩
    by_contra hnot
    obtain ⟨hnewline, hshort, hlast⟩ : newline p ∉ stream ∧
        (nonNul stream).length < MAX_NCHARS p ∧ lastChar tmpchar stream = 0 := by
      simpa using hnot
    refine hfinished ?_
    rcases Nat.le_total n stream.length with hle | hle
    · rw [received_of_le hle]
      refine ⟨fun h => hnewline (List.mem_of_mem_take (List.mem_of_getLast? h)), ?_⟩
      exact Nat.lt_of_le_of_lt length_nonNul_take_le hshort
    · obtain ⟨k, rfl⟩ := Nat.exists_eq_add_of_le hle
      rw [received_add, hlast]
      refine ⟨fun h => ?_, ?_⟩
      · rcases List.mem_append.mp (List.mem_of_getLast? h) with hmem | hmem
        · exact hnewline hmem
        · exact newline_ne_zero (List.eq_of_mem_replicate hmem)
      · rw [nonNul_append, nonNul_replicate_zero, List.append_nil]
        exact hshort
  · rintro (hnewline | hlong | hlast)
    · obtain ⟨n, hn, hget⟩ := List.getElem_of_mem hnewline
      refine ⟨n + 1, fun hunfinished => hunfinished.1 ?_⟩
      rw [received_of_le hn, List.take_succ_eq_append_getElem hn, hget]
      exact List.getLast?_concat
    · refine ⟨stream.length, fun hunfinished => ?_⟩
      have hlt := hunfinished.2
      rw [received_of_le le_rfl, List.take_length] at hlt
      omega
    · refine ⟨stream.length + MAX_NCHARS p, fun hunfinished => ?_⟩
      have hlt := hunfinished.2
      rw [received_add, nonNul_append, nonNul_replicate hlast, List.length_append,
        List.length_replicate] at hlt
      omega

/-- A client that closes the connection at once, with a NUL in `tmpchar`. -/
theorem emptyStream_runs_forever :
    ¬ ∀ (p : Program) (tmpchar : Byte) (after stream : List Byte),
      Ends p tmpchar after stream := by
  intro hclaim
  obtain ⟨n, hfinished⟩ := ends_iff_exists.mp (hclaim .TCPserverSelectHi 0 [] [])
  have hzeros : received 0 [] n = List.replicate n 0 := by
    have hadd : received 0 [] (0 + n) = [] ++ List.replicate n (lastChar 0 []) :=
      received_add
    simpa [lastChar] using hadd
  refine hfinished ⟨?_, ?_⟩
  · rw [hzeros]
    intro hlast
    have hzero := List.eq_of_mem_replicate (List.mem_of_getLast? hlast)
    exact newline_ne_zero hzero
  · rw [hzeros, nonNul_replicate_zero]
    exact MAX_NCHARS_pos

end
end Osh.RequestLine
