import Mathlib.Data.List.Basic
import Osh.RequestLine.Stream

/-!
# Overrunning the request line

The condition of the loop lets a character be appended while the string is shorter than the
array, and `strncat` writes a NUL behind that character: with 127 characters in it,
`clientline` is written at index 128. A line with fewer characters than the array takes is
safe while the client keeps the connection open. When the client closes it before a newline,
the loop goes on appending the last character until the array is overrun.

## Main definitions

* `upToNewline`: the line that the loop should read.
* `WritesInside`: every write of the loop is to the array.

## Main results

* `writesInside_iff`: when every write is to the array.
-/
namespace Osh.RequestLine
open CString PartialRun

/-- The characters up to and including the first newline, or all of them. -/
def upToNewline (p : Program) (stream : List Byte) : List Byte :=
  stream.take (stream.idxOf (newline p) + 1)

/-- What a client sends, and whether it closes the connection then. -/
structure Client where
  stream : List Byte
  closes : Bool

/-- `read` waits for ever once the stream of an open connection is used up. -/
def Client.Answers (client : Client) (n : ℕ) : Prop :=
  client.closes = false → n ≤ client.stream.length

/-- Every index that `strncat` writes is one of the array. -/
def WritesInside (p : Program) (tmpchar : Byte) (after : List Byte) (client : Client) : Prop :=
  ∀ n t, client.Answers n → afterReads p tmpchar after client.stream n = some t →
    ∀ i ∈ t.written, i < MAX_NCHARS p

section
variable {p : Program} {tmpchar : Byte} {after stream : List Byte} {t : Reading} {n : ℕ}

/-! ## The line in the stream -/

theorem upToNewline_of_notMem (h : newline p ∉ stream) : upToNewline p stream = stream := by
  rw [upToNewline, List.idxOf_of_notMem h]
  exact List.take_of_length_le (Nat.le_succ _)

theorem upToNewline_append_of_mem (h : newline p ∈ stream) (rest : List Byte) :
    upToNewline p (stream ++ rest) = upToNewline p stream := by
  have hlt : stream.idxOf (newline p) + 1 ≤ stream.length := List.idxOf_lt_length_of_mem h
  rw [upToNewline, List.idxOf_append_of_mem h, List.take_append_of_le_length hlt, upToNewline]

theorem upToNewline_append_of_notMem (h : newline p ∉ stream) (rest : List Byte) :
    upToNewline p (stream ++ rest) = stream ++ upToNewline p rest := by
  rw [upToNewline, List.idxOf_append_of_notMem h, Nat.add_assoc, List.take_length_add_append,
    upToNewline]

/-- The line of a part of the stream is a part of the line. -/
theorem upToNewline_take : upToNewline p (stream.take n) <+: upToNewline p stream := by
  have hstream : upToNewline p stream = upToNewline p (stream.take n ++ stream.drop n) := by
    rw [List.take_append_drop]
  rw [hstream]
  by_cases h : newline p ∈ stream.take n
  · exact ⟨[], by rw [List.append_nil, upToNewline_append_of_mem h]⟩
  · rw [upToNewline_of_notMem h, upToNewline_append_of_notMem h]
    exact List.prefix_append _ _

theorem length_nonNul_upToNewline_take_le :
    (nonNul (upToNewline p (stream.take n))).length ≤ (nonNul (upToNewline p stream)).length :=
  (upToNewline_take.sublist.filter _).length_le

/-! ## The characters seen are those of the line -/

/-- The loop has not seen a newline before its last character. -/
theorem upToNewline_received (h : ∀ k < n, Unfinished p (received tmpchar stream k)) :
    upToNewline p (received tmpchar stream n) = received tmpchar stream n := by
  cases n with
  | zero => rfl
  | succ n =>
      have hnone : newline p ∉ received tmpchar stream n := by
        intro hmem
        obtain ⟨k, hk, hget⟩ := List.getElem_of_mem hmem
        have hlt : k + 1 < n + 1 := by
          rw [length_received] at hk
          omega
        refine (h (k + 1) hlt).1 ?_
        rw [← take_received (Nat.le_of_lt_succ hlt), List.take_succ_eq_append_getElem hk, hget]
        exact List.getLast?_concat
      rw [received_succ, upToNewline_append_of_notMem hnone, upToNewline]
      exact congrArg _ (List.take_of_length_le (by simp))

/-- What comes after a newline is not part of the line. -/
theorem upToNewline_received_of_mem {k : ℕ} (h : newline p ∈ received tmpchar stream k)
    (hk : k ≤ n) : upToNewline p (received tmpchar stream n) =
      upToNewline p (received tmpchar stream k) := by
  rw [← List.take_append_drop k (received tmpchar stream n), take_received hk,
    upToNewline_append_of_mem h]

/-- The writes are in the array as long as the line seen so far is shorter than it. -/
theorem writesInside_iff_received {client : Client} : WritesInside p tmpchar after client ↔
    ∀ n, client.Answers n →
      (nonNul (upToNewline p (received tmpchar client.stream n))).length < MAX_NCHARS p := by
  constructor
  · intro hinside n hanswers
    by_contra hlong
    -- the first number of iterations that have seen too long a line
    have hex : ∃ n, ¬ (nonNul (upToNewline p (received tmpchar client.stream n))).length <
        MAX_NCHARS p := ⟨n, hlong⟩
    classical
    have hunfinished : ∀ k < Nat.find hex, Unfinished p (received tmpchar client.stream k) := by
      intro k hk
      have hshort := not_not.mp (Nat.find_min hex hk)
      have hnone : newline p ∉ received tmpchar client.stream k := by
        intro hmem
        have hline := upToNewline_received_of_mem hmem (Nat.le_of_lt hk)
        rw [← hline] at hshort
        exact Nat.find_spec hex hshort
      rw [upToNewline_of_notMem hnone] at hshort
      exact ⟨fun hlast => hnone (List.mem_of_getLast? hlast), hshort⟩
    obtain ⟨t, ht⟩ := exists_afterReads_iff.mpr hunfinished
    have hfirst : client.Answers (Nat.find hex) :=
      fun hopen => (Nat.find_min' hex hlong).trans (hanswers hopen)
    have hspec := Nat.find_spec hex
    rw [upToNewline_received hunfinished] at hspec
    refine hspec (hinside _ t hfirst ht _ ((afterChars_received ht).written_last ?_))
    intro hnil
    rw [hnil] at hspec
    exact hspec MAX_NCHARS_pos
  · intro hshort n t hanswers ht i hi
    have hline := upToNewline_received (exists_afterReads_iff.mp ⟨t, ht⟩)
    have hlt := hshort n hanswers
    rw [hline] at hlt
    exact Nat.lt_of_le_of_lt ((afterChars_received ht).written_le i hi) hlt

/-! ## The result -/

/-- A stream without a newline does not leave one in `tmpchar`, unless nothing was sent. -/
theorem eq_nil_of_lastChar_eq_newline (hnone : newline p ∉ stream)
    (hlast : lastChar tmpchar stream = newline p) : stream = [] := by
  by_contra hne
  rw [lastChar, List.getLast?_eq_some_getLast hne, Option.getD_some] at hlast
  exact hnone (hlast ▸ List.getLast_mem hne)

/-- A newline ends the loop at once. -/
theorem length_nonNul_upToNewline_replicate_newline {k : ℕ} :
    (nonNul (upToNewline p (List.replicate k (newline p)))).length < MAX_NCHARS p := by
  have hone : 1 < MAX_NCHARS p := by
    cases p <;> decide
  refine Nat.lt_of_le_of_lt ((List.length_filter_le _ _).trans ?_) hone
  cases k with
  | zero => exact Nat.zero_le 1
  | succ k => simp [upToNewline, List.replicate_succ]

/-- **When every write is to `clientline`.** The line has fewer characters other than NUL than
the array, and if the client closes the connection, either there is a newline in the stream,
or what it leaves in `tmpchar` is a NUL, or, where nothing was sent, a newline. -/
theorem writesInside_iff (p : Program) (tmpchar : Byte) (after : List Byte) (client : Client) :
    WritesInside p tmpchar after client ↔
      (nonNul (upToNewline p client.stream)).length < MAX_NCHARS p ∧
        (client.closes = true → newline p ∈ client.stream ∨
          lastChar tmpchar client.stream = 0 ∨ lastChar tmpchar client.stream = newline p) := by
  rw [writesInside_iff_received]
  constructor
  · intro hshort
    refine ⟨?_, ?_⟩
    · have hstream := hshort client.stream.length fun _ => le_rfl
      rwa [received_of_le le_rfl, List.take_length] at hstream
    · intro hcloses
      by_contra hnot
      obtain ⟨hnone, hzero, hlast⟩ : newline p ∉ client.stream ∧
          lastChar tmpchar client.stream ≠ 0 ∧ lastChar tmpchar client.stream ≠ newline p := by
        simpa using hnot
      -- the last character is appended until there are too many
      have hlong := hshort (client.stream.length + MAX_NCHARS p) fun hopen => by
        rw [hcloses] at hopen
        cases hopen
      have hnone' : newline p ∉
          List.replicate (MAX_NCHARS p) (lastChar tmpchar client.stream) :=
        fun h => hlast (List.eq_of_mem_replicate h).symm
      rw [received_add, upToNewline_append_of_notMem hnone, upToNewline_of_notMem hnone',
        nonNul_append, nonNul_replicate hzero, List.length_append, List.length_replicate] at hlong
      omega
  · rintro ⟨hline, hclosed⟩ n hanswers
    rcases Nat.le_total n client.stream.length with hle | hle
    · rw [received_of_le hle]
      exact Nat.lt_of_le_of_lt length_nonNul_upToNewline_take_le hline
    · obtain ⟨k, rfl⟩ := Nat.exists_eq_add_of_le hle
      by_cases hnone : newline p ∈ client.stream
      · rw [received_add, upToNewline_append_of_mem hnone]
        exact hline
      · rw [upToNewline_of_notMem hnone] at hline
        rw [received_add, upToNewline_append_of_notMem hnone, nonNul_append, List.length_append]
        cases hcloses : client.closes with
        | false =>
            obtain rfl : k = 0 := by
              have hanswered := hanswers hcloses
              omega
            exact hline
        | true =>
            rcases (hclosed hcloses).resolve_left hnone with hzero | hlast
            · have hnul : (nonNul (upToNewline p (List.replicate k 0))).length ≤ 0 := by
                refine length_nonNul_take_le.trans ?_
                rw [nonNul_replicate_zero, List.length_nil]
              rw [hzero]
              omega
            · have hempty : client.stream = [] := eq_nil_of_lastChar_eq_newline hnone hlast
              rw [hlast, hempty, nonNul, List.filter_nil, List.length_nil, Nat.zero_add]
              exact length_nonNul_upToNewline_replicate_newline

/-- A line of 128 characters. -/
theorem longLine_overruns :
    ¬ ∀ (p : Program) (tmpchar : Byte) (after : List Byte) (client : Client),
      WritesInside p tmpchar after client := by
  intro hclaim
  have hinside := hclaim .TCPserverSelectHi 0 [] ⟨List.replicate 128 97, false⟩
  have hlt := writesInside_iff_received.mp hinside 128 fun _ => by simp
  have hnone : newline .TCPserverSelectHi ∉ List.replicate 128 97 :=
    fun h => absurd (List.eq_of_mem_replicate h) (by decide)
  rw [received_of_le (by simp), List.take_of_length_le (by simp), upToNewline_of_notMem hnone,
    nonNul_replicate (by decide), List.length_replicate] at hlt
  exact absurd hlt (by decide)

end
end Osh.RequestLine
