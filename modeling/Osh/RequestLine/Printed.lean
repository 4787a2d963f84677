import Osh.RequestLine.Overrun

/-!
# Printing the request line

After the loop the servers print `clientline`. A line that fits and ends with a newline is
printed as it was sent. Without a newline the loop does not stop at the end of the stream, so
what is printed is longer than what was sent.

## Main definitions

* `Prints`: the loop ends, and the given text is printed.

## Main results

* `prints_upToNewline_iff`: the line is printed if and only if it ends with a newline.
-/
namespace Osh.RequestLine
open CString PartialRun

/-- The loop ends, and `printf("%s",clientline)` prints the text. -/
def Prints (p : Program) (tmpchar : Byte) (after stream text : List Byte) : Prop :=
  ∃ n t, afterReads p tmpchar after stream n = some t ∧ goesOn p t = false ∧
    str t.clientline = text

section
variable {p : Program} {tmpchar : Byte} {after stream : List Byte} {n : ℕ}

/-- What is printed after `n` iterations are the characters they have seen, except for NUL. -/
theorem prints_iff {text : List Byte} : Prints p tmpchar after stream text ↔
    ∃ n, (∀ k < n, Unfinished p (received tmpchar stream k)) ∧
      ¬ Unfinished p (received tmpchar stream n) ∧
      nonNul (received tmpchar stream n) = text := by
  constructor
  · rintro ⟨n, t, ht, hgoes, htext⟩
    refine ⟨n, exists_afterReads_iff.mp ⟨t, ht⟩, (goesOn_eq_false_iff ht).mp hgoes, ?_⟩
    rw [← (afterChars_received ht).clientline.str_eq, htext]
  · rintro ⟨n, hunfinished, hfinished, htext⟩
    obtain ⟨t, ht⟩ := exists_afterReads_iff.mpr hunfinished
    refine ⟨n, t, ht, (goesOn_eq_false_iff ht).mpr hfinished, ?_⟩
    rw [(afterChars_received ht).clientline.str_eq, htext]

/-- A character before the first newline is none. -/
theorem newline_notMem_take (h : n ≤ stream.idxOf (newline p)) : newline p ∉ stream.take n := by
  intro hmem
  have hlt := List.idxOf_lt_length_of_mem hmem
  have hle : (stream.take n).length ≤ n := List.length_take_le n stream
  have hindex : stream.idxOf (newline p) = (stream.take n).idxOf (newline p) := by
    conv_lhs => rw [← List.take_append_drop n stream, List.idxOf_append_of_mem hmem]
  omega

/-- **The printed request.** A line without NUL that is shorter than `clientline` is printed if
and only if it ends with a newline. -/
theorem prints_upToNewline_iff (p : Program) (tmpchar : Byte) (after : List Byte)
    {stream : List Byte} (hzero : 0 ∉ stream)
    (hshort : (upToNewline p stream).length < MAX_NCHARS p) :
    Prints p tmpchar after stream (upToNewline p stream) ↔ newline p ∈ stream := by
  rw [prints_iff]
  constructor
  · rintro ⟨n, -, hfinished, htext⟩
    by_contra hnone
    rw [upToNewline_of_notMem hnone] at hshort htext
    refine hfinished ⟨fun hlast => ?_, ?_⟩
    · have hmem : newline p ∈ stream := by
        rw [← htext, nonNul, List.mem_filter]
        exact ⟨List.mem_of_getLast? hlast, by simpa using newline_ne_zero⟩
      exact hnone hmem
    · rw [htext]
      exact hshort
  · intro hmem
    have hlt : stream.idxOf (newline p) < stream.length := List.idxOf_lt_length_of_mem hmem
    have hline : received tmpchar stream (stream.idxOf (newline p) + 1) =
        upToNewline p stream := received_of_le hlt
    have hzero' : 0 ∉ upToNewline p stream := fun h => hzero (List.mem_of_mem_take h)
    refine ⟨stream.idxOf (newline p) + 1, ?_, ?_, ?_⟩
    · intro k hk
      rw [received_of_le (by omega)]
      refine ⟨fun hlast => ?_, ?_⟩
      · exact newline_notMem_take (Nat.le_of_lt_succ hk) (List.mem_of_getLast? hlast)
      · -- a part of the line is not longer than the line
        have hprefix : stream.take k <+: upToNewline p stream :=
          List.take_prefix_take_left (by omega)
        exact Nat.lt_of_le_of_lt ((List.length_filter_le _ _).trans hprefix.length_le) hshort
    · rw [hline, upToNewline, List.take_succ_eq_append_getElem hlt, List.getElem_idxOf hlt]
      exact fun hunfinished => hunfinished.1 List.getLast?_concat
    · rw [hline, nonNul_eq_self hzero']

/-- The line `hi` with its newline. -/
theorem prints_upToNewline_iff_hi :
    Prints .TCPserverForkHi 0 [] [104, 105, 10] (upToNewline .TCPserverForkHi [104, 105, 10]) ↔
      newline .TCPserverForkHi ∈ [104, 105, 10] :=
  prints_upToNewline_iff .TCPserverForkHi 0 [] (by decide) (by decide)

/-- The client sends `hi` and closes the connection. -/
theorem missingNewline_repeats :
    ¬ ∀ (p : Program) (tmpchar : Byte) (after stream : List Byte), 0 ∉ stream →
      upToNewline p stream ≠ [] → (upToNewline p stream).length < MAX_NCHARS p →
      Prints p tmpchar after stream (upToNewline p stream) := by
  intro hclaim
  obtain ⟨n, -, hfinished, htext⟩ := prints_iff.mp
    (hclaim .TCPserverSelectHi 0 [] [104, 105] (by decide) (by decide) (by decide))
  have hline : upToNewline .TCPserverSelectHi [104, 105] = [104, 105] := by decide
  rw [hline] at htext
  refine hfinished ⟨fun hlast => ?_, ?_⟩
  · have hmem : newline .TCPserverSelectHi ∈ nonNul (received 0 [104, 105] n) := by
      rw [nonNul, List.mem_filter]
      exact ⟨List.mem_of_getLast? hlast, by decide⟩
    rw [htext] at hmem
    exact absurd hmem (by decide)
  · rw [htext]
    decide

end
end Osh.RequestLine
