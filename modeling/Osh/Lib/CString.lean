import Mathlib.Data.List.TakeWhile
import Mathlib.Tactic.Common

/-!
# Strings in C

A string is what stands in memory before the first NUL. The memory from some address on is a
list of bytes; a store behind its end makes it longer, so that an array may be overrun and
the indices that are written can be compared with its size.

## Main definitions

* `str`, `strlen`: the string at an address, and its length.
* `store`, `strncat`: bytes put into memory, and appended to a string.
* `Holds m s`: the string `s` with its NUL is what stands at the start of `m`.
-/
namespace Osh.CString

/-- A `char`. -/
abbrev Byte := BitVec 8

section
variable {m s t bs rest : List Byte} {n : ℕ}

/-- What `%s` prints. -/
def str (m : List Byte) : List Byte := m.takeWhile (· ≠ 0)

def strlen (m : List Byte) : ℕ := (str m).length

/-- The memory with `bs` put at index `i` and after. -/
def store (m : List Byte) (i : ℕ) (bs : List Byte) : List Byte :=
  m.take i ++ bs ++ m.drop (i + bs.length)

/-- `strncat(m, src, n)` -/
def strncat (m src : List Byte) (n : ℕ) : List Byte :=
  store m (strlen m) (str (src.take n) ++ [0])

/-- The indices that `strncat` writes, the one of the NUL last. -/
def strncatIndices (m src : List Byte) (n : ℕ) : List ℕ :=
  List.range' (strlen m) ((str (src.take n)).length + 1)

theorem notMem_str (m : List Byte) : 0 ∉ str m := by
  intro h
  simpa using List.mem_takeWhile_imp h

theorem str_of_notMem (h : 0 ∉ s) : str s = s := by
  refine List.takeWhile_eq_self_iff.mpr fun b hb => ?_
  have hne : b ≠ 0 := fun hzero => h (hzero ▸ hb)
  simpa using hne

/-- What stands behind a NUL is not part of the string. -/
theorem str_append_nul (s rest : List Byte) : str (s ++ 0 :: rest) = str s := by
  induction s with
  | nil => rfl
  | cons b s ih =>
      by_cases hb : b = 0
      · subst hb
        rfl
      · have hcons : ∀ m : List Byte, str (b :: m) = b :: str m :=
          fun m => List.takeWhile_cons_of_pos (by simpa using hb)
        rw [List.cons_append, hcons, hcons, ih]

/-- The first `strlen` bytes are the string. -/
theorem take_strlen (m : List Byte) : m.take (strlen m) = str m :=
  (List.prefix_iff_eq_take.mp (List.takeWhile_prefix _)).symm

theorem store_append : store (s ++ rest) s.length bs = s ++ bs ++ rest.drop bs.length := by
  rw [store, List.take_left, ← List.drop_drop, List.drop_left]

/-- The string and its NUL. -/
theorem take_strlen_succ (s rest : List Byte) :
    (s ++ 0 :: rest).take (strlen (s ++ 0 :: rest) + 1) = str s ++ [0] := by
  induction s with
  | nil => rfl
  | cons b s ih =>
      by_cases hb : b = 0
      · subst hb
        rfl
      · have hcons : ∀ m : List Byte, str (b :: m) = b :: str m :=
          fun m => List.takeWhile_cons_of_pos (by simpa using hb)
        rw [List.cons_append, strlen, hcons, hcons, List.length_cons, List.take_succ_cons]
        exact congrArg (b :: ·) ih

theorem store_line (m line : List Byte) :
    store m 0 (line ++ [0]) = line ++ 0 :: m.drop (line.length + 1) := by
  simp [store]

/-- A line and a NUL put at the start of the memory. -/
theorem str_store_line (m line : List Byte) : str (store m 0 (line ++ [0])) = str line := by
  rw [store_line, str_append_nul]

/-! ## The string at the start of the memory -/

structure Holds (m s : List Byte) : Prop where
  nulFree : 0 ∉ s
  memory : ∃ rest, m = s ++ 0 :: rest

theorem holds_replicate_zero (hn : 0 < n) (rest : List Byte) :
    Holds (List.replicate n 0 ++ rest) [] := by
  obtain ⟨k, rfl⟩ : ∃ k, n = k + 1 := ⟨n - 1, by omega⟩
  exact ⟨List.not_mem_nil, List.replicate k 0 ++ rest, rfl⟩

namespace Holds

theorem str_eq (h : Holds m s) : str m = s := by
  obtain ⟨rest, rfl⟩ := h.memory
  have hs : s.takeWhile (fun b => decide (b ≠ 0)) = s := str_of_notMem h.nulFree
  rw [str, List.takeWhile_append, hs, if_pos rfl]
  simp

theorem strlen_eq (h : Holds m s) : strlen m = s.length := by
  rw [strlen, h.str_eq]

/-- What `strncat` appends goes to the end of the string, up to its own first NUL. -/
theorem strncat (h : Holds m s) (src : List Byte) (n : ℕ) :
    Holds (strncat m src n) (s ++ str (src.take n)) := by
  refine ⟨?_, ?_⟩
  · rw [List.mem_append]
    exact fun hmem => hmem.elim h.nulFree (notMem_str _)
  · obtain ⟨rest, hm⟩ := h.memory
    refine ⟨(0 :: rest).drop (str (src.take n) ++ [0]).length, ?_⟩
    rw [CString.strncat, h.strlen_eq, hm, store_append]
    simp

end Holds
end
end Osh.CString
