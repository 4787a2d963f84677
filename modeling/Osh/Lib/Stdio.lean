import Osh.Lib.CString

/-!
# Reading lines

`fgets` takes the next line of its input, its newline included, or as much of it as there is
room for. Repeated up to the end of the input it cuts it into lines.

## Main definitions

* `fgets`: one line, and what is left of the input.
* `linesOf`: all lines, one after the other.
-/
namespace Osh.Stdio
open CString

def newline : Byte := 10

/-- At most `n` bytes, up to and with the first newline. -/
def takeLine : ℕ → List Byte → List Byte
  | 0, _ => []
  | _, [] => []
  | n + 1, b :: bs => if b = newline then [b] else b :: takeLine n bs

/-- `fgets(buf, size, stdin)`: the bytes put into `buf` before the NUL, and those left to
read; `none` at the end of the input. -/
def fgets (size : ℕ) (stdin : List Byte) : Option (List Byte × List Byte) :=
  match stdin with
  | [] => none
  | _ :: _ =>
      let line := takeLine (size - 1) stdin
      some (line, stdin.drop line.length)

section
variable {size n : ℕ} {stdin line rest : List Byte}

theorem takeLine_isPrefix (n : ℕ) (bs : List Byte) : takeLine n bs <+: bs := by
  induction bs generalizing n with
  | nil => cases n <;> exact List.prefix_refl _
  | cons b bs ih =>
      cases n with
      | zero => exact List.nil_prefix
      | succ n =>
          rw [takeLine]
          split
          · exact List.prefix_append [b] bs
          · exact (List.prefix_cons_inj b).mpr (ih n)

theorem length_takeLine_le (n : ℕ) (bs : List Byte) : (takeLine n bs).length ≤ n := by
  induction bs generalizing n with
  | nil => cases n <;> exact Nat.zero_le _
  | cons b bs ih =>
      cases n with
      | zero => exact Nat.zero_le _
      | succ n =>
          rw [takeLine]
          split
          · exact Nat.succ_le_succ (Nat.zero_le n)
          · exact Nat.succ_le_succ (ih n)

theorem takeLine_ne_nil (hn : 0 < n) (hstdin : stdin ≠ []) : takeLine n stdin ≠ [] := by
  obtain ⟨k, rfl⟩ : ∃ k, n = k + 1 := Nat.exists_eq_succ_of_ne_zero (Nat.ne_of_gt hn)
  obtain ⟨b, bs, rfl⟩ := List.exists_cons_of_ne_nil hstdin
  rw [takeLine]
  split <;> exact List.cons_ne_nil _ _

theorem fgets_eq_none_iff : fgets size stdin = none ↔ stdin = [] := by
  cases stdin <;> simp [fgets]

/-- What is read and what is left make up the input. -/
theorem append_of_fgets (h : fgets size stdin = some (line, rest)) : line ++ rest = stdin := by
  cases stdin with
  | nil => cases h
  | cons b bs =>
      cases h
      exact List.prefix_iff_eq_append.mp (takeLine_isPrefix (size - 1) (b :: bs))

/-- There is room for the NUL. -/
theorem length_lt_of_fgets (hsize : 2 ≤ size) (h : fgets size stdin = some (line, rest)) :
    line.length < size := by
  cases stdin with
  | nil => cases h
  | cons b bs =>
      cases h
      have hle : (takeLine (size - 1) (b :: bs)).length ≤ size - 1 := length_takeLine_le ..
      omega

theorem length_rest_lt (hsize : 2 ≤ size) (h : fgets size stdin = some (line, rest)) :
    rest.length < stdin.length := by
  have hne : line ≠ [] := by
    cases stdin with
    | nil => cases h
    | cons b bs =>
        cases h
        exact takeLine_ne_nil (by omega) (List.cons_ne_nil b bs)
  have hpos : 0 < line.length := List.length_pos_iff.mpr hne
  rw [← append_of_fgets h, List.length_append]
  omega

end

/-- The results of `fgets` up to the end of the input. -/
def linesOf (size : ℕ) (hsize : 2 ≤ size) (stdin : List Byte) : List (List Byte) :=
  match h : fgets size stdin with
  | none => []
  | some (line, rest) =>
      have : rest.length < stdin.length := length_rest_lt hsize h
      line :: linesOf size hsize rest
termination_by stdin.length

section
variable (size : ℕ) (hsize : 2 ≤ size) (stdin : List Byte)

@[simp] theorem linesOf_nil : linesOf size hsize [] = [] := by
  rw [linesOf]
  rfl

theorem linesOf_of_fgets {line rest : List Byte} (h : fgets size stdin = some (line, rest)) :
    linesOf size hsize stdin = line :: linesOf size hsize rest := by
  rw [linesOf]
  split
  · rename_i hnone
    rw [hnone] at h
    cases h
  · rename_i line' rest' hsome
    rw [hsome] at h
    cases h
    rfl

/-- The lines make up the input. -/
theorem flatten_linesOf : (linesOf size hsize stdin).flatten = stdin := by
  induction hlen : stdin.length using Nat.strongRecOn generalizing stdin with
  | ind n ih =>
      cases h : fgets size stdin with
      | none =>
          obtain rfl := fgets_eq_none_iff.mp h
          simp
      | some p =>
          obtain ⟨line, rest⟩ := p
          have hlt : rest.length < n := hlen ▸ length_rest_lt hsize h
          rw [linesOf_of_fgets size hsize stdin h, List.flatten_cons, ih _ hlt rest rfl,
            append_of_fgets h]

/-- Nothing is lost by cutting the lines at their NULs if and only if there are none. -/
theorem flatMap_str_linesOf_iff :
    (linesOf size hsize stdin).flatMap str = stdin ↔ 0 ∉ stdin := by
  constructor
  · intro h
    rw [← h, List.mem_flatMap]
    rintro ⟨line, -, hmem⟩
    exact notMem_str line hmem
  · intro h
    have hlines : ∀ line ∈ linesOf size hsize stdin, str line = line := by
      intro line hline
      apply str_of_notMem
      intro hzero
      apply h
      rw [← flatten_linesOf size hsize stdin]
      exact List.mem_flatten.mpr ⟨line, hline, hzero⟩
    rw [List.flatMap_def, List.map_congr_left hlines, List.map_id', flatten_linesOf]

end
end Osh.Stdio
