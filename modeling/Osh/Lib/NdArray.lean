import Mathlib.Logic.Basic
import Mathlib.Tactic.Common

/-!
# Fixed-size arrays

A one-dimensional array is a length together with one entry per index below it,
so an array never holds an entry outside its bounds. Element access is partial:
`get?` and `set?` answer `none` exactly where an index is out of range. Slicing
clamps its bounds to the array, as sequence slices do.

## Main definitions

* `NdArray α`: the arrays.
* `get?`, `set?`: bounds-checked element access.
* `slice`, `append`, `blit`: sub-array, concatenation, and overwriting a region.
* `toList`: the entries in order.
-/
namespace Osh
universe u

/-- A one-dimensional array: a length and an entry for every index below it. -/
structure NdArray (α : Type u) where
  size : ℕ
  data : Fin size → α

namespace NdArray
variable {α : Type u}

/-- The entry at an index, when the index is in range. -/
def get? (a : NdArray α) (i : ℕ) : Option α :=
  if h : i < a.size then some (a.data ⟨i, h⟩) else none

/-- Replace the entry at one index; the array is unchanged when it is out of range. -/
def update (a : NdArray α) (i : ℕ) (v : α) : NdArray α :=
  ⟨a.size, fun j => if j.val = i then v else a.data j⟩

/-- Bounds-checked assignment of one entry. -/
def set? (a : NdArray α) (i : ℕ) (v : α) : Option (NdArray α) :=
  if i < a.size then some (a.update i v) else none

/-- The array of `n` copies of one entry. -/
def fill (n : ℕ) (v : α) : NdArray α := ⟨n, fun _ => v⟩

/-- The entries from `lo` up to but not including `hi`, clamped to the array. -/
def slice (a : NdArray α) (lo hi : ℕ) : NdArray α :=
  ⟨min hi a.size - lo, fun i => a.data ⟨lo + i.val, by have := i.isLt; omega⟩⟩

/-- Concatenation. -/
def append (a b : NdArray α) : NdArray α :=
  ⟨a.size + b.size, fun i =>
    if h : i.val < a.size then a.data ⟨i.val, h⟩
    else b.data ⟨i.val - a.size, by have := i.isLt; omega⟩⟩

instance : Append (NdArray α) := ⟨append⟩

/-- Overwrite the region of `a` that starts at `off` with the entries of `b`. -/
def blit (a : NdArray α) (off : ℕ) (b : NdArray α) : NdArray α :=
  ⟨a.size, fun i => if off ≤ i.val then (b.get? (i.val - off)).getD (a.data i) else a.data i⟩

/-- The entries in order. -/
def toList (a : NdArray α) : List α := List.ofFn a.data

@[simp] theorem size_update (a : NdArray α) (i : ℕ) (v : α) : (a.update i v).size = a.size := rfl
@[simp] theorem size_fill (n : ℕ) (v : α) : (fill n v).size = n := rfl
@[simp] theorem size_slice (a : NdArray α) (lo hi : ℕ) :
    (a.slice lo hi).size = min hi a.size - lo := rfl
@[simp] theorem size_append (a b : NdArray α) : (a ++ b).size = a.size + b.size := rfl
@[simp] theorem size_blit (a : NdArray α) (off : ℕ) (b : NdArray α) :
    (a.blit off b).size = a.size := rfl

theorem get?_eq_none_iff {a : NdArray α} {i : ℕ} : a.get? i = none ↔ a.size ≤ i := by
  unfold get?
  split <;> simp <;> omega

theorem get?_of_lt {a : NdArray α} {i : ℕ} (h : i < a.size) : a.get? i = some (a.data ⟨i, h⟩) :=
  dif_pos h

theorem exists_get? {a : NdArray α} {i : ℕ} (h : i < a.size) : ∃ v, a.get? i = some v :=
  ⟨_, get?_of_lt h⟩

theorem lt_size_of_get? {a : NdArray α} {i : ℕ} {v : α} (h : a.get? i = some v) : i < a.size := by
  by_contra hi
  rw [get?_eq_none_iff.mpr (by omega)] at h
  cases h

/-- Arrays agreeing at every index are equal, lengths included. -/
theorem ext_get? {a b : NdArray α} (h : ∀ i, a.get? i = b.get? i) : a = b := by
  have hsize : a.size = b.size := by
    rcases Nat.lt_trichotomy a.size b.size with hlt | heq | hgt
    · have hb := get?_of_lt hlt
      rw [← h, get?_eq_none_iff.mpr (Nat.le_refl _)] at hb
      cases hb
    · exact heq
    · have ha := get?_of_lt hgt
      rw [h, get?_eq_none_iff.mpr (Nat.le_refl _)] at ha
      cases ha
  obtain ⟨n, f⟩ := a
  obtain ⟨m, g⟩ := b
  simp only at hsize
  subst hsize
  congr 1
  funext i
  have hi := h i.val
  rw [get?_of_lt i.isLt, get?_of_lt i.isLt] at hi
  exact Option.some.inj hi

theorem get?_update_self {a : NdArray α} {i : ℕ} (h : i < a.size) (v : α) :
    (a.update i v).get? i = some v := by
  rw [get?_of_lt (a := a.update i v) h]
  simp [update]

@[simp] theorem get?_update_ne (a : NdArray α) {i j : ℕ} (h : j ≠ i) (v : α) :
    (a.update i v).get? j = a.get? j := by
  unfold get? update
  split <;> simp [h]

theorem get?_update (a : NdArray α) (i j : ℕ) (v : α) :
    (a.update i v).get? j = if j = i ∧ i < a.size then some v else a.get? j := by
  by_cases hij : j = i
  · subst hij
    by_cases hj : j < a.size
    · simp [hj, get?_update_self]
    · simp [hj, get?_eq_none_iff.mpr (Nat.le_of_not_lt hj),
        get?_eq_none_iff.mpr (show (a.update j v).size ≤ j from Nat.le_of_not_lt hj)]
  · simp [hij]

/-- Writing back what an entry holds changes nothing. -/
theorem update_of_get? {a : NdArray α} {i : ℕ} {v : α} (h : a.get? i = some v) :
    a.update i v = a := by
  refine ext_get? fun j => ?_
  rw [get?_update]
  split
  · next hj => rw [hj.1, h]
  · rfl

theorem set?_of_lt {a : NdArray α} {i : ℕ} (h : i < a.size) (v : α) :
    a.set? i v = some (a.update i v) := if_pos h

/-- What a successful assignment did. -/
theorem set?_eq_some_iff {a b : NdArray α} {i : ℕ} {v : α} :
    a.set? i v = some b ↔ i < a.size ∧ b = a.update i v := by
  by_cases h : i < a.size
  · rw [set?_of_lt h]
    simp [h, eq_comm]
  · simp [set?, h]

theorem size_of_set? {a b : NdArray α} {i : ℕ} {v : α} (h : a.set? i v = some b) :
    b.size = a.size := by
  obtain ⟨-, rfl⟩ := set?_eq_some_iff.mp h
  rfl

@[simp] theorem get?_fill (n : ℕ) (v : α) (i : ℕ) :
    (fill n v).get? i = if i < n then some v else none := by
  unfold get? fill
  split <;> simp_all

theorem get?_slice (a : NdArray α) (lo hi i : ℕ) :
    (a.slice lo hi).get? i = if lo + i < hi then a.get? (lo + i) else none := by
  have hsize : (a.slice lo hi).size = min hi a.size - lo := rfl
  unfold get?
  by_cases h : lo + i < hi <;> by_cases h' : lo + i < a.size
  · rw [dif_pos (by omega), if_pos h, dif_pos h']
    rfl
  · rw [dif_neg (by omega), if_pos h, dif_neg h']
  · rw [dif_neg (by omega), if_neg h]
  · rw [dif_neg (by omega), if_neg h]

theorem get?_append (a b : NdArray α) (i : ℕ) :
    (a ++ b).get? i = if i < a.size then a.get? i else b.get? (i - a.size) := by
  have hsize : (a ++ b).size = a.size + b.size := rfl
  unfold get?
  by_cases h : i < a.size
  · rw [dif_pos (by omega), if_pos h, dif_pos h]
    exact congrArg some (dif_pos h)
  · by_cases h' : i - a.size < b.size
    · rw [dif_pos (by omega), if_neg h, dif_pos h']
      exact congrArg some (dif_neg h)
    · rw [dif_neg (by omega), if_neg h, dif_neg h']

theorem append_assoc (a b c : NdArray α) : a ++ b ++ c = a ++ (b ++ c) := by
  refine ext_get? fun i => ?_
  simp only [get?_append, size_append]
  by_cases hab : i < a.size + b.size
  · by_cases ha : i < a.size
    · rw [if_pos hab, if_pos ha, if_pos ha]
    · rw [if_pos hab, if_neg ha, if_neg ha, if_pos (by omega)]
  · rw [if_neg hab, if_neg (by omega), if_neg (by omega), Nat.sub_sub]

theorem fill_append_fill (n m : ℕ) (v : α) : fill n v ++ fill m v = fill (n + m) v := by
  refine ext_get? fun i => ?_
  simp only [get?_append, size_fill, get?_fill]
  by_cases hn : i < n
  · rw [if_pos hn, if_pos hn, if_pos (by omega)]
  · rw [if_neg hn]
    by_cases hm : i < n + m
    · rw [if_pos hm, if_pos (by omega)]
    · rw [if_neg hm, if_neg (by omega)]

theorem get?_append_left {a b : NdArray α} {i : ℕ} (h : i < a.size) :
    (a ++ b).get? i = a.get? i := by rw [get?_append, if_pos h]

theorem get?_append_right {a b : NdArray α} {i : ℕ} (h : a.size ≤ i) :
    (a ++ b).get? i = b.get? (i - a.size) := by rw [get?_append, if_neg (by omega)]

/-- Overwriting a region changes no entry before it. -/
theorem get?_blit_of_lt (a b : NdArray α) {off i : ℕ} (h : i < off) :
    (a.blit off b).get? i = a.get? i := by
  unfold get? blit
  split <;> simp [show ¬ off ≤ i by omega]

/-- Overwriting a region changes no entry after it. -/
theorem get?_blit_of_ge (a b : NdArray α) {off i : ℕ} (h : off + b.size ≤ i) :
    (a.blit off b).get? i = a.get? i := by
  have hb : b.get? (i - off) = none := get?_eq_none_iff.mpr (by omega)
  by_cases hi : i < a.size
  · rw [get?_of_lt (a := a.blit off b) hi, get?_of_lt hi]
    simp [blit, hb]
  · rw [get?_eq_none_iff.mpr (by simpa using hi), get?_eq_none_iff.mpr (by omega)]

/-- Inside the overwritten region the new entries are read. -/
theorem get?_blit_of_mem {a b : NdArray α} {off i : ℕ} (hsize : off + i < a.size) (h : i < b.size) :
    (a.blit off b).get? (off + i) = b.get? i := by
  rw [get?_of_lt (a := a.blit off b) hsize]
  simp [blit, get?_of_lt h]

/-- Slices from the start on take updates over. -/
theorem slice_zero_update (a : NdArray α) (hi i : ℕ) (v : α) :
    (a.update i v).slice 0 hi = (a.slice 0 hi).update i v := by
  refine ext_get? fun j => ?_
  simp only [get?_slice, get?_update, size_slice]
  split_ifs <;> first | rfl | omega

@[simp] theorem length_toList (a : NdArray α) : a.toList.length = a.size := List.length_ofFn

@[simp] theorem getElem?_toList (a : NdArray α) (i : ℕ) : a.toList[i]? = a.get? i :=
  List.getElem?_ofFn

theorem toList_update (a : NdArray α) (i : ℕ) (v : α) :
    (a.update i v).toList = a.toList.set i v := by
  refine List.ext_getElem? fun j => ?_
  rw [getElem?_toList, get?_update, List.getElem?_set, getElem?_toList, length_toList]
  by_cases hij : i = j
  · subst hij
    by_cases hi : i < a.size
    · simp [hi]
    · simp [hi, get?_eq_none_iff.mpr (Nat.le_of_not_lt hi)]
  · simp [hij, Ne.symm hij]

end NdArray
end Osh
