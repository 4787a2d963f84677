import Mathlib.Data.List.Basic

/-!
# Nesting of braces

A text is read from left to right with the number of braces that are open. Only its braces
matter, so texts are compared by what is left of them when everything else is dropped.

## Main definitions

* `braces t`: the braces of a text.
* `nesting d t`: how many braces are open after `t`, if `d` are open before; `none` if one
  closes nothing.

## Main results

* `nesting_append`, `nesting_braces`: reading on, and reading braces only.
-/
namespace Osh

/-- The two characters that are counted. -/
def isBrace (c : Char) : Bool := c == '{' || c == '}'

/-- The braces of a text. -/
def braces (t : List Char) : List Char := t.filter isBrace

/-- Reads one character. -/
def readBrace (d : ℕ) (c : Char) : Option ℕ :=
  if c = '{' then some (d + 1)
  else if c = '}' then
    match d with
    | 0 => none
    | d + 1 => some d
  else some d

/-- Reads a text. -/
def nesting (d : ℕ) (t : List Char) : Option ℕ := t.foldlM readBrace d

variable {d k : ℕ} {s t : List Char}

@[simp] theorem braces_append (s t : List Char) : braces (s ++ t) = braces s ++ braces t :=
  List.filter_append ..

theorem braces_append_eq_nil_iff : braces (s ++ t) = [] ↔ braces s = [] ∧ braces t = [] := by
  rw [braces_append, List.append_eq_nil_iff]

theorem braces_eq_nil_iff : braces t = [] ↔ ∀ c ∈ t, isBrace c = false := by
  simp [braces, List.filter_eq_nil_iff]

theorem braces_eq_nil_of_subset (hst : s ⊆ t) (ht : braces t = []) : braces s = [] :=
  braces_eq_nil_iff.mpr fun c hc => braces_eq_nil_iff.mp ht c (hst hc)

theorem nesting_append (d : ℕ) (s t : List Char) :
    nesting d (s ++ t) = (nesting d s).bind fun e => nesting e t :=
  List.foldlM_append

theorem readBrace_of_not {c : Char} (hc : isBrace c = false) (d : ℕ) : readBrace d c = some d := by
  simp only [isBrace, Bool.or_eq_false_iff, beq_eq_false_iff_ne] at hc
  simp [readBrace, hc]

/-- Other characters do not count. -/
theorem nesting_braces (d : ℕ) (t : List Char) : nesting d (braces t) = nesting d t := by
  induction t generalizing d with
  | nil => rfl
  | cons c t ih =>
      rw [braces]
      by_cases hc : isBrace c = true
      · rw [List.filter_cons_of_pos hc, nesting, nesting, List.foldlM_cons, List.foldlM_cons]
        exact bind_congr fun e => ih e
      · have hread := readBrace_of_not (Bool.eq_false_iff.mpr hc) d
        rw [List.filter_cons_of_neg hc, ← braces, ih, nesting, nesting, List.foldlM_cons, hread]
        rfl

/-- A text without braces. -/
theorem nesting_of_nil (h : braces t = []) : nesting d t = some d := by
  rw [← nesting_braces, h]
  rfl

/-- A text that opens a brace. -/
theorem nesting_of_open (h : braces t = ['{']) : nesting d t = some (d + 1) := by
  rw [← nesting_braces, h]
  rfl

/-- A text that closes `k` braces. -/
theorem nesting_of_close (h : braces t = List.replicate k '}') : nesting (d + k) t = some d := by
  rw [← nesting_braces, h]
  clear h
  induction k with
  | zero => rfl
  | succ k ih =>
      have hread : readBrace (d + (k + 1)) '}' = some (d + k) := rfl
      rw [List.replicate_succ, nesting, List.foldlM_cons, hread]
      exact ih

end Osh
