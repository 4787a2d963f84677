import Mathlib.Data.Int.Notation
import Mathlib.Tactic.Common

/-!
# Python exceptions

A Python computation returns a value or raises. Lists are indexed by integers, from the
end when negative; dictionaries are partial functions; what differs between Python 2 and
Python 3 takes the version as a parameter. The rules at the end say when a computation
raises whatever its parts return.

## Main definitions

* `PyError`, `Py`: exceptions, and computations that may raise one.
* `getItem`, `setItem`, `lookup`: items of lists and dictionaries.
* `Number`, `div`: the quotient of two integers.
* `Raises`: the computation ends in an exception.
-/
namespace Osh.Python
variable {α β : Type}

inductive PyError where
  | nameError | unboundLocalError | typeError | indexError | keyError | zeroDivisionError
  deriving DecidableEq

abbrev Py (α : Type) := Except PyError α

inductive Version where
  | two | three

/-! ## Names -/

/-- The value of a global name that nothing defines. -/
def undefinedName : Py α := .error .nameError

/-- The value of a local variable that has not been assigned yet. -/
def unassigned : Py α := .error .unboundLocalError

/-- The assignment to an item of a tuple. -/
def setTupleItem : Py α := .error .typeError

/-! ## Numbers -/

/-- An integer, or a float; nothing is computed with floats. -/
inductive Number where
  | int (n : ℤ)
  | float

/-- `a / b`: rounded down in Python 2, and a float in Python 3. -/
def div (v : Version) (a b : ℤ) : Py Number :=
  if b = 0 then .error .zeroDivisionError
  else match v with
    | .two => .ok (.int (a.fdiv b))
    | .three => .ok .float

def Number.sub : Number → ℤ → Number
  | int n, k => int (n - k)
  | float, _ => float

/-- The number where only an integer will do. -/
def Number.integer : Number → Py ℤ
  | int n => .ok n
  | float => .error .typeError

/-! ## Lists and dictionaries -/

/-- `range(0, n)` -/
def range (n : Number) : Py (List ℤ) := do
  let n ← n.integer
  return (List.range n.toNat).map Int.ofNat

/-- `l * n` -/
def repeatList (l : List α) (n : Number) : Py (List α) := do
  let n ← n.integer
  return (List.replicate n.toNat l).flatten

/-- The position that an index stands for in a list of the given length. -/
def position (length : ℕ) (i : ℤ) : Py ℕ :=
  if 0 ≤ i ∧ i < length then .ok i.toNat
  else if i < 0 ∧ 0 ≤ i + length then .ok (i + length).toNat
  else .error .indexError

/-- `l[i]` -/
def getItem (l : List α) (i : ℤ) : Py α := do
  match l[← position l.length i]? with
  | some a => return a
  | none => .error .indexError

/-- `l[i] = a` -/
def setItem (l : List α) (i : ℤ) (a : α) : Py (List α) := do
  return l.set (← position l.length i) a

/-- `d[k]` -/
def lookup {κ : Type} (d : κ → Option α) (k : κ) : Py α :=
  match d k with
  | some a => .ok a
  | none => .error .keyError

/-! ## Raising -/

/-- The computation ends in an exception. -/
def Raises (x : Py α) : Prop := ∃ e, x = .error e

theorem raises_error (e : PyError) : Raises (.error e : Py α) := ⟨e, rfl⟩

theorem not_raises_ok (a : α) : ¬ Raises (.ok a : Py α) := by
  rintro ⟨e, h⟩
  cases h

namespace Raises
variable {x : Py α} {f : α → Py β}

/-- An exception is not caught. -/
theorem bind_left (h : Raises x) : Raises (x >>= f) := by
  obtain ⟨e, rfl⟩ := h
  exact raises_error e

/-- What goes on to raise in any case raises. -/
theorem bind_right (h : ∀ a, Raises (f a)) : Raises (x >>= f) := by
  cases x with
  | error e => exact raises_error e
  | ok a => exact h a

theorem ite {y : Py α} {c : Prop} [Decidable c] (hx : c → Raises x) (hy : ¬ c → Raises y) :
    Raises (if c then x else y) := by
  by_cases hc : c
  · rw [if_pos hc]
    exact hx hc
  · rw [if_neg hc]
    exact hy hc

theorem ne_ok (h : Raises x) (a : α) : x ≠ .ok a := by
  rintro rfl
  exact not_raises_ok a h

end Raises
end Osh.Python
