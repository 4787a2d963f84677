import Mathlib.Data.Finset.Card
import Mathlib.Data.Finset.Erase
import Mathlib.Data.Finset.Insert

/-!
# Children of a process

A child runs from the `fork` that creates it until it terminates, and from then on is a
zombie until its parent reaps it. A process id names at most one child at a time.

## Main definitions

* `Children ι`: the running children and the zombies.
* `fork`, `terminate`, `reap`: what happens to a child; `none` where it cannot.
-/
namespace Osh

/-- The children of a process, by process id. -/
structure Children (ι : Type) [DecidableEq ι] where
  running : Finset ι
  zombies : Finset ι
  disjoint : Disjoint running zombies

namespace Children
variable {ι : Type} [DecidableEq ι]

def none : Children ι := ⟨∅, ∅, Finset.disjoint_empty_left ∅⟩

/-- A new child, with an id that is not in use. -/
def fork (c : Children ι) (pid : ι) : Option (Children ι) :=
  if h : pid ∉ c.running ∧ pid ∉ c.zombies then
    some ⟨insert pid c.running, c.zombies, Finset.disjoint_insert_left.mpr ⟨h.2, c.disjoint⟩⟩
  else Option.none

/-- A running child becomes a zombie. -/
def terminate (c : Children ι) (pid : ι) : Option (Children ι) :=
  if pid ∈ c.running then
    some ⟨c.running.erase pid, insert pid c.zombies, Finset.disjoint_insert_right.mpr
      ⟨Finset.notMem_erase pid _, c.disjoint.mono_left (Finset.erase_subset pid _)⟩⟩
  else Option.none

/-- A zombie is gone. -/
def reap (c : Children ι) (pid : ι) : Option (Children ι) :=
  if pid ∈ c.zombies then
    some ⟨c.running, c.zombies.erase pid,
      c.disjoint.mono_right (Finset.erase_subset pid _)⟩
  else Option.none

variable {c d : Children ι} {pid : ι}

theorem zombies_of_fork (h : c.fork pid = some d) : d.zombies = c.zombies := by
  rw [fork, Option.dite_none_right_eq_some] at h
  obtain ⟨_, h⟩ := h
  cases h
  rfl

theorem card_zombies_of_terminate (h : c.terminate pid = some d) :
    d.zombies.card = c.zombies.card + 1 := by
  rw [terminate, Option.ite_none_right_eq_some] at h
  obtain ⟨hpid, h⟩ := h
  cases h
  exact Finset.card_insert_of_notMem (Finset.disjoint_left.mp c.disjoint hpid)

theorem card_zombies_of_reap (h : c.reap pid = some d) :
    d.zombies.card + 1 = c.zombies.card := by
  rw [reap, Option.ite_none_right_eq_some] at h
  obtain ⟨hpid, h⟩ := h
  cases h
  exact Finset.card_erase_add_one hpid

end Children
end Osh
