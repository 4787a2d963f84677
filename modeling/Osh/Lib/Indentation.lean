import Mathlib.Order.Nat
import Mathlib.Data.List.Pairwise
import Osh.Lib.Lists

/-!
# Blocks by indentation

The lines of a text are known by how far each is indented. A line encloses the lines after
it that are indented further, up to the first that is not. The lines that enclose a line form
a chain, from the innermost outwards, and this chain is a stack: a line that is not indented
further than the last ends the innermost blocks, and what is left encloses it.

## Main definitions

* `Encloses`: a line is the head of a block in which another stands.
* `enclosers`: the lines that enclose a line, the innermost first.
* `ended`: the chain of a line, as far as the next line ends it.

## Main results

* `mem_enclosers_iff`: the list has the lines that enclose.
* `pairwise_chain`: inner lines come later and are indented further.
* `ended_append_enclosers`: the chain is what the next line ends, and what encloses that.
-/
namespace Osh
variable {w : ℕ → ℕ} {i j : ℕ}

/-- All the lines after `j`, up to `i`, are indented further than `j`. -/
def Encloses (w : ℕ → ℕ) (j i : ℕ) : Prop := j < i ∧ ∀ k ≤ i, j < k → w j < w k

instance (w : ℕ → ℕ) (j i : ℕ) : Decidable (Encloses w j i) :=
  inferInstanceAs (Decidable (j < i ∧ ∀ k ≤ i, j < k → w j < w k))

/-- The lines that enclose a line, the innermost first. -/
def enclosers (w : ℕ → ℕ) : ℕ → List ℕ
  | 0 => []
  | i + 1 => (i :: enclosers w i).filter fun j => w j < w (i + 1)

/-- The line and the lines that enclose it, as far as the next line ends them. -/
def ended (w : ℕ → ℕ) (i : ℕ) : List ℕ := (i :: enclosers w i).filter fun j => w (i + 1) ≤ w j

theorem encloses_succ_iff :
    Encloses w j (i + 1) ↔ (j = i ∨ Encloses w j i) ∧ w j < w (i + 1) := by
  constructor
  · rintro ⟨hlt, hall⟩
    refine ⟨?_, hall (i + 1) le_rfl hlt⟩
    rcases Nat.lt_succ_iff_lt_or_eq.mp hlt with hji | rfl
    · exact .inr ⟨hji, fun k hki => hall k (by omega)⟩
    · exact .inl rfl
  · rintro ⟨hj, hw⟩
    have hji : j ≤ i := by
      rcases hj with rfl | hj
      · exact le_rfl
      · exact hj.1.le
    refine ⟨by omega, fun k hki hjk => ?_⟩
    rcases Nat.le_succ_iff.mp hki with hki | rfl
    · rcases hj with rfl | hj
      · omega
      · exact hj.2 k hki hjk
    · exact hw

theorem mem_enclosers_iff : j ∈ enclosers w i ↔ Encloses w j i := by
  induction i with
  | zero =>
      simp only [enclosers, List.not_mem_nil, false_iff]
      exact fun h => Nat.not_lt_zero j h.1
  | succ i ih =>
      rw [enclosers, List.mem_filter, List.mem_cons, ih, decide_eq_true_eq, encloses_succ_iff]

theorem mem_ended_iff : j ∈ ended w i ↔ (j = i ∨ Encloses w j i) ∧ w (i + 1) ≤ w j := by
  rw [ended, List.mem_filter, List.mem_cons, mem_enclosers_iff, decide_eq_true_eq]

/-- **The chain of a line**: inner lines come later and are indented further. -/
theorem pairwise_chain (w : ℕ → ℕ) (i : ℕ) :
    (i :: enclosers w i).Pairwise fun a b => b < a ∧ w b < w a := by
  induction i with
  | zero => exact List.pairwise_singleton _ _
  | succ i ih =>
      refine List.pairwise_cons.mpr ⟨fun j hj => ?_, ih.filter _⟩
      have hj := mem_enclosers_iff.mp hj
      exact ⟨hj.1, hj.2 (i + 1) le_rfl hj.1⟩

/-- **The next line** ends the innermost part of the chain; the rest encloses it. -/
theorem ended_append_enclosers (w : ℕ → ℕ) (i : ℕ) :
    ended w i ++ enclosers w (i + 1) = i :: enclosers w i := by
  have hpairwise : (i :: enclosers w i).Pairwise fun a b =>
      decide (w (i + 1) ≤ w b) = true → decide (w (i + 1) ≤ w a) = true := by
    refine (pairwise_chain w i).imp fun hab hb => ?_
    simp only [decide_eq_true_eq] at hb ⊢
    exact hb.trans hab.2.le
  have hnot : (fun j => !decide (w (i + 1) ≤ w j)) = fun j => decide (w j < w (i + 1)) := by
    funext j
    simp only [← decide_not, Nat.not_le]
  have hcut := filter_append_filter_not hpairwise
  rwa [hnot] at hcut

/-- A line that is indented further ends nothing. -/
theorem ended_of_lt (h : w i < w (i + 1)) : ended w i = [] := by
  refine List.eq_nil_iff_forall_not_mem.mpr fun j hj => ?_
  obtain ⟨hj, hle⟩ := mem_ended_iff.mp hj
  rcases hj with rfl | hj
  · omega
  · have := hj.2 i le_rfl hj.1
    omega

/-- A line that is not indented further ends the last line, and perhaps blocks around it. -/
theorem ended_of_le (h : w (i + 1) ≤ w i) :
    ended w i = i :: (enclosers w i).filter fun j => w (i + 1) ≤ w j :=
  List.filter_cons_of_pos (by simpa using h)

theorem le_of_mem_ended (hj : j ∈ ended w i) : w (i + 1) ≤ w i := by
  obtain ⟨hj, hle⟩ := mem_ended_iff.mp hj
  rcases hj with rfl | hj
  · exact hle
  · exact hle.trans (hj.2 i le_rfl hj.1).le

/-- The blocks that a line ends. -/
theorem mem_tail_ended_iff : j ∈ (ended w i).tail ↔ Encloses w j i ∧ w (i + 1) ≤ w j := by
  rcases Nat.lt_or_ge (w i) (w (i + 1)) with hlt | hle
  · rw [ended_of_lt hlt]
    simp only [List.tail_nil, List.not_mem_nil, false_iff, not_and, Nat.not_le]
    intro hj
    have := hj.2 i le_rfl hj.1
    omega
  · rw [ended_of_le hle, List.tail_cons, List.mem_filter, mem_enclosers_iff, decide_eq_true_eq]

/-- The last of what a line ends is indented like it, if any is. -/
theorem getLast?_ended (hj : j ∈ ended w i) (hw : w j = w (i + 1)) :
    (ended w i).getLast? = some j := by
  have hpairwise : (ended w i).Pairwise fun a b => b < a ∧ w b < w a :=
    (pairwise_chain w i).filter _
  cases hcases : (ended w i).getLast? with
  | none => exact absurd hj (by simp [List.getLast?_eq_none_iff.mp hcases])
  | some k =>
      obtain ⟨js, hjs⟩ := List.getLast?_eq_some_iff.mp hcases
      have hle := (mem_ended_iff.mp (List.mem_of_getLast? hcases)).2
      rw [hjs] at hj hpairwise
      rcases List.mem_append.mp hj with hj | hj
      · have hlt := (List.pairwise_append.mp hpairwise).2.2 j hj k (List.mem_singleton_self k)
        omega
      · exact congrArg some (List.mem_singleton.mp hj).symm

end Osh
