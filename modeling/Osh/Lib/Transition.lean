import Mathlib.Computability.StateTransition

/-!
# Reaching related states

Step functions that stop, and what one that respects another reaches. The respecting one may
begin before the first pair of related states.

## Main results

* `exists_related_of_reaches`: whatever is reached leads on to a related state.
* `reaches_congr`: step functions that agree on what is reached reach the same.
* `prefix_of_reaches`: what each step only appends to.
-/
namespace Osh
open StateTransition Relation
universe u v w
variable {σ₁ : Type u} {σ₂ : Type v} {α : Type w} {f g : σ₁ → Option σ₁} {f₂ : σ₂ → Option σ₂}
variable {tr : σ₁ → σ₂ → Prop} {a b : σ₁} {s a₂ b₂ : σ₂}

/-- From wherever the second machine is, it goes on to a state related to one that the first
reaches. -/
theorem exists_related_of_reaches (hrespects : Respects f f₂ tr) (hstart : Reaches f₂ s a₂)
    (hrelated : tr a a₂) (h : Reaches f₂ s b₂) :
    ∃ c c₂, Reaches f a c ∧ tr c c₂ ∧ Reaches f₂ b₂ c₂ := by
  rcases reaches_total hstart h with hafter | hbefore
  · obtain ⟨c, c₂, hreach, hc, hac⟩ := tr_reaches_rev hrespects hrelated hafter
    exact ⟨c, c₂, hac, hc, hreach⟩
  · exact ⟨a, a₂, .refl, hrelated, hbefore⟩

/-- Where the machine has stopped it stays. -/
theorem eq_of_reaches (hstop : f a = none) (h : Reaches f a b) : a = b := by
  rcases ReflTransGen.cases_head h with heq | ⟨c, hc, -⟩
  · exact heq
  · rw [Option.mem_def, hstop] at hc
    cases hc

theorem reaches_of_agree (hagree : ∀ c, Reaches f a c → f c = g c) (h : Reaches f a b) :
    Reaches g a b := by
  induction h with
  | refl => exact .refl
  | tail hreach hstep ih =>
      rw [hagree _ hreach] at hstep
      exact ih.tail hstep

/-- Step functions that agree on all that one of them reaches. -/
theorem reaches_congr (hagree : ∀ c, Reaches f a c → f c = g c) :
    Reaches f a b ↔ Reaches g a b := by
  refine ⟨reaches_of_agree hagree, fun h => ?_⟩
  induction h with
  | refl => exact .refl
  | tail _ hstep ih =>
      rw [← hagree _ ih] at hstep
      exact ih.tail hstep

theorem prefix_of_reaches {obs : σ₁ → List α} (hstep : ∀ a b, b ∈ f a → obs a <+: obs b)
    (h : Reaches f a b) : obs a <+: obs b := by
  induction h with
  | refl => exact List.prefix_refl _
  | tail _ hbc ih => exact ih.trans (hstep _ _ hbc)

end Osh
