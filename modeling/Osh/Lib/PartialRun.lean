import Mathlib.Data.List.Induction
import Mathlib.Logic.Basic
import Mathlib.Tactic.Common

/-!
# Runs of partial step functions

A step that may fail is a function into `Option`. This module iterates such a
step a given number of times (`iter`) or along a list of inputs (`exec`), and
supplies the induction rules every run theorem goes through: an invariant that
each step keeps holds at the end, and a lock-step simulation of steps is one of
runs.

## Main definitions

* `iter f n s`: `n` steps of `f` from `s`.
* `outputs f out n s`: what these steps put out.
* `exec step as s`: the steps on the inputs `as`, in order.
* `Along ok step as s`: every step of that run meets the condition `ok`.
* `Matches R x y`: every result of `x` is related to one of `y`.
-/
namespace Osh.PartialRun
universe u v
variable {σ : Type u} {τ : Type u} {α : Type v}

/-! ## A fixed number of steps -/

/-- `n` steps of a partial step function; `none` once a step fails. -/
def iter (f : σ → Option σ) : ℕ → σ → Option σ
  | 0, s => some s
  | n + 1, s => (iter f n s).bind f

@[simp] theorem iter_zero (f : σ → Option σ) (s : σ) : iter f 0 s = some s := rfl

theorem iter_succ (f : σ → Option σ) (n : ℕ) (s : σ) : iter f (n + 1) s = (iter f n s).bind f := rfl

theorem iter_succ_eq_some_iff {f : σ → Option σ} {n : ℕ} {s t : σ} :
    iter f (n + 1) s = some t ↔ ∃ u, iter f n s = some u ∧ f u = some t := by
  rw [iter_succ, Option.bind_eq_some_iff]

/-- A run that succeeds passes through every shorter run. -/
theorem iter_prefix {f : σ → Option σ} {n : ℕ} {s t : σ} (h : iter f n s = some t) :
    ∀ m ≤ n, ∃ u, iter f m s = some u := by
  induction n generalizing t with
  | zero =>
      intro m hm
      obtain rfl : m = 0 := by omega
      exact ⟨s, rfl⟩
  | succ n ih =>
      obtain ⟨u, hu, _⟩ := iter_succ_eq_some_iff.mp h
      intro m hm
      rcases Nat.lt_or_ge n m with hlt | hle
      · obtain rfl : m = n + 1 := by omega
        exact ⟨t, h⟩
      · exact ih hu m hle

/-- **Induction along a run.** A predicate of the step number and the state that
holds at the start and is kept by every step taken holds at the end. -/
theorem iter_induction {f : σ → Option σ} (P : ℕ → σ → Prop) {n : ℕ} {s t : σ}
    (h0 : P 0 s)
    (hstep : ∀ j u v, j < n → iter f j s = some u → P j u → f u = some v → P (j + 1) v)
    (h : iter f n s = some t) : P n t := by
  induction n generalizing t with
  | zero =>
      obtain rfl : s = t := Option.some.inj h
      exact h0
  | succ n ih =>
      obtain ⟨u, hu, huv⟩ := iter_succ_eq_some_iff.mp h
      have hP : P n u := ih (fun j u v hj => hstep j u v (by omega)) hu
      exact hstep n u t (by omega) hu hP huv

/-- **Lock-step simulation.** If every step taken on the left is matched by a
step on the right, then the whole run is, and the final states are related. -/
theorem iter_simulation {f : σ → Option σ} {g : τ → Option τ} (R : ℕ → σ → τ → Prop)
    {n : ℕ} {s s' : σ} {t : τ} (h0 : R 0 s t)
    (hstep : ∀ j u u' v, j < n → iter f j s = some u → R j u v → f u = some u' →
      ∃ v', g v = some v' ∧ R (j + 1) u' v')
    (h : iter f n s = some s') : ∃ t', iter g n t = some t' ∧ R n s' t' := by
  induction n generalizing s' with
  | zero =>
      obtain rfl : s = s' := Option.some.inj h
      exact ⟨t, rfl, h0⟩
  | succ n ih =>
      obtain ⟨u, hu, hus'⟩ := iter_succ_eq_some_iff.mp h
      obtain ⟨v, hv, hR⟩ := ih (fun j u u' v hj => hstep j u u' v (by omega)) hu
      obtain ⟨v', hvv', hR'⟩ := hstep n u s' v (by omega) hu hR hus'
      exact ⟨v', iter_succ_eq_some_iff.mpr ⟨v, hv, hvv'⟩, hR'⟩

/-! ## The output of a run -/

/-- What `n` steps put out, in order, if a step from `s` puts out `out s`. -/
def outputs (f : σ → Option σ) (out : σ → List α) : ℕ → σ → List α
  | 0, _ => []
  | n + 1, s => outputs f out n s ++ ((iter f n s).map out).getD []

/-- **Induction along the output.** If each step adds to the output what the next value of `G`
has at its end, the output of the run is the last of these values. -/
theorem outputs_eq {f : σ → Option σ} {out : σ → List α} {s : σ} {G : ℕ → List α} (h0 : G 0 = [])
    {n : ℕ} (h : ∀ k < n, ∃ t, iter f k s = some t ∧ G (k + 1) = G k ++ out t) :
    outputs f out n s = G n := by
  induction n with
  | zero => exact h0.symm
  | succ n ih =>
      obtain ⟨t, ht, hG⟩ := h n (Nat.lt_succ_self n)
      rw [outputs, ih fun k hk => h k (Nat.lt_succ_of_lt hk), ht, hG]
      rfl

/-! ## Steps along a list of inputs -/

/-- The steps on the given inputs, in order; `none` once a step fails. -/
def exec (step : σ → α → Option σ) : List α → σ → Option σ
  | [], s => some s
  | a :: as, s => (step s a).bind (exec step as)

@[simp] theorem exec_nil (step : σ → α → Option σ) (s : σ) : exec step [] s = some s := rfl

theorem exec_cons_eq_some_iff {step : σ → α → Option σ} {a : α} {as : List α} {s t : σ} :
    exec step (a :: as) s = some t ↔ ∃ u, step s a = some u ∧ exec step as u = some t :=
  Option.bind_eq_some_iff

theorem exec_append (step : σ → α → Option σ) (as bs : List α) (s : σ) :
    exec step (as ++ bs) s = (exec step as s).bind (exec step bs) := by
  induction as generalizing s with
  | nil => rfl
  | cons a as ih =>
      simp only [List.cons_append, exec, Option.bind_assoc]
      exact congrArg _ (funext fun u => ih u)

/-- Steps that are the same on each input make the same run. -/
theorem exec_congr {f g : σ → α → Option σ} {as : List α} (h : ∀ s, ∀ a ∈ as, f s a = g s a)
    (s : σ) : exec f as s = exec g as s := by
  induction as generalizing s with
  | nil => rfl
  | cons a as ih =>
      rw [exec, exec, h s a (List.mem_cons_self ..)]
      exact congrArg _ (funext fun u => ih (fun t b hb => h t b (List.mem_cons_of_mem a hb)) u)

/-- A step without input that does in turn what the steps on the inputs do. -/
theorem iter_eq_exec {f : σ → Option σ} {step : σ → α → Option σ} {as : List α} {s : σ}
    (h : ∀ i a u, as[i]? = some a → exec step (as.take i) s = some u → f u = step u a) :
    iter f as.length s = exec step as s := by
  induction as using List.reverseRecOn with
  | nil => rfl
  | append_singleton as a ih =>
      have hprefix : iter f as.length s = exec step as s := by
        refine ih fun i b u hb hu => h i b u ?_ ?_
        · rw [List.getElem?_append_left (List.getElem?_eq_some_iff.mp hb).1, hb]
        · rw [List.take_append_of_le_length (Nat.le_of_lt (List.getElem?_eq_some_iff.mp hb).1), hu]
      rw [List.length_append, List.length_singleton, iter_succ, hprefix, exec_append]
      refine Option.bind_congr fun u hu => ?_
      rw [h as.length a u (by simp) (by simpa using hu), exec]
      exact (Option.bind_fun_some _).symm

/-- The last iteration of a loop over `0, …, n`. -/
theorem exec_range_succ (step : σ → ℕ → Option σ) (n : ℕ) (s : σ) :
    exec step (List.range (n + 1)) s = (exec step (List.range n) s).bind (step · n) := by
  rw [List.range_succ, exec_append]
  simp only [exec, Option.bind_fun_some]

/-- Every step of the run along the given inputs meets a condition on the state
before it and its input. -/
def Along (ok : σ → α → Prop) (step : σ → α → Option σ) : List α → σ → Prop
  | [], _ => True
  | a :: as, s => ok s a ∧ ∀ u ∈ step s a, Along ok step as u

instance (ok : σ → α → Prop) [∀ s a, Decidable (ok s a)] (step : σ → α → Option σ) :
    ∀ as s, Decidable (Along ok step as s)
  | [], _ => inferInstanceAs (Decidable True)
  | a :: as, s =>
      have : ∀ u, Decidable (Along ok step as u) := instDecidableAlong ok step as
      inferInstanceAs (Decidable (ok s a ∧ ∀ u ∈ step s a, Along ok step as u))

theorem Along.mono {ok ok' : σ → α → Prop} {step : σ → α → Option σ} {as : List α} {s : σ}
    (h : Along ok step as s) (himp : ∀ s, ∀ a ∈ as, ok s a → ok' s a) : Along ok' step as s := by
  induction as generalizing s with
  | nil => trivial
  | cons a as ih =>
      refine ⟨himp s a (List.mem_cons_self ..) h.1, ?_⟩
      intro u hu
      exact ih (h.2 u hu) fun t b hb => himp t b (List.mem_cons_of_mem a hb)

theorem Along.of_forall {ok : σ → α → Prop} {step : σ → α → Option σ} {as : List α} {s : σ}
    (h : ∀ s, ∀ a ∈ as, ok s a) : Along ok step as s := by
  induction as generalizing s with
  | nil => trivial
  | cons a as ih =>
      refine ⟨h s a (List.mem_cons_self ..), ?_⟩
      intro u _
      exact ih fun t b hb => h t b (List.mem_cons_of_mem a hb)

theorem Along.and {ok ok' : σ → α → Prop} {step : σ → α → Option σ} {as : List α} {s : σ}
    (h : Along ok step as s) (h' : Along ok' step as s) :
    Along (fun s a => ok s a ∧ ok' s a) step as s := by
  induction as generalizing s with
  | nil => trivial
  | cons a as ih =>
      refine ⟨⟨h.1, h'.1⟩, ?_⟩
      intro u hu
      exact ih (h.2 u hu) (h'.2 u hu)

/-- **Induction along inputs.** An invariant kept by every step that meets the
condition holds at the end of every run whose steps all meet it. -/
theorem exec_induction {step : σ → α → Option σ} {ok : σ → α → Prop} (P : σ → Prop)
    (hstep : ∀ s a s', P s → ok s a → step s a = some s' → P s') {as : List α} {s t : σ}
    (h0 : P s) (hok : Along ok step as s) (h : exec step as s = some t) : P t := by
  induction as generalizing s with
  | nil =>
      obtain rfl : s = t := Option.some.inj h
      exact h0
  | cons a as ih =>
      obtain ⟨u, hu, hut⟩ := exec_cons_eq_some_iff.mp h
      exact ih (hstep s a u h0 hok.1 hu) (hok.2 u hu) hut

/-- An invariant under which every step that meets the condition succeeds, and which it
keeps: every run whose steps all meet the condition succeeds. -/
theorem exec_total {step : σ → α → Option σ} {ok : σ → α → Prop} (P : σ → Prop)
    (hstep : ∀ s a, P s → ok s a → ∃ s', step s a = some s' ∧ P s') {as : List α} {s : σ}
    (h0 : P s) (hok : Along ok step as s) : ∃ t, exec step as s = some t ∧ P t := by
  induction as generalizing s with
  | nil => exact ⟨s, rfl, h0⟩
  | cons a as ih =>
      obtain ⟨u, hu, hP⟩ := hstep s a h0 hok.1
      obtain ⟨t, ht, hPt⟩ := ih hP (hok.2 u hu)
      exact ⟨t, exec_cons_eq_some_iff.mpr ⟨u, hu, ht⟩, hPt⟩

/-- **A measure that only grows.** If no step makes the measure smaller, and a step keeps it
exactly when it meets the condition, then a run ends with the measure it started with if and
only if every step of it meets the condition. -/
theorem along_iff_of_measure {step : σ → α → Option σ} {ok : σ → α → Prop} (P : σ → Prop)
    (μ : σ → ℕ) (hstep : ∀ s a t, P s → step s a = some t →
      P t ∧ μ s ≤ μ t ∧ (ok s a ↔ μ t = μ s)) {as : List α} {s t : σ} (h0 : P s)
    (h : exec step as s = some t) : P t ∧ μ s ≤ μ t ∧ (Along ok step as s ↔ μ t = μ s) := by
  induction as generalizing s with
  | nil =>
      obtain rfl : s = t := Option.some.inj h
      exact ⟨h0, Nat.le_refl _, iff_of_true trivial rfl⟩
  | cons a as ih =>
      obtain ⟨u, hu, hut⟩ := exec_cons_eq_some_iff.mp h
      obtain ⟨hPu, hle, hok⟩ := hstep s a u h0 hu
      obtain ⟨hPt, hle', halong⟩ := ih hPu hut
      refine ⟨hPt, Nat.le_trans hle hle', ?_⟩
      have hnext : (∀ v ∈ step s a, Along ok step as v) ↔ Along ok step as u := by
        simp [hu]
      rw [Along, hnext, hok, halong]
      omega

/-- **A measure that every step makes smaller** bounds the length of a run. -/
theorem exec_length_le {step : σ → α → Option σ} (P : σ → Prop) (μ : σ → ℕ)
    (hstep : ∀ s a t, P s → step s a = some t → P t ∧ μ t < μ s) {as : List α} {s t : σ}
    (h0 : P s) (h : exec step as s = some t) : as.length + μ t ≤ μ s := by
  induction as generalizing s with
  | nil =>
      obtain rfl : s = t := Option.some.inj h
      exact Nat.le_of_eq (Nat.zero_add _)
  | cons a as ih =>
      obtain ⟨u, hu, hut⟩ := exec_cons_eq_some_iff.mp h
      obtain ⟨hPu, hlt⟩ := hstep s a u h0 hu
      have hle : as.length + μ t ≤ μ u := ih hPu hut
      rw [List.length_cons]
      omega

/-! ## Matched results -/

section
variable {β γ δ : Type u}

/-- A result on the left is matched by a related result on the right. -/
def Matches (R : β → γ → Prop) (x : Option β) (y : Option γ) : Prop := ∀ a ∈ x, ∃ b ∈ y, R a b

/-- Matched results, continued in matched ways, are matched. -/
theorem Matches.bind {R : β → γ → Prop} {S : δ → δ → Prop} {x : Option β} {y : Option γ}
    {f : β → Option δ} {g : γ → Option δ} (h : Matches R x y)
    (hfg : ∀ a ∈ x, ∀ b, R a b → Matches S (f a) (g b)) : Matches S (x.bind f) (y.bind g) := by
  intro c hc
  obtain ⟨a, ha, hac⟩ := Option.bind_eq_some_iff.mp hc
  obtain ⟨b, hb, hR⟩ := h a ha
  obtain ⟨d, hd, hS⟩ := hfg a ha b hR c hac
  exact ⟨d, Option.bind_eq_some_iff.mpr ⟨b, hb, hd⟩, hS⟩

/-- Both sides continue from the same value. -/
theorem Matches.bind_eq {S : δ → δ → Prop} {x y : Option β} {f g : β → Option δ} (h : x = y)
    (hfg : ∀ a ∈ x, Matches S (f a) (g a)) : Matches S (x.bind f) (y.bind g) := by
  refine Matches.bind (R := Eq) ?_ ?_
  · rintro a ha
    exact ⟨a, h ▸ ha, rfl⟩
  · rintro a ha _ rfl
    exact hfg a ha

theorem matches_some {R : β → γ → Prop} {a : β} {b : γ} (h : R a b) :
    Matches R (some a) (some b) := by
  intro a' ha
  cases ha
  exact ⟨b, rfl, h⟩

theorem matches_none {R : β → γ → Prop} {y : Option γ} : Matches R none y := by
  intro a ha
  cases ha

end

end Osh.PartialRun
