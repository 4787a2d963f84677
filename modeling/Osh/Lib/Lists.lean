import Mathlib.Data.List.TakeWhile
import Mathlib.Order.Bounds.Defs
import Mathlib.Order.Nat

/-!
# Lists that are cut, traversed and looked up

Operations on lists where the result is known from the elements: cutting a list where a
predicate first fails, or at an element, counting by two predicates, a partial map over a
list, the lookup of a key in a table that is a map over a list, the entries of a list with
one more element, and those of a filtered list.
-/
namespace Osh
variable {α β γ : Type}

/-! ## Cutting where a predicate fails -/

theorem takeWhile_append_of_all {p : α → Bool} {t rest : List α} (ht : ∀ x ∈ t, p x = true)
    (hrest : rest.head?.any p = false) : (t ++ rest).takeWhile p = t := by
  rw [List.takeWhile_append_of_pos ht]
  cases rest with
  | nil => simp
  | cons x rest =>
      have hx : p x = false := hrest
      simp [hx]

theorem dropWhile_append_of_all {p : α → Bool} {t rest : List α} (ht : ∀ x ∈ t, p x = true)
    (hrest : rest.head?.any p = false) : (t ++ rest).dropWhile p = rest := by
  rw [List.dropWhile_append_of_pos ht]
  cases rest with
  | nil => rfl
  | cons x rest =>
      have hx : p x = false := hrest
      simp [hx]

/-- There is one way to cut a list where a predicate first fails. -/
theorem append_inj_of_all {p : α → Bool} {xs ys rest rest' : List α}
    (h : xs ++ rest = ys ++ rest') (hxs : ∀ x ∈ xs, p x = true) (hys : ∀ y ∈ ys, p y = true)
    (hrest : rest.head?.any p = false) (hrest' : rest'.head?.any p = false) :
    xs = ys ∧ rest = rest' := by
  constructor
  · rw [← takeWhile_append_of_all hxs hrest, h, takeWhile_append_of_all hys hrest']
  · rw [← dropWhile_append_of_all hxs hrest, h, dropWhile_append_of_all hys hrest']

/-- A list on which a test holds first and then fails is cut in two by it. -/
theorem filter_append_filter_not {p : α → Bool} {l : List α}
    (h : l.Pairwise fun a b => p b = true → p a = true) :
    l.filter p ++ l.filter (fun a => !p a) = l := by
  induction l with
  | nil => rfl
  | cons a l ih =>
      obtain ⟨ha, hl⟩ := List.pairwise_cons.mp h
      by_cases hpa : p a = true
      · simp [hpa, ih hl]
      · have hnone : l.filter p = [] :=
          List.filter_eq_nil_iff.mpr fun b hb hpb => hpa (ha b hb hpb)
        have hall : l.filter (fun a => !p a) = l := by
          refine List.filter_eq_self.mpr fun b hb => ?_
          simpa using fun hpb => hpa (ha b hb hpb)
        simp [hpa, hnone, hall]

/-! ## Cutting at an element -/

/-- A list that is cut where an element first occurs is cut at the least index that
holds it. -/
theorem isLeast_getElem? {a : α} {before : List α} (after : List α) (h : a ∉ before) :
    IsLeast {i | (before ++ a :: after)[i]? = some a} before.length := by
  constructor
  · show (before ++ a :: after)[before.length]? = some a
    rw [List.getElem?_append_right (Nat.le_refl _), Nat.sub_self, List.getElem?_cons_zero]
  · intro i (hi : (before ++ a :: after)[i]? = some a)
    by_contra hlt
    rw [List.getElem?_append_left (Nat.lt_of_not_le hlt)] at hi
    exact h (List.mem_of_getElem? hi)

theorem set_append_cons (before : List α) (a b : α) (after : List α) :
    (before ++ a :: after).set before.length b = before ++ b :: after := by
  rw [List.set_append_right _ _ (Nat.le_refl _), Nat.sub_self, List.set_cons_zero]

/-! ## Counting -/

/-- A test that holds wherever another does, and once more, holds more often. -/
theorem countP_lt_countP {p q : α → Bool} {as : List α} {a : α}
    (h : ∀ b ∈ as, p b = true → q b = true) (ha : a ∈ as) (hp : ¬ p a = true)
    (hq : q a = true) : as.countP p < as.countP q := by
  obtain ⟨before, behind, rfl⟩ := List.append_of_mem ha
  have hbefore : before.countP p ≤ before.countP q :=
    List.countP_mono_left fun b hb => h b (List.mem_append_left _ hb)
  have hbehind : behind.countP p ≤ behind.countP q :=
    List.countP_mono_left fun b hb => h b (List.mem_append_right _ (List.mem_cons_of_mem a hb))
  rw [List.countP_append, List.countP_append, List.countP_cons_of_neg hp,
    List.countP_cons_of_pos hq]
  omega

/-! ## Partial maps -/

theorem mapM_eq_some {f : α → Option β} {g : α → β} {as : List α}
    (h : ∀ a ∈ as, f a = some (g a)) : as.mapM f = some (as.map g) := by
  induction as with
  | nil => rfl
  | cons a as ih =>
      have ha : f a = some (g a) := h a (List.mem_cons_self ..)
      simp [ha, ih fun b hb => h b (List.mem_cons_of_mem a hb)]

theorem mapM_eq_none {f : α → Option β} {as : List α} {a : α} (ha : a ∈ as)
    (h : f a = none) : as.mapM f = none := by
  induction as with
  | nil => exact absurd ha List.not_mem_nil
  | cons b as ih =>
      rcases List.mem_cons.mp ha with rfl | ha
      · simp [h]
      · cases f b <;> simp [ih ha]

/-! ## Tables -/

/-- The entry under the key of an element, where no other element has that key. -/
theorem lookup_map [BEq β] [LawfulBEq β] (key : α → β) (val : α → γ) {as : List α} {a : α}
    (ha : a ∈ as) (hkey : ∀ b ∈ as, key b = key a → b = a) :
    (as.map fun b => (key b, val b)).lookup (key a) = some (val a) := by
  induction as with
  | nil => exact absurd ha List.not_mem_nil
  | cons b as ih =>
      by_cases hba : key b = key a
      · obtain rfl : b = a := hkey b (List.mem_cons_self ..) hba
        simp
      · have hne : a ≠ b := fun hab => hba (hab ▸ rfl)
        have hmem : a ∈ as := (List.mem_cons.mp ha).resolve_left hne
        have hbeq : (key a == key b) = false := by
          simpa using fun heq => hba heq.symm
        rw [List.map_cons, List.lookup_cons, hbeq]
        exact ih hmem fun c hc => hkey c (List.mem_cons_of_mem b hc)

/-! ## One more element -/

/-- An entry of a list with one more element is an entry of the list, or that element. -/
theorem getElem?_append_singleton {as : List α} {a b : α} {i : ℕ}
    (h : (as ++ [a])[i]? = some b) : as[i]? = some b ∨ i = as.length ∧ a = b := by
  rcases Nat.lt_or_ge i as.length with hlt | hge
  · rw [List.getElem?_append_left hlt] at h
    exact .inl h
  · rw [List.getElem?_append_right hge, List.getElem?_singleton] at h
    split at h
    · exact .inr ⟨by omega, Option.some.inj h⟩
    · cases h

end Osh
