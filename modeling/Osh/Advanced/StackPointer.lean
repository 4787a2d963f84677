import Mathlib.Order.Interval.Set.Defs
import Osh.Advanced.Footprint
import Osh.Lib.Lists

/-!
# Stacks in memory

A stack pointer is a register that holds an address. A push stores there and then
advances it; a pop reads there and then steps it back, so that it reads one word above
the one that was pushed last. The results are about any number of pushes or pops, in terms
of the pointer's value before the first one.

## Main definitions

* `pushAt`, `popAt`: one push, and one pop into a register.
-/
namespace Osh.Advanced
open PartialRun

/-- Store at the address in register `ptr`, and advance it. -/
def pushAt (ptr : ℕ) (v : Word) (s : St) : Option St := do
  let s ← s.store (← s.reg ptr).toNat v
  s.setReg ptr ((← s.reg ptr) + 1)

/-- Read at the address in register `ptr` into register `r`, and step it back. -/
def popAt (ptr r : ℕ) (s : St) : Option St := do
  let s ← s.setReg r (← s.load (← s.reg ptr).toNat)
  s.setReg ptr ((← s.reg ptr) - 1)

section
variable {α : Type} {s t : St} {m v : Word} {ptr r n : ℕ}

/-- The address in the pointer after `n` steps up. -/
theorem toNat_add_ofNat (hn : m.toNat + n < 2 ^ 64) :
    (m + .ofNat 64 n).toNat = m.toNat + n := by
  rw [BitVec.toNat_add, BitVec.toNat_ofNat]
  omega

/-- The address in the pointer after `n` steps down. -/
theorem toNat_sub_ofNat (hn : n ≤ m.toNat) : (m - .ofNat 64 n).toNat = m.toNat - n := by
  have := m.isLt
  rw [BitVec.toNat_sub, BitVec.toNat_ofNat]
  omega

theorem add_ofNat_succ (m : Word) (n : ℕ) : m + .ofNat 64 n + 1 = m + .ofNat 64 (n + 1) := by
  rw [BitVec.add_assoc, BitVec.ofNat_add]
  rfl

theorem sub_ofNat_succ (m : Word) (n : ℕ) : m - .ofNat 64 n - 1 = m - .ofNat 64 (n + 1) := by
  rw [BitVec.ofNat_add, ← BitVec.sub_sub]
  rfl

/-! ## Pushes -/

theorem pushAt_spec (hm : s.reg ptr = some m) (hlt : m.toNat < s.systemState.size) (v : Word) :
    ∃ t, pushAt ptr v s = some t ∧ t.reg ptr = some (m + 1) ∧ t.load m.toNat = some v ∧
      Frame {ptr} {m.toNat} s t := by
  have hu := (St.store_eq_some_iff (v := v)).mpr ⟨hlt, rfl⟩
  have hum := (St.reg_of_store hu ptr).trans hm
  obtain ⟨t, ht⟩ := St.exists_setReg hum (m + 1)
  refine ⟨t, ?_, ?_, ?_, ?_⟩
  · simp only [pushAt, hm, hu, hum, ht, Option.bind_eq_bind, Option.bind_some]
  · rw [St.reg_of_setReg ht, if_pos rfl]
  · rw [St.load_of_setReg ht, St.load_of_store hu, if_pos rfl]
  · exact (Frame.of_store hu (Set.mem_singleton _)).trans (Frame.of_setReg ht (Set.mem_singleton _))

/-- Pushes store their values at the pointer and above. The values are read along the way,
from registers or words that the pushes leave alone. -/
theorem exec_pushAt (value : St → α → Option Word) (as : List α) (hm : s.reg ptr = some m)
    (hsize : m.toNat + as.length ≤ s.systemState.size) (hword : s.systemState.size ≤ 2 ^ 64)
    (hsome : ∀ a ∈ as, ∃ v, value s a = some v)
    (hvalue : ∀ t, Frame {ptr} (Set.Ico m.toNat (m.toNat + as.length)) s t →
      ∀ a ∈ as, value t a = value s a) :
    ∃ t, exec (fun s a => do pushAt ptr (← value s a) s) as s = some t ∧
      t.reg ptr = some (m + .ofNat 64 as.length) ∧
      Frame {ptr} (Set.Ico m.toNat (m.toNat + as.length)) s t ∧
      ∀ i a, as[i]? = some a → t.load (m.toNat + i) = value s a := by
  induction as using List.reverseRecOn with
  | nil => exact ⟨s, rfl, by rw [List.length_nil, BitVec.add_zero, hm], Frame.refl s, by simp⟩
  | append_singleton as a ih =>
      simp only [List.length_append, List.length_singleton] at hsize hvalue ⊢
      have hmono : Set.Ico m.toNat (m.toNat + as.length) ⊆
          Set.Ico m.toNat (m.toNat + (as.length + 1)) := Set.Ico_subset_Ico_right (by omega)
      obtain ⟨t, ht, htm, hframe, hload⟩ := ih (by omega)
        (fun a ha => hsome a (List.mem_append_left _ ha))
        fun t hframe a ha => hvalue t (hframe.mono le_rfl hmono) a (List.mem_append_left _ ha)
      have hframe' := hframe.mono (le_refl {ptr}) hmono
      have haddr : (m + .ofNat 64 as.length).toNat = m.toNat + as.length :=
        toNat_add_ofNat (by omega)
      have hlast : a ∈ as ++ [a] := List.mem_append_right _ (List.mem_singleton_self a)
      obtain ⟨v, hv⟩ := hsome a hlast
      obtain ⟨u, hu, hum, huv, hpush⟩ :=
        pushAt_spec htm (by rw [haddr, hframe.size_systemState]; omega) v
      rw [haddr] at huv hpush
      refine ⟨u, ?_, ?_, ?_, ?_⟩
      · rw [exec_append, ht, Option.bind_some, exec, hvalue t hframe' a hlast, hv,
          Option.bind_eq_bind, Option.bind_some, hu]
        rfl
      · rw [hum, add_ofNat_succ]
      · refine hframe'.trans (hpush.mono le_rfl ?_)
        rintro _ rfl
        exact ⟨Nat.le_add_right .., by omega⟩
      · intro i b hb
        rcases getElem?_append_singleton hb with hb | ⟨rfl, rfl⟩
        · have hlt := (List.getElem?_eq_some_iff.mp hb).1
          rw [← hpush.load _ (by simp only [Set.mem_singleton_iff]; omega), hload i b hb]
        · rw [huv, hv]

/-! ## Pops -/

theorem popAt_spec (hm : s.reg ptr = some m) (hr : r ≠ ptr) (hlt : r < s.registers.size)
    (hv : s.load m.toNat = some v) :
    ∃ t, popAt ptr r s = some t ∧ t.reg ptr = some (m - 1) ∧ t.reg r = some v ∧
      Frame {ptr, r} ∅ s t := by
  obtain ⟨u, hu⟩ : ∃ u, s.setReg r v = some u := ⟨_, St.setReg_eq_some_iff.mpr ⟨hlt, rfl⟩⟩
  have hum : u.reg ptr = some m := by rw [St.reg_of_setReg hu, if_neg hr.symm, hm]
  obtain ⟨t, ht⟩ := St.exists_setReg hum (m - 1)
  refine ⟨t, ?_, ?_, ?_, ?_⟩
  · simp only [popAt, hm, hv, hu, hum, ht, Option.bind_eq_bind, Option.bind_some]
  · rw [St.reg_of_setReg ht, if_pos rfl]
  · rw [St.reg_of_setReg ht, if_neg hr, St.reg_of_setReg hu, if_pos rfl]
  · have hmem : r ∈ ({ptr, r} : Set ℕ) := .inr rfl
    exact (Frame.of_setReg hu hmem).trans (Frame.of_setReg ht (.inl rfl))

/-- Pops read at the pointer and below. A register ends with the last word popped into it. -/
theorem exec_popAt (rs : List ℕ) (hm : s.reg ptr = some m) (hlen : rs.length ≤ m.toNat + 1)
    (htop : m.toNat < s.systemState.size) (hrs : ∀ r ∈ rs, r ≠ ptr ∧ r < s.registers.size) :
    ∃ t, exec (fun s r => popAt ptr r s) rs s = some t ∧
      t.reg ptr = some (m - .ofNat 64 rs.length) ∧ Frame (insert ptr {r | r ∈ rs}) ∅ s t ∧
      ∀ i r, rs[i]? = some r → (∀ j, i < j → rs[j]? ≠ some r) →
        t.reg r = s.load (m.toNat - i) := by
  induction rs using List.reverseRecOn with
  | nil => exact ⟨s, rfl, by rw [List.length_nil, BitVec.sub_zero, hm], Frame.refl s, by simp⟩
  | append_singleton rs r ih =>
      simp only [List.length_append, List.length_singleton] at hlen ⊢
      obtain ⟨t, ht, htm, hframe, hreg⟩ := ih (by omega)
        fun r hr => hrs r (List.mem_append_left _ hr)
      obtain ⟨hne, hlt⟩ := hrs r (List.mem_append_right _ (List.mem_singleton_self r))
      have haddr : (m - .ofNat 64 rs.length).toNat = m.toNat - rs.length :=
        toNat_sub_ofNat (by omega)
      obtain ⟨v, hv⟩ := NdArray.exists_get? (a := s.systemState) (i := m.toNat - rs.length)
        (by omega)
      have htv : t.load (m - .ofNat 64 rs.length).toNat = some v := by
        rw [haddr, ← hframe.load _ id]
        exact hv
      obtain ⟨u, hu, hum, hur, hpop⟩ :=
        popAt_spec htm hne (by rw [hframe.size_registers]; exact hlt) htv
      have hall : {q | q ∈ rs} ⊆ {q | q ∈ rs ++ [r]} := fun q hq => List.mem_append_left _ hq
      refine ⟨u, ?_, ?_, ?_, ?_⟩
      · rw [exec_append, ht, Option.bind_some, exec, hu]
        rfl
      · rw [hum, sub_ofNat_succ]
      · refine (hframe.mono (Set.insert_subset_insert hall) le_rfl).trans (hpop.mono ?_ le_rfl)
        rintro _ (rfl | rfl)
        · exact Set.mem_insert ..
        · exact .inr (List.mem_append_right _ (List.mem_singleton_self _))
      · intro i q hget hlast
        have hqptr : q ≠ ptr := (hrs q (List.mem_of_getElem? hget)).1
        rcases getElem?_append_singleton hget with hq | ⟨rfl, rfl⟩
        · -- the last pop is of another register
          have hqr : q ≠ r := by
            rintro rfl
            exact hlast rs.length (List.getElem?_eq_some_iff.mp hq).1 (by simp)
          have hprev : t.reg q = s.load (m.toNat - i) := by
            refine hreg i q hq fun j hij hj => ?_
            refine hlast j hij ?_
            rw [List.getElem?_append_left (List.getElem?_eq_some_iff.mp hj).1, hj]
          rw [← hpop.reg q (by rintro (rfl | rfl); exacts [hqptr rfl, hqr rfl]), hprev]
        · rw [hur]
          exact hv.symm

end
end Osh.Advanced
