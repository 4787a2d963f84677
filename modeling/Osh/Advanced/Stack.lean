import Osh.Advanced.StackPointer

/-!
# PUSH and POP

PUSH stores at SP and then advances it. POP reads at SP before it steps it back, so a POP
loads the word one above the one that the last PUSH stored: the first POP after `n` PUSHes
loads a word that none of them wrote, and every further POP loads what the POP before it
should have loaded. The values come back in reverse order only when they are all equal to
the word above them.

## Main definitions

* `push`, `pop`: one instruction, as it is executed.
* `LoadsInReverse rs qs s`: PUSHes of `rs` and then POPs into `qs` form a stack.
* `Pushed rs sp s u`: what PUSHes of `rs` make of the state `s`.
-/
namespace Osh.Advanced
open PartialRun

section
variable [NumPy]

/-- `PUSH r`, with the two further operands that the decoder finds in its word. -/
def push (s : St) (r : ℕ) : Option St :=
  executeInstruction PUSH (.val (.ofNat 64 r), .val 0, .val 0) s

/-- `POP r` -/
def pop (s : St) (r : ℕ) : Option St :=
  executeInstruction POP (.val (.ofNat 64 r), .val 0, .val 0) s

/-- PUSHes of the registers `rs` and as many POPs into `qs` succeed and restore SP, and the
POPs load what has been pushed, last first. -/
def LoadsInReverse (rs qs : List ℕ) (s : St) : Prop :=
  ∃ u t, exec push rs s = some u ∧ exec pop qs u = some t ∧ t.reg SP = s.reg SP ∧
    ∀ j < qs.length, ∃ v, exec pop (qs.take (j + 1)) u = some v ∧
      ∀ q ∈ qs[j]?, ∀ r ∈ rs[rs.length - 1 - j]?, v.reg q = s.reg r

variable {s t u : St} {sp : Word} {r q : ℕ} {rs qs : List ℕ}

omit [NumPy] in
theorem toNat_register (hr : r < NREGS) : (BitVec.ofNat 64 r).toNat = r := by
  simp only [NREGS] at hr
  rw [BitVec.toNat_ofNat]
  omega

theorem push_eq (hr : r < NREGS) (s : St) : push s r = (do pushAt SP (← s.reg r) s) := by
  rw [push, executeInstruction_PUSH, toNat_register hr]
  -- the pointer is read first here and the register first there
  cases hsp : s.reg SP with
  | none => cases s.reg r with
    | none => rfl
    | some v => simp only [pushAt, hsp, Option.bind_eq_bind, Option.bind_some, Option.bind_none]
  | some sp => simp only [pushAt, hsp, Option.bind_eq_bind, Option.bind_some]

theorem pop_eq (hr : r < NREGS) (s : St) : pop s r = popAt SP r s := by
  rw [pop, executeInstruction_POP, toNat_register hr]
  rfl

/-- The registers `rs` of `s` lie in `u` from the old SP on, in their order. -/
structure Pushed (rs : List ℕ) (sp : Word) (s u : St) : Prop where
  pointer : u.reg SP = some (sp + .ofNat 64 rs.length)
  frame : Frame {SP} (Set.Ico sp.toNat (sp.toNat + rs.length)) s u
  load : ∀ i r, rs[i]? = some r → u.load (sp.toNat + i) = s.reg r

theorem exec_push (hsp : s.reg SP = some sp) (hroom : sp.toNat + rs.length ≤ s.systemState.size)
    (hword : s.systemState.size < 2 ^ 64)
    (hrs : ∀ r ∈ rs, r < s.registers.size ∧ r < NREGS ∧ r ≠ SP) :
    ∃ u, exec push rs s = some u ∧ Pushed rs sp s u := by
  obtain ⟨u, hu, husp, hframe, hload⟩ := exec_pushAt St.reg rs hsp hroom (Nat.le_of_lt hword)
    (fun r hr => NdArray.exists_get? (hrs r hr).1)
    fun t hframe r hr => (hframe.reg r (hrs r hr).2.2).symm
  refine ⟨u, ?_, husp, hframe, hload⟩
  rw [← hu]
  exact PartialRun.exec_congr (fun t r hr => push_eq (hrs r hr).2.1 t) s

/-- A POP raises unless SP is inside memory. -/
theorem lt_size_of_pop (hsp : u.reg SP = some sp) (hq : q < NREGS) (h : pop u q = some t) :
    sp.toNat < u.systemState.size := by
  rw [pop_eq hq] at h
  obtain ⟨m, hm, h⟩ := Option.bind_eq_some_iff.mp h
  obtain rfl : sp = m := Option.some.inj (hsp.symm.trans hm)
  obtain ⟨w, hw, -⟩ := Option.bind_eq_some_iff.mp h
  exact NdArray.lt_size_of_get? hw

/-- The POP number `j`, counted from 0, loads the word `j` below SP. -/
theorem exec_pop_take {j : ℕ} (hsp : u.reg SP = some sp) (htop : sp.toNat < u.systemState.size)
    (hlen : qs.length ≤ sp.toNat) (hqs : ∀ q ∈ qs, q < u.registers.size ∧ q < NREGS ∧ q ≠ SP)
    (hq : qs[j]? = some q) :
    ∃ v, exec pop (qs.take (j + 1)) u = some v ∧ v.reg SP = some (sp - .ofNat 64 (j + 1)) ∧
      v.reg q = u.load (sp.toNat - j) := by
  have hj : j < qs.length := (List.getElem?_eq_some_iff.mp hq).1
  have hmem : ∀ q ∈ qs.take (j + 1), q ∈ qs := fun q hq => List.mem_of_mem_take hq
  have htake : (qs.take (j + 1)).length = j + 1 := by
    rw [List.length_take]
    omega
  obtain ⟨v, hv, hvsp, -, hreg⟩ := exec_popAt (qs.take (j + 1)) hsp (by omega) htop
    fun q hq => ⟨(hqs q (hmem q hq)).2.2, (hqs q (hmem q hq)).1⟩
  refine ⟨v, ?_, by rw [hvsp, htake], hreg j q ?_ fun i hi hget => ?_⟩
  · rw [← hv]
    exact PartialRun.exec_congr (fun t q hq => pop_eq (hqs q (hmem q hq)).2.1 t) u
  · rw [List.getElem?_take_of_lt (Nat.lt_succ_self j), hq]
  · have hlt := (List.getElem?_eq_some_iff.mp hget).1
    omega

namespace Pushed
variable {j : ℕ}

omit [NumPy] in
/-- The word above the pushed ones is the one that was there before. -/
theorem load_above (h : Pushed rs sp s u) :
    u.load (sp.toNat + rs.length) = s.load (sp.toNat + rs.length) :=
  (h.frame.load _ (by simp only [Set.mem_Ico]; omega)).symm

omit [NumPy] in
/-- Every POP but the first finds the register that the POP before it should have loaded. -/
theorem load_below (h : Pushed rs sp s u) (hj : j + 1 < rs.length)
    (hr : rs[rs.length - 1 - j]? = some r) :
    u.load (sp.toNat + rs.length - (j + 1)) = s.reg r := by
  rw [← h.load _ r hr]
  congr 1
  omega

/-- What the POPs after the PUSHes load. -/
theorem pop_take (h : Pushed rs sp s u) (hword : s.systemState.size < 2 ^ 64)
    (htop : sp.toNat + rs.length < s.systemState.size) (hlen : qs.length = rs.length)
    (hregs : s.registers.size = NREGS) (hqs : ∀ q ∈ qs, q < NREGS ∧ q ≠ SP)
    (hq : qs[j]? = some q) :
    ∃ v, exec pop (qs.take (j + 1)) u = some v ∧
      v.reg SP = some (sp + .ofNat 64 rs.length - .ofNat 64 (j + 1)) ∧
      v.reg q = u.load (sp.toNat + rs.length - j) := by
  have haddr : (sp + .ofNat 64 rs.length).toNat = sp.toNat + rs.length :=
    toNat_add_ofNat (by omega)
  have hsize : u.registers.size = NREGS := h.frame.size_registers.trans hregs
  rw [← haddr]
  refine exec_pop_take h.pointer ?_ (by omega) (fun q hq => ⟨?_, hqs q hq⟩) hq
  · rw [haddr, h.frame.size_systemState]
    exact htop
  · rw [hsize]
    exact (hqs q hq).1

/-- POPs after the PUSHes raise unless the word above the pushed ones is in memory. -/
theorem lt_size (h : Pushed rs sp s u) (hword : s.systemState.size < 2 ^ 64)
    (hroom : sp.toNat + rs.length ≤ s.systemState.size) (hlen : qs.length = rs.length)
    (hqs : ∀ q ∈ qs, q < NREGS ∧ q ≠ SP) (hpos : 0 < rs.length) (ht : exec pop qs u = some t) :
    sp.toNat + rs.length < s.systemState.size := by
  cases qs with
  | nil => exact absurd hlen (Nat.ne_of_lt hpos)
  | cons q qs =>
      obtain ⟨v, hv, -⟩ := exec_cons_eq_some_iff.mp ht
      have hlt := lt_size_of_pop h.pointer (hqs q (List.mem_cons_self ..)).1 hv
      rw [h.frame.size_systemState, toNat_add_ofNat (by omega)] at hlt
      exact hlt

omit [NumPy] in
/-- Where each pushed register equals the word above its own, from the last one pushed to the
first, it equals the word above them all. -/
theorem eq_above (h : Pushed rs sp s u)
    (hread : ∀ j < rs.length, ∀ r ∈ rs[rs.length - 1 - j]?,
      s.reg r = u.load (sp.toNat + rs.length - j)) :
    ∀ r ∈ rs, s.reg r = s.load (sp.toNat + rs.length) := by
  have hall : ∀ j < rs.length, ∀ r ∈ rs[rs.length - 1 - j]?,
      s.reg r = s.load (sp.toNat + rs.length) := by
    intro j
    induction j with
    | zero =>
        intro hj r hr
        rw [hread 0 hj r hr, Nat.sub_zero, h.load_above]
    | succ j ih =>
        intro hj r hr
        have hprev : rs[rs.length - 1 - j]? = some rs[rs.length - 1 - j] :=
          List.getElem?_eq_getElem (by omega)
        rw [hread (j + 1) hj r hr, h.load_below hj hprev, ih (by omega) _ hprev]
  intro r hr
  obtain ⟨i, hi⟩ := List.getElem?_of_mem hr
  have hlt := (List.getElem?_eq_some_iff.mp hi).1
  refine hall (rs.length - 1 - i) (by omega) r ?_
  rw [show rs.length - 1 - (rs.length - 1 - i) = i by omega]
  exact hi

omit [NumPy] in
/-- Where all pushed registers equal the word above them, so does every word that is popped. -/
theorem load_of_same (h : Pushed rs sp s u)
    (hsame : ∀ r ∈ rs, s.reg r = s.load (sp.toNat + rs.length)) (hj : j < rs.length) :
    u.load (sp.toNat + rs.length - j) = s.load (sp.toNat + rs.length) := by
  cases j with
  | zero => exact h.load_above
  | succ j =>
      have hprev : rs[rs.length - 1 - j]? = some rs[rs.length - 1 - j] :=
        List.getElem?_eq_getElem (by omega)
      rw [h.load_below hj hprev, hsame _ (List.mem_of_getElem? hprev)]

end Pushed

/-- **PUSH and POP form a stack only for registers that all hold the word above the pushed
ones**, which may lie outside memory. -/
theorem loadsInReverse_iff (hsp : s.reg SP = some sp) (hregs : s.registers.size = NREGS)
    (hword : s.systemState.size < 2 ^ 64)
    (hroom : sp.toNat + rs.length ≤ s.systemState.size) (hlen : qs.length = rs.length)
    (hrs : ∀ r ∈ rs, r < NREGS ∧ r ≠ SP) (hqs : ∀ q ∈ qs, q < NREGS ∧ q ≠ SP) :
    LoadsInReverse rs qs s ↔ ∀ r ∈ rs, s.reg r = s.load (sp.toNat + rs.length) := by
  obtain ⟨u, hu, hpushed⟩ := exec_push hsp hroom hword
    fun r hr => ⟨hregs ▸ (hrs r hr).1, hrs r hr⟩
  constructor
  · rintro ⟨u', t, hu', ht, -, hloads⟩
    obtain rfl : u = u' := Option.some.inj (hu.symm.trans hu')
    refine hpushed.eq_above ?_
    intro j hj r hr
    have htop := hpushed.lt_size hword hroom hlen hqs (by omega) ht
    have hq : qs[j]? = some qs[j] := List.getElem?_eq_getElem (by omega)
    obtain ⟨v, hv, hreg⟩ := hloads j (by omega)
    obtain ⟨v', hv', -, hreg'⟩ := hpushed.pop_take hword htop hlen hregs hqs hq
    obtain rfl : v = v' := Option.some.inj (hv.symm.trans hv')
    rw [← hreg _ hq r hr, hreg']
  · intro hsame
    rcases Nat.eq_zero_or_pos rs.length with hzero | hpos
    · obtain rfl : qs = [] := List.length_eq_zero_iff.mp (hlen.trans hzero)
      refine ⟨u, u, hu, rfl, ?_, fun j hj => absurd hj (Nat.not_lt_zero j)⟩
      rw [hpushed.pointer, hsp, hzero, BitVec.add_zero]
    · have htop : sp.toNat + rs.length < s.systemState.size := by
        have hmem : rs[0] ∈ rs := List.getElem_mem hpos
        obtain ⟨v, hv⟩ := NdArray.exists_get? (a := s.registers) (i := rs[0])
          (hregs ▸ (hrs _ hmem).1)
        exact NdArray.lt_size_of_get? ((hsame _ hmem).symm.trans hv)
      have hq : qs[rs.length - 1]? = some qs[rs.length - 1] := List.getElem?_eq_getElem (by omega)
      obtain ⟨t, ht, htsp, -⟩ := hpushed.pop_take hword htop hlen hregs hqs hq
      rw [Nat.sub_add_cancel hpos] at htsp
      rw [List.take_of_length_le (by omega)] at ht
      refine ⟨u, t, hu, ht, by rw [htsp, BitVec.add_sub_cancel, hsp], ?_⟩
      intro j hj
      have hq : qs[j]? = some qs[j] := List.getElem?_eq_getElem hj
      obtain ⟨v, hv, -, hreg⟩ := hpushed.pop_take hword htop hlen hregs hqs hq
      refine ⟨v, hv, ?_⟩
      intro q hq' r hr
      obtain rfl : qs[j] = q := Option.some.inj (hq.symm.trans hq')
      rw [hreg, hpushed.load_of_same hsame (by omega), hsame r (List.mem_of_getElem? hr)]

end

/-! PUSHes and POPs of two registers with the same word. -/
section
attribute [local instance] exactDivision

/-- The start of the model, with SP at the stack region, the word `w` in R1 and R2, and the word
`above` where the stack ends when both have been pushed. -/
def stackStart (w above : Word) : St :=
  ⟨(NdArray.fill STATETOP 0).update (STACK + 2) above,
    ((startRegisters.update SP (.ofNat 64 STACK)).update 1 w).update 2 w⟩

/-- The POPs load what has been pushed, since it stands above the stack, too. -/
theorem loadsInReverse_iff_sevens : LoadsInReverse [1, 2] [3, 4] (stackStart 7 7) := by
  have hsp : (stackStart 7 7).reg SP = some (.ofNat 64 STACK) := rfl
  have hmem : (stackStart 7 7).load ((BitVec.ofNat 64 STACK).toNat + 2) = some 7 :=
    NdArray.get?_update_self (by decide) 7
  refine (loadsInReverse_iff hsp rfl ?_ ?_ ?_ ?_ ?_).mpr ?_
  rotate_right
  · intro r hr
    simp only [List.mem_cons, List.not_mem_nil, or_false] at hr
    rcases hr with rfl | rfl
    · exact hmem.symm
    · exact hmem.symm
  all_goals decide

/-- The POP loads the 0 above the pushed 5. -/
theorem not_loadsInReverse_five : ¬ LoadsInReverse [1] [2] (stackStart 5 0) := by
  rintro ⟨u, t, hu, -, -, hloads⟩
  obtain ⟨v, hv, hreg⟩ := hloads 0 (by decide)
  have hzero : ((exec push [1] (stackStart 5 0)).bind (exec pop [2])).bind (·.reg 2) = some 0 := by
    decide +kernel
  have hv' : exec pop [2] u = some v := hv
  rw [hu, Option.bind_some, hv', Option.bind_some, hreg 2 rfl 1 rfl] at hzero
  exact absurd hzero (by decide +kernel)

end
end Osh.Advanced
