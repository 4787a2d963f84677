import Osh.Cpp.Model

/-!
# The two builds of the C++ system model

The timer starts one above the number of cycles and is counted down once in each, so it is
never 0 and no device ever raises a request. What is more, `systemState` is never built again
from the vectors of the devices, so that the two builds run the same.

## Main definitions

* `Counting N n L`: the timer after `n` of `N` cycles.
* `run`: the variables of `main` after some cycles.

## Main results

* `size_of_processorAction`: the length of `systemState` does not change.
* `builds_agree`: both builds go through the same states and print the same.
-/
namespace Osh.Cpp
open Advanced (St Word)
open PartialRun

/-! ## The processor -/

section
variable {s t : St} {r a instr : ℕ} {v : Word} {args : Word × Word × Word}

theorem size_of_setReg (h : s.setReg r v = some t) : t.systemState.size = s.systemState.size := by
  rw [St.systemState_of_setReg h]

theorem size_of_store (h : s.store a v = some t) : t.systemState.size = s.systemState.size := by
  obtain ⟨-, rfl⟩ := St.store_eq_some_iff.mp h
  rfl

/-- No instruction changes the length of `systemState`. -/
theorem size_of_executeInstruction (h : executeInstruction instr args s = some t) :
    t.systemState.size = s.systemState.size := by
  rw [executeInstruction] at h
  by_cases hLDR : instr = LDR
  · rw [if_pos hLDR] at h
    obtain ⟨v, -, h⟩ := Option.bind_eq_some_iff.mp h
    exact size_of_setReg h
  rw [if_neg hLDR] at h
  by_cases hSTR : instr = STR
  · rw [if_pos hSTR] at h
    obtain ⟨addr2, -, h⟩ := Option.bind_eq_some_iff.mp h
    obtain ⟨v, -, h⟩ := Option.bind_eq_some_iff.mp h
    exact size_of_store h
  rw [if_neg hSTR] at h
  by_cases hPUSH : instr = PUSH
  · rw [if_pos hPUSH] at h
    obtain ⟨sptr, -, h⟩ := Option.bind_eq_some_iff.mp h
    obtain ⟨v, -, h⟩ := Option.bind_eq_some_iff.mp h
    obtain ⟨u, hu, h⟩ := Option.bind_eq_some_iff.mp h
    obtain ⟨w, -, h⟩ := Option.bind_eq_some_iff.mp h
    exact (size_of_setReg h).trans (size_of_store hu)
  rw [if_neg hPUSH] at h
  by_cases hPOP : instr = POP
  · rw [if_pos hPOP] at h
    obtain ⟨sptr, -, h⟩ := Option.bind_eq_some_iff.mp h
    obtain ⟨v, -, h⟩ := Option.bind_eq_some_iff.mp h
    obtain ⟨u, hu, h⟩ := Option.bind_eq_some_iff.mp h
    obtain ⟨w, -, h⟩ := Option.bind_eq_some_iff.mp h
    exact (size_of_setReg h).trans (size_of_setReg hu)
  rw [if_neg hPOP] at h
  by_cases hCBNZ : instr = CBNZ
  · rw [if_pos hCBNZ] at h
    obtain ⟨v, -, h⟩ := Option.bind_eq_some_iff.mp h
    split at h
    · exact size_of_setReg h
    · rw [Option.some.inj h]
  rw [if_neg hCBNZ] at h
  by_cases hCBZ : instr = CBZ
  · rw [if_pos hCBZ] at h
    obtain ⟨v, -, h⟩ := Option.bind_eq_some_iff.mp h
    split at h
    · exact size_of_setReg h
    · rw [Option.some.inj h]
  rw [if_neg hCBZ] at h
  by_cases hBL : instr = BL
  · rw [if_pos hBL] at h
    obtain ⟨pctr, -, h⟩ := Option.bind_eq_some_iff.mp h
    obtain ⟨u, hu, h⟩ := Option.bind_eq_some_iff.mp h
    exact (size_of_setReg h).trans (size_of_setReg hu)
  rw [if_neg hBL] at h
  by_cases hBX : instr = BX
  · rw [if_pos hBX] at h
    obtain ⟨lreg, -, h⟩ := Option.bind_eq_some_iff.mp h
    exact size_of_setReg h
  rw [if_neg hBX] at h
  by_cases hMOV : instr = MOV
  · rw [if_pos hMOV] at h
    obtain ⟨v, -, h⟩ := Option.bind_eq_some_iff.mp h
    exact size_of_setReg h
  rw [if_neg hMOV] at h
  by_cases hSET : instr = SET
  · rw [if_pos hSET] at h
    exact size_of_setReg h
  rw [if_neg hSET] at h
  by_cases hnone : instr = NOP ∨ instr = WFI
  · rw [if_pos hnone] at h
    rw [Option.some.inj h]
  · rw [if_neg hnone] at h
    obtain ⟨v1, -, h⟩ := Option.bind_eq_some_iff.mp h
    obtain ⟨v2, -, h⟩ := Option.bind_eq_some_iff.mp h
    obtain ⟨op, -, h⟩ := Option.bind_eq_some_iff.mp h
    obtain ⟨v, -, h⟩ := Option.bind_eq_some_iff.mp h
    exact size_of_setReg h

theorem size_of_processorAction (h : processorAction s = some t) :
    t.systemState.size = s.systemState.size := by
  obtain ⟨⟨ir, u⟩, hfetch, h⟩ := Option.bind_eq_some_iff.mp h
  obtain ⟨pcr, -, hfetch⟩ := Option.bind_eq_some_iff.mp hfetch
  obtain ⟨w, -, hfetch⟩ := Option.bind_eq_some_iff.mp hfetch
  obtain ⟨next, -, hfetch⟩ := Option.bind_eq_some_iff.mp hfetch
  obtain ⟨u', hu, hfetch⟩ := Option.bind_eq_some_iff.mp hfetch
  obtain rfl : u' = u := congrArg Prod.snd (Option.some.inj hfetch)
  exact (size_of_executeInstruction h).trans (size_of_setReg hu)

end

/-! ## A cycle without a request -/

/-- A count above 1 is counted down, without a request. -/
theorem timerAction_of_lt {timerState : NdArray Word} {c : Word}
    (hc : timerState.get? 0 = some c) (hlt : 1 < c) :
    timerAction timerState = some (timerState.update 0 (c - 1), 0) := by
  have hsize := NdArray.lt_size_of_get? hc
  have hdown : timerCountDown timerState = some (timerState.update 0 (c - 1)) := by
    simp only [timerCountDown, hc, Option.bind_eq_bind, Option.bind_some]
    rw [if_pos (by bv_omega), NdArray.set?_of_lt hsize]
  have hne : c - 1 ≠ 0 := by bv_omega
  simp only [timerAction, hdown, NdArray.get?_update_self hsize, Option.bind_eq_bind,
    Option.bind_some, if_neg hne]
  rfl

theorem checkIrqsFrom_zeros {irqs : List Word} (h : ∀ irq ∈ irqs, irq = 0) (ivt : NdArray Word)
    (idx : ℕ) (registers : NdArray Word) :
    checkIrqsFrom ivt idx registers irqs = some (registers, irqs) := by
  induction irqs generalizing idx with
  | nil => rfl
  | cons irq irqs ih =>
      obtain rfl := h irq (List.mem_cons_self ..)
      have hrest := ih (fun i hi => h i (List.mem_cons_of_mem _ hi)) (idx + 1)
      simp only [checkIrqsFrom, ne_eq, not_true_eq_false, if_false, hrest, Option.bind_eq_bind,
        Option.bind_some]
      rfl

/-- Without a request both builds of `processorAction` do the same. -/
theorem action_of_zeros {irqs : List Word} (h : ∀ irq ∈ irqs, irq = 0) {s : St}
    (hsize : IVT + IVTsz ≤ s.systemState.size) (PERIPHERALS : Bool) :
    action PERIPHERALS irqs s = (processorAction s).map fun t => (irqs, t) := by
  have hmap : ∀ x : Option St, (x.bind fun t => some (irqs, t)) = x.map fun t => (irqs, t) :=
    fun x => by cases x <;> rfl
  cases PERIPHERALS with
  | true =>
      simp only [action, if_true, if_pos hsize, checkIrqs, checkIrqsFrom_zeros h,
        Option.bind_eq_bind, Option.bind_some]
      exact hmap _
  | false => exact hmap _

/-! ## The runs -/

/-- The variables of `main` after `n` cycles. -/
def run (PERIPHERALS : Bool) (MAX_NCYCLES : ℕ) (ramState : NdArray Word) (n : ℕ) : Option Loop := do
  let L ← start MAX_NCYCLES ramState
  iter (cycle PERIPHERALS) n L

/-- After `n` of `N` cycles the timer has not run out, and `systemState` has the length of
the vectors that it was built from. -/
structure Counting (N n : ℕ) (L : Loop) : Prop where
  count : L.timerState.get? 0 = some (.ofNat 64 (N + 1 - n))
  size : L.st.systemState.size + IVTsz = STATETOP
  irqs : ∀ irq ∈ L.irqs, irq = 0

variable {N n : ℕ} {L L' : Loop} {ramState : NdArray Word}

/-- A cycle in the build with `PERIPHERALS`. -/
theorem Counting.cycle_true (h : Counting N n L) (hN : N < 2 ^ 31) (hn : n < N) :
    cycle true L = (processorAction L.st).map (fun st =>
      { L with
        st
        timerState := L.timerState.update 0 (.ofNat 64 (N + 1 - n) - 1)
        irqs := [0, 0, 0, 0, 0] }) := by
  have hlt : (1 : Word) < .ofNat 64 (N + 1 - n) := by
    rw [BitVec.lt_def, BitVec.toNat_ofNat, Nat.mod_eq_of_lt (by omega)]
    have hone : (1 : Word).toNat = 1 := rfl
    omega
  have hsize := h.size
  rw [STATETOP_eq] at hsize
  simp only [IVTsz] at hsize
  have htop : MEMTOP ≤ L.st.systemState.size := by
    rw [MEMTOP_eq]
    omega
  have hdevices : devices L = some { L with
      timerState := L.timerState.update 0 (.ofNat 64 (N + 1 - n) - 1)
      irqs := [0, 0, 0, 0, 0] } := by
    simp only [devices, timerAction_of_lt h.count hlt, Option.bind_eq_bind, Option.bind_some,
      if_pos htop]
    rfl
  have hivt : IVT + IVTsz ≤ L.st.systemState.size := by
    simp only [IVT, IVTsz]
    omega
  have haction : action true [0, 0, 0, 0, 0] L.st =
      (processorAction L.st).map fun st => ([0, 0, 0, 0, 0], st) :=
    action_of_zeros (by simp) hivt true
  simp only [cycle, if_true, hdevices, haction, Option.bind_eq_bind, Option.bind_some]
  cases processorAction L.st <;> rfl

/-- A cycle in the build without. -/
theorem cycle_false (L : Loop) :
    cycle false L = (processorAction L.st).map (fun st => { L with st, irqs := [] }) := by
  simp only [cycle, action, Bool.false_eq_true, if_false, Option.bind_eq_bind, Option.bind_some]
  cases processorAction L.st <;> rfl

/-- One cycle of both builds. -/
theorem Counting.succ (h : Counting N n L) (hN : N < 2 ^ 31) (hn : n < N) (hst : L.st = L'.st) :
    (cycle true L).map Loop.st = (cycle false L').map Loop.st ∧
      ∀ M ∈ cycle true L, Counting N (n + 1) M := by
  rw [h.cycle_true hN hn, cycle_false, ← hst, Option.map_map, Option.map_map]
  refine ⟨rfl, fun M hM => ?_⟩
  obtain ⟨st, hst, rfl⟩ := Option.map_eq_some_iff.mp hM
  refine ⟨?_, ?_, by simp⟩
  · have hsucc : N + 1 - n = N + 1 - (n + 1) + 1 := by omega
    rw [NdArray.get?_update_self (NdArray.lt_size_of_get? h.count), hsucc, BitVec.ofNat_add]
    simp
  · rw [← h.size]
    exact congrArg (· + IVTsz) (size_of_processorAction hst)

/-- The vector of the timer before the first cycle. -/
def startTimer (N : ℕ) : NdArray Word :=
  ((NdArray.fill timerStateSz 0).update 0 (.ofNat 64 (N + 1))).update 1 (.ofNat 64 (N + 1))

/-- The variables before the first cycle. -/
theorem start_eq (N : ℕ) (ramState : NdArray Word) : start N ramState = some {
    st := ⟨ramState ++ startTimer N ++ .fill kbdStateSz 0 ++ .fill nicStateSz 0 ++
      .fill ssdStateSz 0 ++ .fill gpuStateSz 0, (NdArray.fill NREGS 0).update PC (.ofNat 64 CODE)⟩
    timerState := startTimer N
    kbdState := .fill kbdStateSz 0
    nicState := .fill nicStateSz 0
    ssdState := .fill ssdStateSz 0
    gpuState := .fill gpuStateSz 0
    irqs := [] } := rfl

theorem counting_start (hram : ramState.size = ramStateSz) (h : start N ramState = some L) :
    Counting N 0 L := by
  obtain rfl := Option.some.inj ((start_eq N ramState).symm.trans h)
  refine ⟨rfl, ?_, by simp⟩
  have hsize : (startTimer N).size = timerStateSz := rfl
  simp only [NdArray.size_append, NdArray.size_fill, hram, hsize]
  rfl

theorem run_zero (b : Bool) (N : ℕ) (ramState : NdArray Word) :
    run b N ramState 0 = start N ramState := by
  rw [run, start_eq]
  rfl

theorem run_succ (b : Bool) (N n : ℕ) (ramState : NdArray Word) :
    run b N ramState (n + 1) = (run b N ramState n).bind (cycle b) := by
  simp only [run, start_eq, Option.bind_eq_bind, Option.bind_some, iter_succ]

/-- The builds after `n` cycles. -/
theorem run_agrees (hram : ramState.size = ramStateSz) (hN : N < 2 ^ 31) (hn : n ≤ N) :
    (run true N ramState n).map Loop.st = (run false N ramState n).map Loop.st ∧
      ∀ L ∈ run true N ramState n, Counting N n L := by
  induction n with
  | zero =>
      rw [run_zero, run_zero]
      exact ⟨rfl, fun L hL => counting_start hram hL⟩
  | succ n ih =>
      obtain ⟨hsame, hcounting⟩ := ih (by omega)
      rw [run_succ, run_succ]
      cases htrue : run true N ramState n with
      | none =>
          rw [htrue, Option.map_none, eq_comm, Option.map_eq_none_iff] at hsame
          simp [hsame]
      | some L =>
          rw [htrue, Option.map_some, eq_comm, Option.map_eq_some_iff] at hsame
          obtain ⟨L', hL', hst⟩ := hsame
          rw [hL']
          exact (hcounting L htrue).succ hN (by omega) hst.symm

/-- **The builds agree.** For every RAM and number of cycles, `PERIPHERALS` makes no
difference to memory and registers in any cycle, and the same is printed. With it the timer
counts the cycles whatever the program does, no device has a request, and the last words
below `STATETOP` are not in `systemState`. -/
theorem builds_agree (hram : ramState.size = ramStateSz) (hN : N < 2 ^ 31) (FIB_MAX : ℕ) :
    (∀ n ≤ N, (run true N ramState n).map Loop.st = (run false N ramState n).map Loop.st) ∧
      (∀ n ≤ N, ∀ L ∈ run true N ramState n,
        L.timerState.get? 0 = some (.ofNat 64 (N + 1 - n)) ∧ (∀ irq ∈ L.irqs, irq = 0) ∧
          ∀ a, L.st.load a = none ↔ STATETOP - IVTsz ≤ a) ∧
      main true N FIB_MAX ramState = main false N FIB_MAX ramState := by
  refine ⟨fun n hn => (run_agrees hram hN hn).1, fun n hn L hL => ?_, ?_⟩
  · have hcounting := (run_agrees hram hN hn).2 L hL
    refine ⟨hcounting.count, hcounting.irqs, fun a => ?_⟩
    rw [St.load, NdArray.get?_eq_none_iff, ← hcounting.size, Nat.add_sub_cancel]
  · have hmain : ∀ b, main b N FIB_MAX ramState =
        ((run b N ramState N).map Loop.st).bind (printed FIB_MAX) := by
      intro b
      simp only [main, run, start_eq, Option.bind_eq_bind, Option.bind_some, Option.bind_map]
      rfl
    rw [hmain, hmain, (run_agrees hram hN le_rfl).1]

/-- The default number of cycles and length of the table. -/
theorem builds_agree_default :
    main true 512 16 (.fill ramStateSz 0) = main false 512 16 (.fill ramStateSz 0) :=
  (builds_agree (NdArray.size_fill ..) (by decide) 16).2.2

end Osh.Cpp
