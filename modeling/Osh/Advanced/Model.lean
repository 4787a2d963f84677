import Osh.Advanced.Interrupts
import Osh.Advanced.Peripherals

/-!
# The main loop of the advanced system model

Before the first cycle the timer has an array of its own. Every cycle with
peripherals rebuilds `systemState` by concatenation, and from the first one on
`timerState` is a view of that array, one word shorter than the timer's range:
counting down through the view changes `systemState`, and storing to the timer's
range changes the timer. The other devices keep arrays that no one assigns to.

## Main definitions

* `Loop`: the variables of the main loop.
* `mainInit`, `cycle`: initialisation, and one iteration.
* `Quiet c p L`: the timer holds count `c` and period `p`, and the DMA engine is idle.
-/
namespace Osh.Advanced
open PartialRun

/-- The variable `timerState`: an array of its own, or a view of `systemState`. -/
inductive TimerState where
  | own (a : NdArray Word)
  | view

namespace TimerState

/-- The entries of `timerState`, given the array of which it may be a view. -/
def read (systemState : NdArray Word) : TimerState → NdArray Word
  | own a => a
  | view => systemState.slice TIMER (TIMER + timerStateSz - 1)

/-- Assign the entries of `timerState` in place. -/
def write (systemState a : NdArray Word) : TimerState → TimerState × NdArray Word
  | own _ => (own a, systemState)
  | view => (view, systemState.blit TIMER a)

end TimerState

/-- The variables of the main loop. -/
structure Loop where
  st : St
  timerState : TimerState
  kbdState : NdArray Word
  nicState : NdArray Word
  ssdState : NdArray Word
  gpuState : NdArray Word
  dmaState : NdArray Word
  irqs : List Bool

/-- The entries of `timerState`. -/
def Loop.timer (L : Loop) : NdArray Word := L.timerState.read L.st.systemState

/-- The variables before the first cycle, for the RAM that `load_code` returns. -/
def mainInit (MAX_NCYCLES : ℕ) (ramState : NdArray Word) : Option Loop := do
  let timerState ← (NdArray.fill timerStateSz 0).set? 0 (← pyInt (MAX_NCYCLES + 1))
  let timerState ← timerState.set? 1 (← pyInt (MAX_NCYCLES + 1))
  let kbdState := NdArray.fill kbdStateSz 0
  let nicState := NdArray.fill nicStateSz 0
  let ssdState := NdArray.fill ssdStateSz 0
  let gpuState := NdArray.fill gpuStateSz 0
  let dmaState := NdArray.fill dmaStateSz 0
  let systemState :=
    ramState ++ timerState ++ kbdState ++ nicState ++ ssdState ++ gpuState ++ dmaState
  return {
    st := ⟨systemState, startRegisters⟩, timerState := .own timerState,
    kbdState, nicState, ssdState, gpuState, dmaState, irqs := [] }

/-- RAM with the interrupt vector table filled in, as `main` passes it to `load_code`. -/
def initialRam : NdArray Word :=
  (NdArray.fill ramStateSz 0).blit IVT (NdArray.fill IVTsz (.ofNat 64 (CODE + 18)))

/-- RAM after `load_code` has loaded a program into it, or as it was when that raises. -/
def loadedRam {L : Type} [DecidableEq L] (prog : List (Option L × Instr L)) : NdArray Word :=
  ((loadCode prog initialRam).map Prod.fst).getD initialRam

/-- The statements of a cycle under `if PERIPHERALS`. -/
def devices (L : Loop) : Option Loop := do
  let (kbdState, kbdIrq) := kbdAction L.kbdState
  let (nicState, nicIrq) := nicAction L.nicState
  let (ssdState, ssdIrq) := ssdAction L.ssdState
  let (gpuState, gpuIrq) := gpuAction L.gpuState
  let (timer, timerIrq) ← timerAction L.timer
  let (timerState, systemState) := L.timerState.write L.st.systemState timer
  let (systemState, dmaIrq) ← dmaAction systemState
  let ramState := systemState.slice 0 MEMTOP
  let irqs := [kbdIrq, nicIrq, ssdIrq, gpuIrq, timerIrq, dmaIrq]
  let systemState := ramState ++ timerState.read systemState ++ kbdState ++ nicState ++
    ssdState ++ gpuState ++ L.dmaState
  return {
    st := ⟨systemState, L.st.registers⟩, timerState := .view,
    kbdState, nicState, ssdState, gpuState, dmaState := L.dmaState, irqs }

/-- The part of a cycle before `processorAction`. -/
def devicePhase (cfg : Cfg) (L : Loop) : Option Loop :=
  if cfg.PERIPHERALS then devices L else some { L with irqs := [] }

section
variable [NumPy]

/-- One iteration of the main loop. -/
def cycle (cfg : Cfg) (L : Loop) : Option Loop := do
  let L ← devicePhase cfg L
  let (irqs, st) ← processorAction cfg L.irqs L.st
  return { L with irqs, st }

end

/-! ## The shape of the arrays -/

/-- The device arrays are as `main` created them, and `systemState` has the length
it has after the concatenations. -/
structure Shape (L : Loop) : Prop where
  kbd : L.kbdState = .fill kbdStateSz 0
  nic : L.nicState = .fill nicStateSz 0
  ssd : L.ssdState = .fill ssdStateSz 0
  gpu : L.gpuState = .fill gpuStateSz 0
  dma : L.dmaState = .fill dmaStateSz 0
  registers : L.st.registers.size = NREGS
  systemState : (∃ a, L.timerState = .own a ∧ a.size = timerStateSz ∧
      L.st.systemState.size = STATETOP) ∨
    L.timerState = .view ∧ STATETOP - 1 ≤ L.st.systemState.size ∧
      L.st.systemState.size ≤ STATETOP

/-- The device arrays behind the timer are as `main` created them. -/
structure DeviceArrays (L : Loop) : Prop where
  kbd : L.kbdState = .fill kbdStateSz 0
  nic : L.nicState = .fill nicStateSz 0
  ssd : L.ssdState = .fill ssdStateSz 0
  gpu : L.gpuState = .fill gpuStateSz 0
  dma : L.dmaState = .fill dmaStateSz 0

theorem Shape.arrays {L : Loop} (h : Shape L) : DeviceArrays L :=
  ⟨h.kbd, h.nic, h.ssd, h.gpu, h.dma⟩

/-- The timer has the given count and period, and the DMA engine is idle. -/
structure Quiet (c p : Word) (L : Loop) : Prop extends Shape L where
  count : L.timer.get? 0 = some c
  period : L.timer.get? 1 = some p
  control : L.st.load (DMA + DCR) = some 0

/-- The device ranges behind the timer, which hold zeros after every concatenation. -/
theorem append_devices (a : NdArray Word) :
    a ++ NdArray.fill kbdStateSz 0 ++ .fill nicStateSz 0 ++ .fill ssdStateSz 0 ++
      .fill gpuStateSz 0 ++ .fill dmaStateSz 0 = a ++ .fill (STATETOP - KBD) 0 := by
  simp only [NdArray.append_assoc, NdArray.fill_append_fill]
  rfl

namespace TimerState
variable {timerState : TimerState} {systemState a : NdArray Word}

/-- Assigning to `timerState` leaves everything outside the timer's range alone. -/
theorem get?_write (ha : timerState = .view → a.size ≤ timerStateSz) {i : ℕ}
    (hi : i < TIMER ∨ KBD ≤ i) :
    (timerState.write systemState a).2.get? i = systemState.get? i := by
  cases timerState with
  | own b => rfl
  | view =>
      rcases hi with hlt | hge
      · exact NdArray.get?_blit_of_lt _ _ hlt
      · refine NdArray.get?_blit_of_ge _ _ ?_
        have := ha rfl
        rw [KBD] at hge
        omega

theorem size_write : (timerState.write systemState a).2.size = systemState.size := by
  cases timerState <;> rfl

/-- What is assigned to `timerState` is read back. -/
theorem read_write (ha : a.size = (timerState.read systemState).size) :
    (timerState.write systemState a).1.read (timerState.write systemState a).2 = a := by
  cases timerState with
  | own b => rfl
  | view =>
      simp only [read, NdArray.size_slice] at ha
      refine NdArray.ext_get? fun i => ?_
      simp only [write, read, NdArray.get?_slice]
      by_cases hi : i < a.size
      · rw [if_pos (by omega), NdArray.get?_blit_of_mem (by omega) hi]
      · rw [NdArray.get?_eq_none_iff.mpr (Nat.le_of_not_lt hi)]
        split
        · rw [NdArray.get?_blit_of_ge _ _ (by omega), NdArray.get?_eq_none_iff]
          omega
        · rfl

end TimerState

/-- The variables after the concatenation of a cycle. -/
def Loop.rebuild (L : Loop) (ramState timer : NdArray Word) (timerIrq dmaIrq : Bool) : Loop :=
  { L with
    st := ⟨ramState ++ timer ++ .fill (STATETOP - KBD) 0, L.st.registers⟩
    timerState := .view
    irqs := [false, false, false, false, timerIrq, dmaIrq] }

section
variable {L D : Loop} {c p : Word} {ramState timer : NdArray Word} {timerIrq dmaIrq : Bool}

/-- What a cycle's device actions do to the variables. -/
theorem devices_eq_some_iff (h : DeviceArrays L) :
    devices L = some D ↔ ∃ timer timerIrq systemState dmaIrq,
      timerAction L.timer = some (timer, timerIrq) ∧
      dmaAction (L.timerState.write L.st.systemState timer).2 = some (systemState, dmaIrq) ∧
      D = L.rebuild (systemState.slice 0 MEMTOP)
        ((L.timerState.write L.st.systemState timer).1.read systemState) timerIrq dmaIrq := by
  simp only [devices, Loop.rebuild, kbdAction, nicAction, ssdAction, gpuAction, idleAction, h.kbd,
    h.nic, h.ssd, h.gpu, h.dma, append_devices, Option.bind_eq_bind, Option.bind_eq_some_iff,
    Option.pure_def, Option.some.injEq, Prod.exists]
  constructor
  · rintro ⟨timer, timerIrq, htimer, systemState, dmaIrq, hdma, rfl⟩
    exact ⟨timer, timerIrq, systemState, dmaIrq, htimer, hdma, rfl⟩
  · rintro ⟨timer, timerIrq, systemState, dmaIrq, htimer, hdma, rfl⟩
    exact ⟨timer, timerIrq, htimer, systemState, dmaIrq, hdma, rfl⟩

theorem Shape.rebuild (h : Shape L) (hram : ramState.size = MEMTOP)
    (htimer : timer.size = timerStateSz ∨ timer.size = timerStateSz - 1) :
    Shape (L.rebuild ramState timer timerIrq dmaIrq) := by
  refine ⟨h.kbd, h.nic, h.ssd, h.gpu, h.dma, h.registers, .inr ⟨rfl, ?_⟩⟩
  simp only [Loop.rebuild, NdArray.size_append, NdArray.size_fill, hram, KBD, TIMER]
  have := STATETOP_eq
  have := MEMTOP_eq
  simp only [timerStateSz] at htimer ⊢
  omega

/-- The part of RAM that the concatenation carries over. -/
theorem load_rebuild_ram (hram : ramState.size = MEMTOP) {a : ℕ} (ha : a < MEMTOP) :
    (L.rebuild ramState timer timerIrq dmaIrq).st.load a = ramState.get? a := by
  rw [St.load, Loop.rebuild, NdArray.append_assoc, NdArray.get?_append_left (by omega)]

/-- The view that becomes `timerState` shows the entries that the timer had. -/
theorem timer_rebuild (hram : ramState.size = MEMTOP) {i : ℕ} (hi : i < timer.size)
    (hlt : i < timerStateSz - 1) :
    (L.rebuild ramState timer timerIrq dmaIrq).timer.get? i = timer.get? i := by
  simp only [Loop.timer, Loop.rebuild, TimerState.read, NdArray.get?_slice]
  have : TIMER = MEMTOP := rfl
  rw [if_pos (by omega), NdArray.append_assoc, NdArray.get?_append_right (by omega),
    NdArray.get?_append_left (by omega)]
  congr 1
  omega

/-- The device ranges behind the timer hold zeros after the concatenation. -/
theorem load_rebuild_device (hram : ramState.size = MEMTOP) {a : ℕ}
    (ha : MEMTOP + timer.size ≤ a) (htop : a < MEMTOP + timer.size + (STATETOP - KBD)) :
    (L.rebuild ramState timer timerIrq dmaIrq).st.load a = some 0 := by
  rw [St.load, Loop.rebuild, NdArray.get?_append_right (by simpa [hram] using ha),
    NdArray.get?_fill, if_pos]
  simp only [NdArray.size_append, hram]
  omega

/-- The timer's array has room for its count and period. -/
theorem Shape.size_timer (h : Shape L) :
    L.timer.size = timerStateSz ∨ L.timer.size = timerStateSz - 1 := by
  rcases h.systemState with ⟨a, ha, hsize, -⟩ | ⟨hview, hge, -⟩
  · exact .inl (by rw [Loop.timer, ha]; exact hsize)
  · right
    rw [Loop.timer, hview, TimerState.read, NdArray.size_slice]
    have := STATETOP_eq
    have := TIMER_eq
    simp only [timerStateSz]
    omega

theorem Shape.control_lt (h : Shape L) : DMA + DCR < L.st.systemState.size := by
  have := STATETOP_eq
  have := DMA_eq
  simp only [DCR]
  rcases h.systemState with ⟨a, -, -, hsize⟩ | ⟨-, hge, -⟩ <;> omega

/-- With the DMA engine idle, a cycle's device actions tick the timer and carry RAM over. -/
theorem devices_quiet (h : Quiet c p L) :
    ∃ D, devices L = some D ∧ Quiet (tick c p) p D ∧ D.timerState = .view ∧
      D.irqs = [false, false, false, false, decide (c ≤ 1), false] ∧
      D.st.registers = L.st.registers ∧ ∀ a < MEMTOP, D.st.load a = L.st.load a := by
  obtain ⟨timer, htimer, hsize, hcount, hrest⟩ := timerAction_spec h.count h.period
  have hL := h.toShape.size_timer
  have hle : timer.size ≤ timerStateSz := by omega
  have hlt : 14 < timer.size := by
    simp only [timerStateSz] at hL
    omega
  have hdma : dmaAction (L.timerState.write L.st.systemState timer).2 =
      some ((L.timerState.write L.st.systemState timer).2, false) := by
    refine dmaAction_idle ?_
    rw [TimerState.get?_write (fun _ => hle) (.inr (by decide))]
    exact h.control
  have hram : ((L.timerState.write L.st.systemState timer).2.slice 0 MEMTOP).size = MEMTOP := by
    have := h.toShape.control_lt
    have := MEMTOP_eq
    have := DMA_eq
    rw [NdArray.size_slice, TimerState.size_write]
    omega
  refine ⟨_, (devices_eq_some_iff h.toShape.arrays).mpr ⟨timer, _, _, _, htimer, hdma, rfl⟩, ?_⟩
  rw [TimerState.read_write hsize]
  refine ⟨⟨h.toShape.rebuild hram (hsize ▸ hL), ?_, ?_, ?_⟩, rfl, rfl, rfl, ?_⟩
  · rw [timer_rebuild hram (by omega) (by decide), hcount]
  · rw [timer_rebuild hram (by omega) (by decide), hrest 1 (by omega), h.period]
  · -- the shorter concatenation still reaches beyond the control word
    have : timerStateSz = 16 := rfl
    have := MEMTOP_eq
    have := KBD_eq
    have := DMA_eq
    have := STATETOP_eq
    simp only [DCR]
    exact load_rebuild_device hram (by omega) (by omega)
  · intro a ha
    rw [load_rebuild_ram hram ha, NdArray.get?_slice]
    rw [if_pos (by omega), Nat.zero_add, TimerState.get?_write (fun _ => hle) (.inl ha)]
    rfl

/-- The timer's array before the first cycle: count and period are one more than
the number of cycles. -/
def startTimer (MAX_NCYCLES : ℕ) : NdArray Word :=
  ((NdArray.fill timerStateSz 0).update 0 (.ofNat 64 (MAX_NCYCLES + 1))).update 1
    (.ofNat 64 (MAX_NCYCLES + 1))

/-- Initialisation raises only when the count does not fit its word. -/
theorem mainInit_eq_some_iff {N : ℕ} :
    mainInit N ramState = some L ↔ N + 1 < 2 ^ 64 ∧
      L = {
        st := ⟨ramState ++ startTimer N ++ .fill (STATETOP - KBD) 0, startRegisters⟩,
        timerState := .own (startTimer N), kbdState := .fill kbdStateSz 0,
        nicState := .fill nicStateSz 0, ssdState := .fill ssdStateSz 0,
        gpuState := .fill gpuStateSz 0, dmaState := .fill dmaStateSz 0, irqs := [] } := by
  by_cases hN : N + 1 < 2 ^ 64
  · have hpy : pyInt ((N : ℤ) + 1) = some (.ofNat 64 (N + 1)) := pyInt_of_lt hN
    have h0 : 0 < (NdArray.fill timerStateSz (0 : Word)).size := by decide
    have h1 : 1 < ((NdArray.fill timerStateSz (0 : Word)).update 0 (.ofNat 64 (N + 1))).size :=
      show 1 < timerStateSz by decide
    simp only [mainInit, hpy, NdArray.set?_of_lt h0, NdArray.set?_of_lt h1, append_devices,
      Option.bind_eq_bind, Option.bind_some, Option.pure_def, Option.some.injEq, hN, true_and]
    exact eq_comm
  · have hpy : pyInt ((N : ℤ) + 1) = none := by
      rw [pyInt, if_neg (by omega)]
    simp only [mainInit, hpy, Option.bind_eq_bind, Option.bind_none, hN, false_and, reduceCtorEq]

/-- The DMA engine is idle at the start. -/
theorem quiet_mainInit {N : ℕ} (hram : ramState.size = ramStateSz)
    (h : mainInit N ramState = some L) : Quiet (.ofNat 64 (N + 1)) (.ofNat 64 (N + 1)) L := by
  obtain ⟨hN, rfl⟩ := mainInit_eq_some_iff.mp h
  have hMEMTOP : ramState.size = MEMTOP := hram
  have htimer : (startTimer N).size = timerStateSz := rfl
  have hSz : timerStateSz = 16 := rfl
  have hKBD := KBD_eq
  have hDMA := DMA_eq
  have hTOP := STATETOP_eq
  have hMEM := MEMTOP_eq
  refine ⟨⟨rfl, rfl, rfl, rfl, rfl, rfl, .inl ⟨_, rfl, rfl, ?_⟩⟩, ?_, ?_, ?_⟩
  · simp only [NdArray.size_append, NdArray.size_fill]
    omega
  · rw [Loop.timer, TimerState.read, startTimer, NdArray.get?_update_ne _ (by omega)]
    exact NdArray.get?_update_self (by decide) _
  · exact NdArray.get?_update_self (show 1 < timerStateSz by decide) _
  · rw [St.load, NdArray.get?_append_right, NdArray.get?_fill, if_pos]
    · simp only [NdArray.size_append, DCR]
      omega
    · simp only [NdArray.size_append, DCR]
      omega

end

/-- Writes to registers and RAM do not reach the devices. -/
theorem Quiet.of_frame {c p : Word} {L : Loop} (h : Quiet c p L) (hview : L.timerState = .view)
    {t : St} {X Y : Set ℕ} (hY : ∀ a ∈ Y, a < MEMTOP) (hframe : Frame X Y L.st t)
    (irqs : List Bool) : Quiet c p { L with st := t, irqs } := by
  have hload : ∀ a, MEMTOP ≤ a → t.load a = L.st.load a := by
    intro a ha
    exact (hframe.load a fun hmem => Nat.not_lt.mpr ha (hY a hmem)).symm
  have htimer : ∀ i, ({ L with st := t, irqs } : Loop).timer.get? i = L.timer.get? i := by
    intro i
    simp only [Loop.timer, hview, TimerState.read, NdArray.get?_slice]
    split
    · exact hload _ (Nat.le_add_right ..)
    · rfl
  constructor
  · refine ⟨h.kbd, h.nic, h.ssd, h.gpu, h.dma, ?_, ?_⟩
    · exact hframe.size_registers.trans h.registers
    · show _ ∨ _ ∧ STATETOP - 1 ≤ t.systemState.size ∧ t.systemState.size ≤ STATETOP
      rw [hframe.size_systemState]
      exact h.systemState
  · exact (htimer 0).trans h.count
  · exact (htimer 1).trans h.period
  · exact (hload _ (by decide)).trans h.control

theorem cycle_eq_some_iff [NumPy] {cfg : Cfg} {L L' : Loop} :
    cycle cfg L = some L' ↔ ∃ D irqs t, devicePhase cfg L = some D ∧
      processorAction cfg D.irqs D.st = some (irqs, t) ∧ L' = { D with irqs, st := t } := by
  simp only [cycle, Option.bind_eq_bind, Option.bind_eq_some_iff, Option.pure_def,
    Option.some.injEq, Prod.exists]
  constructor
  · rintro ⟨D, hD, irqs, t, haction, rfl⟩
    exact ⟨D, irqs, t, hD, haction, rfl⟩
  · rintro ⟨D, irqs, t, hD, haction, rfl⟩
    exact ⟨D, hD, irqs, t, haction, rfl⟩

/-! ## Reachable cycle ends -/

/-- The device actions of a cycle keep the shape. -/
theorem shape_devices {L D : Loop} (h : Shape L) (hD : devices L = some D) :
    Shape D ∧ D.timerState = .view := by
  obtain ⟨timer, timerIrq, systemState, dmaIrq, htimer, hdma, rfl⟩ :=
    (devices_eq_some_iff h.arrays).mp hD
  have hsize := (timerAction_irq htimer).1
  have hstate : systemState.size = L.st.systemState.size :=
    (size_dmaAction hdma).trans TimerState.size_write
  have hlt := h.control_lt
  have := MEMTOP_eq
  have := DMA_eq
  refine ⟨h.rebuild (by rw [NdArray.size_slice]; omega) ?_, rfl⟩
  rcases h.systemState with ⟨a, ha, -⟩ | ⟨hview, hge, -⟩
  · rw [ha, TimerState.write, TimerState.read, hsize]
    exact h.size_timer
  · right
    have := STATETOP_eq
    have := TIMER_eq
    rw [hview, TimerState.write, TimerState.read, NdArray.size_slice]
    simp only [timerStateSz]
    omega

section
variable [NumPy] {L L' : Loop}

/-- A cycle of the main loop keeps the shape. -/
theorem shape_cycle (h : Shape L) (hcycle : cycle (mainCfg true) L = some L') :
    Shape L' ∧ L'.timerState = .view := by
  obtain ⟨D, irqs, t, hD, haction, rfl⟩ := cycle_eq_some_iff.mp hcycle
  obtain ⟨hshape, hview⟩ := shape_devices h hD
  obtain ⟨u, hcheck, hexec⟩ := processorAction_eq_some_iff.mp haction
  have hframe : Frame Set.univ Set.univ D.st t :=
    ((interruptCheck_frame hcheck).mono le_rfl (Set.subset_univ _)).trans
      (fetchDecodeExecute_frame ⟨fun _ _ => trivial, fun _ _ => trivial⟩ trivial hexec)
  refine ⟨⟨hshape.kbd, hshape.nic, hshape.ssd, hshape.gpu, hshape.dma, ?_, ?_⟩, hview⟩
  · exact hframe.size_registers.trans hshape.registers
  · show _ ∨ _ ∧ STATETOP - 1 ≤ t.systemState.size ∧ t.systemState.size ≤ STATETOP
    rw [hframe.size_systemState]
    exact hshape.systemState

/-- From the first cycle of `main` on, every cycle ends in the shape, with a view for a timer. -/
theorem shape_cycle_end {N k : ℕ} {ramState : NdArray Word} {start : Loop}
    (hram : ramState.size = ramStateSz) (hstart : mainInit N ramState = some start)
    (hL : iter (cycle (mainCfg true)) (k + 1) start = some L) :
    Shape L ∧ L.timerState = .view := by
  obtain ⟨L₀, hL₀, hstep⟩ := iter_succ_eq_some_iff.mp hL
  have hshape : Shape L₀ := by
    refine iter_induction (fun _ => Shape) (quiet_mainInit hram hstart).toShape ?_ hL₀
    intro j u v _ _ hu huv
    exact (shape_cycle hu huv).1
  exact shape_cycle hshape hstep

end

/-- The words of `systemState` at the timer's address are its entries. -/
theorem timer_of_view {L : Loop} (hview : L.timerState = .view) {i : ℕ}
    (hi : i < timerStateSz - 1) : L.timer.get? i = L.st.load (TIMER + i) := by
  rw [Loop.timer, hview, TimerState.read, NdArray.get?_slice, if_pos (by omega), St.load]

end Osh.Advanced
