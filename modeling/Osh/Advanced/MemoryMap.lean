import Osh.Advanced.Assembly
import Osh.Advanced.Model

/-!
# The memory map over a run

Every cycle with peripherals concatenates `systemState` anew from RAM and the device
arrays. The slice that becomes `timerState` is one word short, so from the second cycle
on the array has one word too few, and all devices behind the timer start one word too
early. Only the first call of `processorAction` finds the memory map as declared.

## Main definitions

* `given`: the variables that `processorAction` is given in a cycle.
* `Occupies`, `MemoryMap`: where the device arrays are found in `systemState`.
* `MapKept`: the memory map at every call of a run.
-/
namespace Osh.Advanced
open PartialRun

/-- A device's array, of its declared size, is found in `systemState` from `base` on. -/
structure Occupies (systemState : NdArray Word) (base sz : ℕ) (device : NdArray Word) : Prop where
  size : device.size = sz
  entry : ∀ i < sz, systemState.get? (base + i) = device.get? i

/-- The timer's array, as the cycle that starts with `L` concatenates it. -/
def concatenatedTimer (L : Loop) : Option (NdArray Word) := do
  let (timer, _) ← timerAction L.timer
  let (timerState, systemState) := L.timerState.write L.st.systemState timer
  let (systemState, _) ← dmaAction systemState
  return timerState.read systemState

/-- The memory map at a call of `processorAction` with variables `D`, in the cycle that
starts with `L`. -/
structure MemoryMap (L D : Loop) : Prop where
  size : D.st.systemState.size = STATETOP
  timer : ∃ timer ∈ concatenatedTimer L, Occupies D.st.systemState TIMER timerStateSz timer
  kbd : Occupies D.st.systemState KBD kbdStateSz D.kbdState
  nic : Occupies D.st.systemState NIC nicStateSz D.nicState
  ssd : Occupies D.st.systemState SSD ssdStateSz D.ssdState
  gpu : Occupies D.st.systemState GPU gpuStateSz D.gpuState
  dma : Occupies D.st.systemState DMA dmaStateSz D.dmaState

section
variable [NumPy]

/-- The variables that `processorAction` is given in cycle `n`. -/
def given (cfg : Cfg) (start : Loop) (n : ℕ) : Option Loop := do
  devicePhase cfg (← iter (cycle cfg) n start)

/-- The memory map at each call of `processorAction` in a run of `N` cycles. -/
def MapKept (cfg : Cfg) (N : ℕ) (start : Loop) : Prop :=
  ∀ n < N, ∀ L ∈ iter (cycle cfg) n start, ∀ D ∈ devicePhase cfg L, MemoryMap L D

end

/-! ## One cycle -/

section
variable {L D : Loop} {ramState timer : NdArray Word} {timerIrq dmaIrq : Bool}

/-- A device whose range lies behind the timer's array has its zeros there. -/
theorem occupies_rebuild (hram : ramState.size = MEMTOP) (htimer : timer.size = timerStateSz)
    {base sz : ℕ} (hbase : KBD ≤ base) (htop : base + sz ≤ STATETOP) :
    Occupies (L.rebuild ramState timer timerIrq dmaIrq).st.systemState base sz (.fill sz 0) := by
  refine ⟨rfl, ?_⟩
  intro i hi
  have hKBD : KBD = MEMTOP + timer.size := by rw [htimer]; rfl
  have hTOP := STATETOP_eq
  have hKBD' := KBD_eq
  rw [NdArray.get?_fill, if_pos hi]
  exact load_rebuild_device hram (by omega) (by omega)

/-- With a timer array of its own, the cycle concatenates the arrays as declared. -/
theorem memoryMap_of_own (h : DeviceArrays L) {a : NdArray Word} (hown : L.timerState = .own a)
    (ha : a.size = timerStateSz) (hsize : L.st.systemState.size = STATETOP)
    (hD : devices L = some D) : MemoryMap L D := by
  obtain ⟨timer, timerIrq, systemState, dmaIrq, htimer, hdma, rfl⟩ :=
    (devices_eq_some_iff h).mp hD
  have hconcat : concatenatedTimer L = some timer := by
    simp only [concatenatedTimer, htimer, hdma, Option.bind_eq_bind, Option.bind_some]
    rw [hown]
    rfl
  have hread : (L.timerState.write L.st.systemState timer).1.read systemState = timer := by
    rw [hown]
    rfl
  have htimersize : timer.size = timerStateSz := by
    rw [(timerAction_irq htimer).1, Loop.timer, hown, TimerState.read, ha]
  have hram : (systemState.slice 0 MEMTOP).size = MEMTOP := by
    have hstate : systemState.size = STATETOP :=
      ((size_dmaAction hdma).trans TimerState.size_write).trans hsize
    rw [NdArray.size_slice, hstate]
    rfl
  rw [hread]
  constructor
  · simp only [Loop.rebuild, NdArray.size_append, NdArray.size_fill, hram, htimersize]
    rfl
  · refine ⟨timer, hconcat, htimersize, ?_⟩
    intro i hi
    have hTIMER : TIMER = MEMTOP := rfl
    rw [Loop.rebuild, NdArray.append_assoc, NdArray.get?_append_right (by omega),
      NdArray.get?_append_left (by omega)]
    congr 1
    omega
  · exact h.kbd ▸ occupies_rebuild hram htimersize (by decide) (by decide)
  · exact h.nic ▸ occupies_rebuild hram htimersize (by decide) (by decide)
  · exact h.ssd ▸ occupies_rebuild hram htimersize (by decide) (by decide)
  · exact h.gpu ▸ occupies_rebuild hram htimersize (by decide) (by decide)
  · exact h.dma ▸ occupies_rebuild hram htimersize (by decide) (by decide)

/-- With a view for a timer, the cycle carries over what lies before the last word of the
timer's range, and puts zeros behind it, up to one word before the top. -/
theorem devices_of_view (h : DeviceArrays L) (hview : L.timerState = .view)
    (hD : devices L = some D) : ∃ timer timerIrq systemState dmaIrq,
      timerAction L.timer = some (timer, timerIrq) ∧
      dmaAction (L.st.systemState.blit TIMER timer) = some (systemState, dmaIrq) ∧
      D.st.systemState.size + 1 = STATETOP ∧
      (∀ a, a + 1 < KBD → D.st.load a = systemState.get? a) ∧
      ∀ a, KBD ≤ a + 1 → a + 1 < STATETOP → D.st.load a = some 0 := by
  obtain ⟨timer, timerIrq, systemState, dmaIrq, htimer, hdma, rfl⟩ :=
    (devices_eq_some_iff h).mp hD
  simp only [hview, TimerState.write] at hdma ⊢
  have hTIMER := TIMER_eq
  have hKBD := KBD_eq
  have hTOP := STATETOP_eq
  have hMEMTOP := MEMTOP_eq
  have hSz : timerStateSz = 16 := rfl
  -- the DMA engine has read its control word, so the array is long enough for both slices
  have hstate : DMA + DCR < systemState.size := by
    rw [size_dmaAction hdma]
    obtain ⟨v, hv, -⟩ := Option.bind_eq_some_iff.mp hdma
    exact NdArray.lt_size_of_get? hv
  have hlt : KBD ≤ systemState.size := Nat.le_of_lt (Nat.lt_of_le_of_lt (by decide) hstate)
  have hram : (systemState.slice 0 MEMTOP).size = MEMTOP := by
    rw [NdArray.size_slice]
    omega
  have hread : (TimerState.view.read systemState).size + 1 = timerStateSz := by
    rw [TimerState.read, NdArray.size_slice]
    omega
  refine ⟨timer, timerIrq, systemState, dmaIrq, htimer, hdma, ?_, ?_, ?_⟩
  · simp only [Loop.rebuild, NdArray.size_append, NdArray.size_fill, hram]
    omega
  · intro a ha
    by_cases hlow : a < MEMTOP
    · rw [load_rebuild_ram hram hlow, NdArray.get?_slice, if_pos (by omega), Nat.zero_add]
    · rw [St.load, Loop.rebuild, NdArray.append_assoc, NdArray.get?_append_right (by omega),
        NdArray.get?_append_left (by omega), TimerState.read, NdArray.get?_slice,
        if_pos (by omega), hram, hTIMER, ← hMEMTOP, Nat.add_sub_of_le (Nat.le_of_not_lt hlow)]
  · intro a ha htop
    exact load_rebuild_device hram (by omega) (by omega)

/-- The memory map is lost when the timer is a view. -/
theorem not_memoryMap_of_view (h : DeviceArrays L) (hview : L.timerState = .view)
    (hD : devices L = some D) : ¬ MemoryMap L D := by
  intro hmap
  obtain ⟨timer, timerIrq, systemState, dmaIrq, -, -, hsize, -⟩ := devices_of_view h hview hD
  have := hmap.size
  omega

end

/-! ## Runs -/

section
variable [NumPy] {cfg : Cfg} {L L' D start : Loop} {N n m : ℕ} {ramState : NdArray Word}

omit [NumPy] in
theorem devicePhase_eq (hP : cfg.PERIPHERALS = true) : devicePhase cfg L = devices L :=
  if_pos hP

theorem given_eq_some_iff : given cfg start n = some D ↔
    ∃ L, iter (cycle cfg) n start = some L ∧ devicePhase cfg L = some D :=
  Option.bind_eq_some_iff

/-- `processorAction` was called in every cycle that has ended. -/
theorem exists_given_of_iter (h : iter (cycle cfg) n start = some L) (hm : m < n) :
    ∃ D, given cfg start m = some D := by
  obtain ⟨L', hL'⟩ := iter_prefix h (m + 1) hm
  obtain ⟨L₀, hL₀, hcycle⟩ := iter_succ_eq_some_iff.mp hL'
  obtain ⟨D, _, _, hD, -⟩ := cycle_eq_some_iff.mp hcycle
  exact ⟨D, given_eq_some_iff.mpr ⟨L₀, hL₀, hD⟩⟩

/-- Whatever is called in a cycle has been called in the cycles before. -/
theorem exists_given (h : given cfg start n = some D) (hm : m ≤ n) :
    ∃ D', given cfg start m = some D' := by
  obtain ⟨L, hL, -⟩ := given_eq_some_iff.mp h
  rcases Nat.lt_or_eq_of_le hm with hlt | rfl
  · exact exists_given_of_iter hL hlt
  · exact ⟨D, h⟩

/-- The device actions do not assign to the device arrays. -/
theorem DeviceArrays.cycle (hP : cfg.PERIPHERALS = true) (h : DeviceArrays L)
    (hcycle : cycle cfg L = some L') : DeviceArrays L' ∧ L'.timerState = .view := by
  obtain ⟨D, irqs, t, hD, -, rfl⟩ := cycle_eq_some_iff.mp hcycle
  rw [devicePhase_eq hP] at hD
  obtain ⟨timer, timerIrq, systemState, dmaIrq, -, -, rfl⟩ := (devices_eq_some_iff h).mp hD
  exact ⟨⟨h.kbd, h.nic, h.ssd, h.gpu, h.dma⟩, rfl⟩

/-- From the end of the first cycle on the timer is a view. -/
theorem arrays_cycle_end (hP : cfg.PERIPHERALS = true) (hram : ramState.size = ramStateSz)
    (hstart : mainInit N ramState = some start)
    (hL : iter (Advanced.cycle cfg) (n + 1) start = some L) :
    DeviceArrays L ∧ L.timerState = .view := by
  obtain ⟨L₀, hL₀, hstep⟩ := iter_succ_eq_some_iff.mp hL
  have h₀ : DeviceArrays L₀ := by
    refine iter_induction (fun _ => DeviceArrays) (quiet_mainInit hram hstart).toShape.arrays ?_ hL₀
    intro j u v _ _ hu huv
    exact (hu.cycle hP huv).1
  exact h₀.cycle hP hstep

/-- **The memory map holds at every call** of `processorAction` when there is at most one. -/
theorem mapKept_iff (hP : cfg.PERIPHERALS = true) (hram : ramState.size = ramStateSz)
    (hstart : mainInit N ramState = some start) :
    MapKept cfg N start ↔ N ≤ 1 ∨ given cfg start 1 = none := by
  constructor
  · intro hkept
    by_cases hN : N ≤ 1
    · exact .inl hN
    · right
      by_contra hsome
      obtain ⟨D, hD⟩ := Option.ne_none_iff_exists'.mp hsome
      obtain ⟨L, hL, hdevices⟩ := given_eq_some_iff.mp hD
      obtain ⟨harrays, hview⟩ := arrays_cycle_end hP hram hstart hL
      have hmap := hkept 1 (Nat.lt_of_not_le hN) L hL D hdevices
      rw [devicePhase_eq hP] at hdevices
      exact not_memoryMap_of_view harrays hview hdevices hmap
  · intro hone n hn L hL D hD
    cases n with
    | zero =>
        cases hL
        rw [Option.mem_def, devicePhase_eq hP] at hD
        have hshape : Shape start := (quiet_mainInit hram hstart).toShape
        obtain ⟨-, rfl⟩ := mainInit_eq_some_iff.mp hstart
        refine memoryMap_of_own hshape.arrays rfl rfl ?_ hD
        have htimer : (startTimer N).size = timerStateSz := rfl
        rw [NdArray.size_append, NdArray.size_append, NdArray.size_fill, hram, htimer]
        decide
    | succ n =>
        rcases hone with hN | hnone
        · omega
        · obtain ⟨D', hD'⟩ := exists_given (given_eq_some_iff.mpr ⟨L, hL, hD⟩)
            (show 1 ≤ n + 1 by omega)
          rw [hnone] at hD'
          cases hD'

end

section
attribute [local instance] exactDivision

/-- A program that stores 7 to the first keyboard register. -/
def storeToKbd : Program ℕ :=
  [(none, .set 1 ⟨KBD, by decide⟩), (none, .set 2 7), (none, .str 2 1), (none, .nop), (none, .nop)]

theorem mapKept_iff_storeToKbd : ∃ start, mainInit 5 (loadedRam storeToKbd.source) = some start ∧
    (MapKept (mainCfg true) 5 start ↔ 5 ≤ 1 ∨ given (mainCfg true) start 1 = none) := by
  have hinit : (mainInit 5 (loadedRam storeToKbd.source)).isSome := by decide +kernel
  obtain ⟨start, hstart⟩ := Option.isSome_iff_exists.mp hinit
  exact ⟨start, hstart, mapKept_iff rfl (by decide +kernel) hstart⟩

/-- The second call is given one word too few. -/
theorem map_lost_in_second_cycle :
    ¬ ∀ (cfg : Cfg) (N : ℕ) (ramState : NdArray Word) (start : Loop),
      cfg.PERIPHERALS = true → ramState.size = ramStateSz → mainInit N ramState = some start →
      MapKept cfg N start := by
  intro hclaim
  have hsecond : ∃ start ∈ mainInit 5 (loadedRam storeToKbd.source),
      ∃ L ∈ iter (cycle (mainCfg true)) 1 start, ∃ D ∈ devicePhase (mainCfg true) L,
        D.st.systemState.size = STATETOP - 1 := by decide +kernel
  obtain ⟨start, hstart, L, hL, D, hD, hsize⟩ := hsecond
  have hmap := hclaim (mainCfg true) 5 _ start rfl (by decide +kernel) hstart 1 (by decide) L hL D
    hD
  rw [hmap.size] at hsize
  exact absurd hsize (by decide)

end
end Osh.Advanced
