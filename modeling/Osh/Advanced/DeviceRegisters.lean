import Osh.Advanced.MemoryMap

/-!
# Memory-mapped device registers

The keyboard, NIC, SSD, GPU and DMA registers exist twice: in the arrays that `main`
created, to which nothing is ever assigned, and in `systemState`, which every cycle
concatenates from these arrays. A store reaches the second copy only, and the next
cycle puts the zeros of the first one over it.

## Main definitions

* `storedTo`, `Stores`: the addresses that a call of `processorAction` stores to.
* `dmaWrites`: the addresses that `dmaAction` writes.
* `Kept`: a stored value is read in every later cycle.
-/
namespace Osh.Advanced
open PartialRun

/-- The array that `dmaAction` is given, in the cycle that starts with `L`. -/
def dmaGiven (L : Loop) : Option (NdArray Word) := do
  let (timer, _) ← timerAction L.timer
  return (L.timerState.write L.st.systemState timer).2

/-- The addresses that `dmaAction` writes. -/
def dmaWrites (systemState : NdArray Word) : List ℕ :=
  (do
    if (← systemState.get? (DMA + DCR)) = 0 then some []
    else
      let ctr ← systemState.get? (DMA + DCO)
      if ctr = 0 then some [DMA + DCR]
      else
        let toAddr := (← systemState.get? (DMA + DDR)) + ctr
        some [toAddr.toNat, DMA + DCO, DMA + DCR]).getD []

/-- The addresses that the instruction executed by a call stores to. The effect of a
high-level function is not known in advance. -/
def storedTo (cfg : Cfg) (irqs : List Bool) (s : St) : List ℕ :=
  if cfg.HL then []
  else ((interruptCheck cfg irqs s).map fun p => (executedFootprint p.2).memWrites).getD []

section
variable [NumPy]

/-- In cycle `n` `processorAction` stores to address `a`: its instruction does, or the word
there has changed. -/
def Stores (cfg : Cfg) (start : Loop) (n a : ℕ) : Prop :=
  ∃ D ∈ given cfg start n, ∃ L ∈ iter (cycle cfg) (n + 1) start,
    a ∈ storedTo cfg D.irqs D.st ∨ D.st.load a ≠ L.st.load a

/-- In cycle `n` `processorAction` stores `v` at address `a`. -/
def StoresValue (cfg : Cfg) (start : Loop) (n a : ℕ) (v : Word) : Prop :=
  Stores cfg start n a ∧ ∃ L ∈ iter (cycle cfg) (n + 1) start, L.st.load a = some v

/-- In cycle `n` a store or the DMA engine targets address `a`. -/
def Targeted (cfg : Cfg) (start : Loop) (n a : ℕ) : Prop :=
  Stores cfg start n a ∨
    ∃ L ∈ iter (cycle cfg) n start, ∃ systemState ∈ dmaGiven L, a ∈ dmaWrites systemState

/-- Nothing in a run of `N` cycles targets `a` after cycle `n`. -/
def Untouched (cfg : Cfg) (N : ℕ) (start : Loop) (n a : ℕ) : Prop :=
  ∀ m < N, n < m → ¬ Targeted cfg start m a

/-- In every cycle after cycle `n`, `processorAction` reads `v` at `a`, and so does
`dmaAction` when `a` is a DMA register. -/
def Kept (cfg : Cfg) (N : ℕ) (start : Loop) (n a : ℕ) (v : Word) : Prop :=
  ∀ m < N, n < m → (∀ D ∈ given cfg start m, D.st.load a = some v) ∧
    (DMA ≤ a → ∀ L ∈ iter (cycle cfg) m start, ∀ systemState ∈ dmaGiven L,
      systemState.get? a = some v)

end

/-! ## The DMA engine -/

/-- `dmaAction` writes nothing but the addresses that it is said to. -/
theorem get?_dmaAction {systemState systemState' : NdArray Word} {irq : Bool} {a : ℕ}
    (h : dmaAction systemState = some (systemState', irq)) (ha : a ∉ dmaWrites systemState) :
    systemState'.get? a = systemState.get? a := by
  obtain ⟨v, hv, h⟩ := Option.bind_eq_some_iff.mp h
  by_cases hzero : v = 0
  · rw [if_neg (by simpa using hzero)] at h
    cases h
    rfl
  rw [if_pos hzero] at h
  obtain ⟨s₁, hs₁, h⟩ := Option.bind_eq_some_iff.mp h
  obtain ⟨s₂, hs₂, h⟩ := Option.bind_eq_some_iff.mp h
  cases h
  obtain ⟨-, rfl⟩ := NdArray.set?_eq_some_iff.mp hs₂
  obtain ⟨ctr, hctr, hs₁⟩ := Option.bind_eq_some_iff.mp hs₁
  by_cases hidle : ctr = 0
  · rw [if_neg (by simpa using hidle)] at hs₁
    cases hs₁
    simp only [dmaWrites, hv, hctr, hidle, Option.bind_eq_bind, Option.bind_some, if_neg hzero,
      if_true, Option.getD_some, List.mem_singleton] at ha
    exact NdArray.get?_update_ne _ ha _
  · rw [if_pos hidle] at hs₁
    obtain ⟨d, hd, hs₁⟩ := Option.bind_eq_some_iff.mp hs₁
    obtain ⟨f, -, hs₁⟩ := Option.bind_eq_some_iff.mp hs₁
    obtain ⟨w, -, hs₁⟩ := Option.bind_eq_some_iff.mp hs₁
    obtain ⟨s₀, hs₀, hs₁⟩ := Option.bind_eq_some_iff.mp hs₁
    obtain ⟨c, -, hs₁⟩ := Option.bind_eq_some_iff.mp hs₁
    obtain ⟨-, rfl⟩ := NdArray.set?_eq_some_iff.mp hs₀
    obtain ⟨-, rfl⟩ := NdArray.set?_eq_some_iff.mp hs₁
    simp only [dmaWrites, hv, hctr, hd, Option.bind_eq_bind, Option.bind_some, if_neg hzero,
      if_neg hidle, Option.getD_some, List.mem_cons, List.not_mem_nil, or_false, not_or] at ha
    rw [NdArray.get?_update_ne _ ha.2.2, NdArray.get?_update_ne _ ha.2.1,
      NdArray.get?_update_ne _ ha.1]

/-- The timer's countdown leaves the device registers alone. -/
theorem get?_dmaGiven {L : Loop} {systemState : NdArray Word} {a : ℕ}
    (h : dmaGiven L = some systemState) (ha : KBD ≤ a) : systemState.get? a = L.st.load a := by
  obtain ⟨⟨timer, timerIrq⟩, htimer, h⟩ := Option.bind_eq_some_iff.mp h
  cases h
  refine TimerState.get?_write ?_ (.inr ha)
  intro hview
  rw [(timerAction_irq htimer).1, Loop.timer, hview, TimerState.read, NdArray.size_slice]
  omega

/-! ## Stored values -/

section
variable [NumPy] {cfg : Cfg} {L D start : Loop} {N n m a : ℕ} {v : Word} {ramState : NdArray Word}

/-- Behind the timer's range every cycle but the first gives zeros to `processorAction`, up
to the word that is missing. -/
theorem load_given (hP : cfg.PERIPHERALS = true) (hram : ramState.size = ramStateSz)
    (hstart : mainInit N ramState = some start) (hD : given cfg start (n + 1) = some D)
    (ha : KBD ≤ a) (htop : a < STATETOP) :
    D.st.load a = if a + 1 < STATETOP then some 0 else none := by
  obtain ⟨L, hL, hdevices⟩ := given_eq_some_iff.mp hD
  obtain ⟨harrays, hview⟩ := arrays_cycle_end hP hram hstart hL
  rw [devicePhase_eq hP] at hdevices
  obtain ⟨-, -, -, -, -, -, hsize, -, hzero⟩ := devices_of_view harrays hview hdevices
  by_cases hlt : a + 1 < STATETOP
  · rw [if_pos hlt, hzero a (by omega) hlt]
  · rw [if_neg hlt, St.load, NdArray.get?_eq_none_iff]
    omega

/-- A word to which `processorAction` does not store is found as it was given. -/
theorem load_of_not_stores (hD : given cfg start n = some D)
    (hL : iter (cycle cfg) (n + 1) start = some L) (h : ¬ Stores cfg start n a) :
    L.st.load a = D.st.load a := by
  by_contra hne
  exact h ⟨D, hD, L, hL, .inr (Ne.symm hne)⟩

/-- The DMA engine still sees the stored value in the next cycle. -/
theorem dmaGiven_of_storesValue (ha : KBD ≤ a) (hstore : StoresValue cfg start n a v) :
    ∀ L ∈ iter (cycle cfg) (n + 1) start, ∀ systemState ∈ dmaGiven L,
      systemState.get? a = some v := by
  intro L hL systemState hdma
  obtain ⟨-, L₁, hL₁, hv⟩ := hstore
  obtain rfl : L₁ = L := Option.some.inj (hL₁.symm.trans hL)
  rw [get?_dmaGiven hdma ha, hv]

/-- A stored 0 is what the later cycles read anyway. -/
theorem kept_of_zero (hP : cfg.PERIPHERALS = true) (hram : ramState.size = ramStateSz)
    (hstart : mainInit N ramState = some start) (ha : KBD ≤ a) (hlt : a + 1 < STATETOP)
    (hstore : StoresValue cfg start n a 0) (hrest : Untouched cfg N start n a) :
    Kept cfg N start n a 0 := by
  have hzero : ∀ j, ∀ D ∈ given cfg start (j + 1), D.st.load a = some 0 := by
    intro j D hD
    rw [load_given hP hram hstart hD ha (Nat.lt_of_succ_lt hlt), if_pos hlt]
  intro m hm hnm
  obtain ⟨k, rfl⟩ : ∃ k, m = k + 1 := ⟨m - 1, by omega⟩
  refine ⟨hzero k, ?_⟩
  intro _ L hL systemState hdma
  rcases Nat.lt_or_eq_of_le (Nat.le_of_lt_succ hnm) with hlater | rfl
  · -- nothing was stored there in the cycle before
    obtain ⟨j, rfl⟩ : ∃ j, k = j + 1 := ⟨k - 1, by omega⟩
    obtain ⟨D, hD⟩ := exists_given_of_iter hL (Nat.lt_succ_self (j + 1))
    have hno : ¬ Stores cfg start (j + 1) a :=
      fun hstores => hrest (j + 1) (by omega) hlater (.inl hstores)
    rw [get?_dmaGiven hdma ha, load_of_not_stores hD hL hno, hzero j D hD]
  · exact dmaGiven_of_storesValue ha hstore L hL systemState hdma

/-- Without a later call only the DMA engine of the next cycle reads the value. -/
theorem kept_of_not_given (ha : KBD ≤ a) (hstore : StoresValue cfg start n a v)
    (hnone : given cfg start (n + 1) = none) : Kept cfg N start n a v := by
  intro m hm hnm
  refine ⟨?_, ?_⟩
  · intro D hD
    obtain ⟨D', hD'⟩ := exists_given hD (show n + 1 ≤ m by omega)
    rw [hnone] at hD'
    cases hD'
  · intro _ L hL systemState hdma
    rcases Nat.lt_or_eq_of_le (Nat.succ_le_of_lt hnm) with hlater | rfl
    · obtain ⟨D', hD'⟩ := exists_given_of_iter hL hlater
      rw [hnone] at hD'
      cases hD'
    · exact dmaGiven_of_storesValue ha hstore L hL systemState hdma

/-- **Device registers keep what is stored in them** as long as `processorAction` is not
called again; after that, if it is a 0. -/
theorem kept_iff (hP : cfg.PERIPHERALS = true) (hram : ramState.size = ramStateSz)
    (hstart : mainInit N ramState = some start) (ha : KBD ≤ a) (htop : a < STATETOP)
    (hstore : StoresValue cfg start n a v) (hrest : Untouched cfg N start n a) :
    Kept cfg N start n a v ↔
      v = 0 ∧ a + 1 < STATETOP ∨ N ≤ n + 1 ∨ given cfg start (n + 1) = none := by
  constructor
  · intro hkept
    by_cases hN : N ≤ n + 1
    · exact .inr (.inl hN)
    cases hD : given cfg start (n + 1) with
    | none => exact .inr (.inr rfl)
    | some D =>
        have hread := (hkept (n + 1) (Nat.lt_of_not_le hN) (Nat.lt_succ_self n)).1 D hD
        rw [load_given hP hram hstart hD ha htop] at hread
        by_cases hlt : a + 1 < STATETOP
        · rw [if_pos hlt] at hread
          exact .inl ⟨(Option.some.inj hread).symm, hlt⟩
        · rw [if_neg hlt] at hread
          cases hread
  · rintro (⟨rfl, hlt⟩ | hN | hnone)
    · exact kept_of_zero hP hram hstart ha hlt hstore hrest
    · intro m hm hnm
      omega
    · exact kept_of_not_given ha hstore hnone

end

section
attribute [local instance] exactDivision

instance (cfg : Cfg) (start : Loop) (n a : ℕ) : Decidable (Stores cfg start n a) :=
  inferInstanceAs (Decidable (∃ D ∈ given cfg start n, ∃ L ∈ iter (cycle cfg) (n + 1) start,
    a ∈ storedTo cfg D.irqs D.st ∨ D.st.load a ≠ L.st.load a))

instance (cfg : Cfg) (start : Loop) (n a : ℕ) (v : Word) :
    Decidable (StoresValue cfg start n a v) :=
  inferInstanceAs (Decidable (_ ∧ ∃ L ∈ iter (cycle cfg) (n + 1) start, L.st.load a = some v))

instance (cfg : Cfg) (start : Loop) (n a : ℕ) : Decidable (Targeted cfg start n a) :=
  inferInstanceAs (Decidable (_ ∨ ∃ L ∈ iter (cycle cfg) n start,
    ∃ systemState ∈ dmaGiven L, a ∈ dmaWrites systemState))

instance (cfg : Cfg) (N : ℕ) (start : Loop) (n a : ℕ) : Decidable (Untouched cfg N start n a) :=
  inferInstanceAs (Decidable (∀ m < N, n < m → ¬ Targeted cfg start m a))

/-- In its third cycle the program stores to a keyboard register, and it never does again. -/
theorem stores_storeToKbd : ∃ start ∈ mainInit 5 (loadedRam storeToKbd.source),
    StoresValue (mainCfg true) start 2 KBD 7 ∧ Untouched (mainCfg true) 5 start 2 KBD ∧
      (given (mainCfg true) start 3).isSome := by
  decide +kernel

theorem kept_iff_storeToKbd : ∃ start, mainInit 5 (loadedRam storeToKbd.source) = some start ∧
    (Kept (mainCfg true) 5 start 2 KBD 7 ↔ (7 : Word) = 0 ∧ KBD + 1 < STATETOP ∨ 5 ≤ 2 + 1 ∨
      given (mainCfg true) start (2 + 1) = none) := by
  obtain ⟨start, hstart, hstore, hrest, -⟩ := stores_storeToKbd
  exact ⟨start, hstart,
    kept_iff rfl (by decide +kernel) hstart le_rfl (by decide) hstore hrest⟩

/-- The next cycle has lost the 7. -/
theorem kbd_register_lost :
    ¬ ∀ (cfg : Cfg) (N : ℕ) (ramState : NdArray Word) (start : Loop) (n a : ℕ) (v : Word),
      cfg.PERIPHERALS = true → ramState.size = ramStateSz → mainInit N ramState = some start →
      KBD ≤ a → a < STATETOP → StoresValue cfg start n a v → Untouched cfg N start n a →
      Kept cfg N start n a v := by
  intro hclaim
  obtain ⟨start, hstart, hstore, hrest, hsome⟩ := stores_storeToKbd
  have hram : (loadedRam storeToKbd.source).size = ramStateSz := by decide +kernel
  have hkept := hclaim (mainCfg true) 5 _ start 2 KBD 7 rfl hram hstart le_rfl (by decide) hstore
    hrest
  obtain ⟨D, hD⟩ := Option.isSome_iff_exists.mp hsome
  have hread := (hkept 3 (by decide) (by decide)).1 D hD
  rw [load_given rfl hram hstart hD le_rfl (by decide), if_pos (by decide)] at hread
  exact absurd (Option.some.inj hread) (by decide)

end
end Osh.Advanced
