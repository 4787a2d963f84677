import Osh.Advanced.Processor

/-!
# Peripheral actions of the advanced system model

Each device action takes the state of its device and returns it together with its
interrupt request. The keyboard, network, disk and graphics devices do nothing yet.
The timer counts down and reloads; the DMA engine reads its registers from
`systemState`, copies one word at a time, and would then store a `-1`, which no
entry of a word array can hold.
-/
namespace Osh.Advanced

/-- The action of a device that does nothing. -/
def idleAction (state : NdArray Word) : NdArray Word × Bool := (state, false)

def kbdAction (kbdState : NdArray Word) : NdArray Word × Bool := idleAction kbdState

def nicAction (nicState : NdArray Word) : NdArray Word × Bool := idleAction nicState

def ssdAction (ssdState : NdArray Word) : NdArray Word × Bool := idleAction ssdState

def gpuAction (gpuState : NdArray Word) : NdArray Word × Bool := idleAction gpuState

/-- The first statement of `timerAction`. -/
def timerCountDown (timerState : NdArray Word) : Option (NdArray Word) := do
  let count ← timerState.get? 0
  if count > 0 then timerState.set? 0 (count - 1) else some timerState

/-- Count down from entry 0; at zero raise the request and reload entry 1. -/
def timerAction (timerState : NdArray Word) : Option (NdArray Word × Bool) := do
  let timerState ← timerCountDown timerState
  if (← timerState.get? 0) = 0 then
    return (← timerState.set? 0 (← timerState.get? 1), true)
  else return (timerState, false)

/-- The transfer of one word in `dmaAction`, when the DMA counter is not 0. `minusOne` is what
the array holds after the assignment of `-1`, if it does not raise. -/
def dmaTransfer (minusOne : Option Word) (systemState : NdArray Word) : Option (NdArray Word) := do
  let ctr ← systemState.get? (DMA + DCO)
  if ctr ≠ 0 then
    let toAddr := (← systemState.get? (DMA + DDR)) + ctr
    let fromAddr := (← systemState.get? (DMA + DSR)) + ctr
    let systemState ← systemState.set? toAddr.toNat (← systemState.get? fromAddr.toNat)
    systemState.set? (DMA + DCO) (← minusOne)
  else some systemState

def dmaActionWith (minusOne : Option Word) (systemState : NdArray Word) :
    Option (NdArray Word × Bool) := do
  if (← systemState.get? (DMA + DCR)) ≠ 0 then
    let systemState ← dmaTransfer minusOne systemState
    return (← systemState.set? (DMA + DCR) 0, true)
  else return (systemState, false)

/-- The assignment of `-1` raises, as it does in NumPy 2. -/
def dmaAction (systemState : NdArray Word) : Option (NdArray Word × Bool) :=
  dmaActionWith (pyInt (-1)) systemState

/-- The timer of count `c` and period `p`, after one action. -/
def tick (c p : Word) : Word := if c ≤ 1 then p else c - 1

/-- What a timer action does: entry 0 is counted down or reloaded, and the request
is raised exactly when the count has run out. -/
theorem timerAction_spec {timerState : NdArray Word} {c p : Word} (hc : timerState.get? 0 = some c)
    (hp : timerState.get? 1 = some p) :
    ∃ timerState', timerAction timerState = some (timerState', decide (c ≤ 1)) ∧
      timerState'.size = timerState.size ∧ timerState'.get? 0 = some (tick c p) ∧
      ∀ i, i ≠ 0 → timerState'.get? i = timerState.get? i := by
  have hsize : 0 < timerState.size := NdArray.lt_size_of_get? hc
  -- the countdown leaves a count that is 0 exactly when the timer has run out
  obtain ⟨ts, c', hts, htssize, hc', hrest, hzero, htick⟩ : ∃ ts c',
      timerCountDown timerState = some ts ∧ ts.size = timerState.size ∧ ts.get? 0 = some c' ∧
      (∀ i, i ≠ 0 → ts.get? i = timerState.get? i) ∧ (c' = 0 ↔ c ≤ 1) ∧ (c' ≠ 0 → c' = c - 1) := by
    simp only [timerCountDown, hc, Option.bind_eq_bind, Option.bind_some]
    by_cases hpos : c > 0
    · rw [if_pos hpos, NdArray.set?_of_lt hsize]
      refine ⟨_, c - 1, rfl, rfl, NdArray.get?_update_self hsize _,
        fun i hi => NdArray.get?_update_ne _ hi _, by bv_omega, fun _ => rfl⟩
    · obtain rfl : c = 0 := by bv_omega
      exact ⟨timerState, 0, rfl, rfl, hc, fun _ _ => rfl, by simp, fun h => absurd rfl h⟩
  have hp' : ts.get? 1 = some p := (hrest 1 (by omega)).trans hp
  by_cases hle : c ≤ 1
  · obtain rfl := hzero.mpr hle
    refine ⟨ts.update 0 p, ?_, htssize, ?_, ?_⟩
    · simp only [timerAction, hts, hc', hp', Option.bind_eq_bind, Option.bind_some, if_true,
        NdArray.set?_of_lt (htssize ▸ hsize), hle, decide_true]
      rfl
    · rw [NdArray.get?_update_self (htssize ▸ hsize), tick, if_pos hle]
    · intro i hi
      rw [NdArray.get?_update_ne _ hi, hrest i hi]
  · have hne : c' ≠ 0 := fun h => hle (hzero.mp h)
    refine ⟨ts, ?_, htssize, ?_, hrest⟩
    · simp only [timerAction, hts, hc', Option.bind_eq_bind, Option.bind_some, if_neg hne, hle,
        decide_false]
      rfl
    · rw [hc', htick hne, tick, if_neg hle]

/-- Whatever the timer holds, its request is raised exactly when the count has run out. -/
theorem timerAction_irq {timerState timerState' : NdArray Word} {irq : Bool}
    (h : timerAction timerState = some (timerState', irq)) :
    timerState'.size = timerState.size ∧
      ∃ c, timerState.get? 0 = some c ∧ irq = decide (c ≤ 1) := by
  obtain ⟨ts, hts, h⟩ := Option.bind_eq_some_iff.mp h
  obtain ⟨c, hc, hts⟩ := Option.bind_eq_some_iff.mp hts
  obtain ⟨c', hc', h⟩ := Option.bind_eq_some_iff.mp h
  have hsize : 0 < timerState.size := NdArray.lt_size_of_get? hc
  -- the count after the countdown is 0 exactly when it was at most 1 before
  obtain ⟨htssize, hzero⟩ : ts.size = timerState.size ∧ (c' = 0 ↔ c ≤ 1) := by
    split at hts
    · rw [NdArray.set?_of_lt hsize] at hts
      cases hts
      rw [NdArray.get?_update_self hsize] at hc'
      cases hc'
      exact ⟨rfl, by bv_omega⟩
    · cases hts
      rw [hc] at hc'
      cases hc'
      exact ⟨rfl, by bv_omega⟩
  split at h
  · next hrun =>
      obtain ⟨p, -, h⟩ := Option.bind_eq_some_iff.mp h
      obtain ⟨a, ha, h⟩ := Option.bind_eq_some_iff.mp h
      cases h
      exact ⟨(NdArray.size_of_set? ha).trans htssize, c, hc,
        (decide_eq_true (hzero.mp hrun)).symm⟩
  · next hrun =>
      cases h
      exact ⟨htssize, c, hc, (decide_eq_false fun hle => hrun (hzero.mpr hle)).symm⟩

theorem dmaAction_idle {systemState : NdArray Word}
    (h : systemState.get? (DMA + DCR) = some 0) :
    dmaAction systemState = some (systemState, false) := by
  simp only [dmaAction, dmaActionWith, h, Option.bind_eq_bind, Option.bind_some]
  rfl

theorem size_dmaTransfer {minusOne : Option Word} {systemState systemState' : NdArray Word}
    (h : dmaTransfer minusOne systemState = some systemState') :
    systemState'.size = systemState.size := by
  obtain ⟨ctr, -, h⟩ := Option.bind_eq_some_iff.mp h
  split at h
  · obtain ⟨d, -, h⟩ := Option.bind_eq_some_iff.mp h
    obtain ⟨s, -, h⟩ := Option.bind_eq_some_iff.mp h
    obtain ⟨v, -, h⟩ := Option.bind_eq_some_iff.mp h
    obtain ⟨s₁, hs₁, h⟩ := Option.bind_eq_some_iff.mp h
    obtain ⟨w, -, h⟩ := Option.bind_eq_some_iff.mp h
    rw [NdArray.size_of_set? h, NdArray.size_of_set? hs₁]
  · cases h
    rfl

theorem size_dmaAction {systemState systemState' : NdArray Word} {irq : Bool}
    (h : dmaAction systemState = some (systemState', irq)) :
    systemState'.size = systemState.size := by
  obtain ⟨v, -, h⟩ := Option.bind_eq_some_iff.mp h
  split at h
  · obtain ⟨s₁, hs₁, h⟩ := Option.bind_eq_some_iff.mp h
    obtain ⟨s₂, hs₂, h⟩ := Option.bind_eq_some_iff.mp h
    cases h
    rw [NdArray.size_of_set? hs₂, size_dmaTransfer hs₁]
  · cases h
    rfl

/-- The DMA engine raises its request exactly when its control word is not 0. -/
theorem dmaAction_irq {systemState systemState' : NdArray Word} {v : Word} {irq : Bool}
    (hv : systemState.get? (DMA + DCR) = some v)
    (h : dmaAction systemState = some (systemState', irq)) : irq = decide (v ≠ 0) := by
  by_cases hzero : v = 0
  · subst hzero
    rw [dmaAction_idle hv] at h
    cases h
    rfl
  · simp only [dmaAction, dmaActionWith, hv, Option.bind_eq_bind, Option.bind_some,
      if_pos hzero] at h
    obtain ⟨s₁, -, h⟩ := Option.bind_eq_some_iff.mp h
    obtain ⟨s₂, -, h⟩ := Option.bind_eq_some_iff.mp h
    cases h
    exact (decide_eq_true hzero).symm

end Osh.Advanced
