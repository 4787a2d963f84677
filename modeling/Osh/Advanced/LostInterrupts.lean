import Osh.Advanced.Assembly
import Osh.Advanced.Model
import Osh.Advanced.Interrupts

/-!
# Interrupt requests across cycles

The main loop builds the list of requests anew in every cycle, and `checkIrqs`
dispatches one of them. What it leaves raised in the list that it returns is thrown
away. Only the timer and the DMA engine ever raise a request, so nothing is lost as
long as these two do not raise theirs in the same cycle.

## Main definitions

* `irqsGiven`, `irqsReturned`: the list before and after `checkIrqs`, cycle by cycle.
* `NoRequestLost`: a raised request stays raised until it is dispatched.
* `Coincide`: the timer and the DMA engine are about to raise their requests together.
-/
namespace Osh.Advanced
open PartialRun

section
variable [NumPy] {cfg : Cfg} {start L D : Loop} {N n m i : ℕ}

/-- The list of requests that is given to `checkIrqs` in cycle `n`. -/
def irqsGiven (cfg : Cfg) (start : Loop) (n : ℕ) : Option (List Bool) := do
  let D ← devicePhase cfg (← iter (cycle cfg) n start)
  return D.irqs

/-- The list that `checkIrqs` returns in cycle `n`. -/
def irqsReturned (cfg : Cfg) (start : Loop) (n : ℕ) : Option (List Bool) := do
  let D ← devicePhase cfg (← iter (cycle cfg) n start)
  let (irqs, _) ← interruptCheck cfg D.irqs D.st
  return irqs

/-- Request `i` is raised in cycle `n`. -/
def Raised (cfg : Cfg) (start : Loop) (n i : ℕ) : Prop :=
  ∃ irqs ∈ irqsGiven cfg start n, irqs[i]? = some true

/-- Request `i` is dispatched in cycle `n`: it is cleared by `checkIrqs`. -/
def Dispatched (cfg : Cfg) (start : Loop) (n i : ℕ) : Prop :=
  Raised cfg start n i ∧ ∃ irqs ∈ irqsReturned cfg start n, irqs[i]? = some false

/-- A request raised in one of `N` cycles is raised in every later one that is
reached, until it is dispatched. -/
def NoRequestLost (cfg : Cfg) (start : Loop) (N : ℕ) : Prop :=
  ∀ n m i, n ≤ m → m < N → Raised cfg start n i → (irqsGiven cfg start m).isSome →
    (∃ j, n ≤ j ∧ j < m ∧ Dispatched cfg start j i) ∨ Raised cfg start m i

/-- At the start of a cycle: the timer is about to run out and the DMA control word is set. -/
def Coincide (L : Loop) : Bool :=
  (L.timer.get? 0).any (· ≤ 1) && (L.st.load (DMA + DCR)).any (· ≠ 0)

omit [NumPy] in
/-- Only the timer and the DMA engine raise requests, each depending on one word. -/
theorem irqs_of_devices (h : devices L = some D) :
    ∃ c v, L.timer.get? 0 = some c ∧ L.st.load (DMA + DCR) = some v ∧
      D.irqs = [false, false, false, false, decide (c ≤ 1), decide (v ≠ 0)] := by
  obtain ⟨⟨timer, timerIrq⟩, htimer, h⟩ := Option.bind_eq_some_iff.mp h
  obtain ⟨⟨systemState, dmaIrq⟩, hdma, h⟩ := Option.bind_eq_some_iff.mp h
  cases h
  obtain ⟨hsize, c, hc, rfl⟩ := timerAction_irq htimer
  obtain ⟨v, hv, -⟩ := Option.bind_eq_some_iff.mp hdma
  have hwrite : (L.timerState.write L.st.systemState timer).2.get? (DMA + DCR) =
      L.st.systemState.get? (DMA + DCR) := by
    refine TimerState.get?_write ?_ (.inr (by decide))
    intro hview
    rw [hsize, Loop.timer, hview, TimerState.read, NdArray.size_slice]
    omega
  exact ⟨c, v, hc, hwrite.symm.trans hv, by rw [dmaAction_irq hv hdma]⟩

omit [NumPy] in
/-- A request that is alone in the list is dispatched. -/
theorem cleared_of_single (hP : cfg.PERIPHERALS = true) {before after irqs : List Bool} {s t : St}
    (hbefore : true ∉ before) (hafter : true ∉ after)
    (hcheck : interruptCheck cfg (before ++ true :: after) s = some (irqs, t))
    (hi : (before ++ true :: after)[i]? = some true) : irqs[i]? = some false := by
  obtain ⟨rfl, -⟩ := interruptCheck_raised hP hbefore hcheck
  rcases Nat.lt_trichotomy i before.length with hlt | rfl | hgt
  · rw [List.getElem?_append_left hlt] at hi
    exact absurd (List.mem_of_getElem? hi) hbefore
  · simp
  · obtain ⟨k, rfl⟩ : ∃ k, i = before.length + (k + 1) := ⟨i - before.length - 1, by omega⟩
    rw [List.getElem?_append_right (by omega), Nat.add_sub_cancel_left,
      List.getElem?_cons_succ] at hi
    exact absurd (List.mem_of_getElem? hi) hafter

/-- When timer and DMA engine do not raise their requests together, a raised request
is dispatched at once. -/
theorem dispatched_of_not_coincide (hP : cfg.PERIPHERALS = true)
    (hL : iter (cycle cfg) n start = some L) (hok : Coincide L = false)
    (hraised : Raised cfg start n i) (hcheck : (irqsReturned cfg start n).isSome) :
    Dispatched cfg start n i := by
  refine ⟨hraised, ?_⟩
  obtain ⟨irqs', hirqs'⟩ := Option.isSome_iff_exists.mp hcheck
  obtain ⟨irqs, hirqs, hi⟩ := hraised
  have h := hirqs'
  simp only [irqsReturned, hL, Option.bind_eq_bind, Option.bind_some] at h
  obtain ⟨D, hD, h⟩ := Option.bind_eq_some_iff.mp h
  obtain ⟨⟨irqs₁, t⟩, hcheck', h⟩ := Option.bind_eq_some_iff.mp h
  cases h
  have hdevices : devices L = some D := by
    rwa [devicePhase, if_pos hP] at hD
  obtain ⟨c, v, hc, hv, hDirqs⟩ := irqs_of_devices hdevices
  obtain rfl : irqs = D.irqs := by
    simp only [irqsGiven, hL, hD, Option.bind_eq_bind, Option.bind_some] at hirqs
    exact (Option.some.inj hirqs).symm
  refine ⟨irqs₁, hirqs', ?_⟩
  rw [Coincide, hc, hv, Option.any_some, Option.any_some] at hok
  rw [hDirqs] at hi hcheck'
  -- the list holds at most one request, at index 4 or at index 5
  by_cases htimer : c ≤ 1
  · rw [decide_eq_true htimer, Bool.true_and] at hok
    rw [decide_eq_true htimer, hok] at hi hcheck'
    exact cleared_of_single hP (show true ∉ [false, false, false, false] by decide)
      (show true ∉ [false] by decide) hcheck' hi
  · rw [decide_eq_false htimer] at hi hcheck'
    by_cases hdma : v ≠ 0
    · rw [decide_eq_true hdma] at hi hcheck'
      exact cleared_of_single hP (show true ∉ [false, false, false, false, false] by decide)
        List.not_mem_nil hcheck' hi
    · rw [decide_eq_false hdma] at hi
      exact absurd (List.mem_of_getElem? hi) (by decide)

/-- **No interrupt request is lost** in a run in which timer and DMA engine never
raise theirs in the same cycle. -/
theorem no_request_lost (hP : cfg.PERIPHERALS = true)
    (hok : ∀ n < N, ∀ L ∈ iter (cycle cfg) n start, Coincide L = false) :
    NoRequestLost cfg start N := by
  intro n m i hnm hm hraised hreached
  rcases Nat.eq_or_lt_of_le hnm with rfl | hlt
  · exact .inr hraised
  · refine .inl ⟨n, le_rfl, hlt, ?_⟩
    -- the run has gone on, so the check of cycle `n` has succeeded
    obtain ⟨irqs, hirqs⟩ := Option.isSome_iff_exists.mp hreached
    obtain ⟨Lm, hLm, -⟩ := Option.bind_eq_some_iff.mp hirqs
    obtain ⟨L', hL'⟩ := iter_prefix hLm (n + 1) hlt
    obtain ⟨L, hL, hcycle⟩ := iter_succ_eq_some_iff.mp hL'
    obtain ⟨D, irqs', t, hD, haction, -⟩ := cycle_eq_some_iff.mp hcycle
    obtain ⟨u, hcheck, -⟩ := processorAction_eq_some_iff.mp haction
    refine dispatched_of_not_coincide hP hL (hok n (by omega) L hL) hraised ?_
    simp only [irqsReturned, hL, hD, hcheck, Option.bind_eq_bind, Option.bind_some]
    rfl

end

/-! Runs from the start of `main`: the timer fires alone, and together with the DMA engine. -/
section
attribute [local instance] exactDivision

/-- Let the timer run out. -/
def timerAlone : Program ℕ := [(none, .set 2 ⟨TIMER, TIMER_lt⟩), (none, .set 3 1), (none, .str 3 2)]

theorem no_request_lost_timerAlone :
    ∃ start, mainInit 6 (loadedRam timerAlone.source) = some start ∧
      NoRequestLost (mainCfg true) start 6 := by
  have hinit : (mainInit 6 (loadedRam timerAlone.source)).isSome := by decide +kernel
  have hok : ∀ start ∈ mainInit 6 (loadedRam timerAlone.source), ∀ n < 6,
      ∀ L ∈ iter (cycle (mainCfg true)) n start, Coincide L = false := by decide +kernel
  obtain ⟨start, hstart⟩ := Option.isSome_iff_exists.mp hinit
  exact ⟨start, hstart, no_request_lost rfl (hok start hstart)⟩

/-- Set the timer to two cycles, and the DMA control word in the cycle after. -/
def timerAndDma : Program ℕ :=
  [(none, .set 2 ⟨TIMER, TIMER_lt⟩), (none, .set 1 ⟨DMA + DCR, by decide⟩), (none, .set 3 2),
    (none, .str 3 2), (none, .str 1 1)]

/-- In the sixth cycle both requests are raised, the timer's is dispatched, and the
DMA engine's is gone in the seventh. -/
theorem dma_request_lost :
    ∃ start, mainInit 7 (loadedRam timerAndDma.source) = some start ∧
      ¬ NoRequestLost (mainCfg true) start 7 := by
  have hinit : (mainInit 7 (loadedRam timerAndDma.source)).isSome := by decide +kernel
  have hlists : ∀ start ∈ mainInit 7 (loadedRam timerAndDma.source),
      irqsGiven (mainCfg true) start 5 = some [false, false, false, false, true, true] ∧
      irqsReturned (mainCfg true) start 5 = some [false, false, false, false, false, true] ∧
      irqsGiven (mainCfg true) start 6 = some [false, false, false, false, false, false] := by
    decide +kernel
  obtain ⟨start, hstart⟩ := Option.isSome_iff_exists.mp hinit
  obtain ⟨h5, hreturned, h6⟩ := hlists start hstart
  refine ⟨start, hstart, ?_⟩
  intro hclaim
  rcases hclaim 5 6 5 (by decide) (by decide) ⟨_, h5, rfl⟩ (by rw [h6]; rfl) with
    ⟨j, hj, hlt, -, irqs, hirqs, hi⟩ | ⟨irqs, hirqs, hi⟩
  · obtain rfl : j = 5 := by omega
    rw [hreturned] at hirqs
    cases hirqs
    cases hi
  · rw [h6] at hirqs
    cases hirqs
    cases hi

end
end Osh.Advanced
