import Osh.Advanced.DeviceRegisters
import Osh.Advanced.LostInterrupts

/-!
# The timer over a run

From the end of the first cycle on the timer's count and period are the words of
`systemState` at its address. As long as neither an instruction nor the DMA engine writes
them, the count goes down by one in every cycle and is reloaded when it runs out, so that
the requests come at the start count and then once in every period.

## Main definitions

* `RunsHli`, `WritesTimer`: what an instruction or the DMA engine does in a cycle.
* `Counting c p j x`: `j` cycles after the count was `c`, it is `x`.
-/
namespace Osh.Advanced
open PartialRun

section
variable [NumPy]

/-- In cycle `n` an entry of the side table is executed. -/
def RunsHli (cfg : Cfg) (start : Loop) (n : ℕ) : Prop :=
  ∃ D ∈ given cfg start n, ∃ p ∈ interruptCheck cfg D.irqs D.st, ExecutesHli cfg p.2

/-- In cycle `n` an instruction or a DMA transfer writes the timer's count or period. -/
def WritesTimer (cfg : Cfg) (start : Loop) (n : ℕ) : Prop :=
  ∃ a ∈ [TIMER, TIMER + 1], (∃ D ∈ given cfg start n, a ∈ storedTo cfg D.irqs D.st) ∨
    ∃ L ∈ iter (cycle cfg) n start, ∃ systemState ∈ dmaGiven L, a ∈ dmaWrites systemState

end

/-! ## Counting -/

/-- `j` cycles after the count was `c`, with period `p`, it is `x`. -/
structure Counting (c p j x : ℕ) : Prop where
  pos : 1 ≤ x
  first : j < c → x + j = c
  later : c ≤ j → x ≤ p ∧ p ∣ j - c + x

namespace Counting
variable {c p j : ℕ}

theorem zero (hc : 1 ≤ c) : Counting c p 0 c := by
  constructor
  · exact hc
  · exact fun _ => Nat.add_zero c
  · omega

/-- One action of the timer. -/
theorem tick {x : Word} {p : Word} (hp : 1 ≤ p) (h : Counting c p.toNat j x.toNat) :
    Counting c p.toNat (j + 1) (Advanced.tick x p).toNat := by
  have hpos := h.pos
  have hp' : 1 ≤ p.toNat := hp
  by_cases hx : x ≤ 1
  · -- the count runs out and is reloaded
    have hone : x.toNat = 1 := Nat.le_antisymm hx hpos
    rw [Advanced.tick, if_pos hx]
    constructor
    · exact hp'
    · intro hlt
      have := h.first (Nat.lt_of_succ_lt hlt)
      omega
    · intro hle
      refine ⟨le_rfl, ?_⟩
      rcases Nat.lt_or_ge j c with hlt | hge
      · have := h.first hlt
        simp [show j + 1 - c = 0 by omega]
      · obtain ⟨-, hdvd⟩ := h.later hge
        rw [hone] at hdvd
        rw [show j + 1 - c = j - c + 1 by omega]
        exact (Nat.dvd_add_self_right).mpr hdvd
  · have hgt : 1 < x.toNat := Nat.lt_of_not_le hx
    have hsub : (x - 1).toNat = x.toNat - 1 := by bv_omega
    rw [Advanced.tick, if_neg hx, hsub]
    constructor
    · omega
    · intro hlt
      have := h.first (Nat.lt_of_succ_lt hlt)
      omega
    · intro hle
      have hge : c ≤ j := by
        by_contra hlt
        have := h.first (Nat.lt_of_not_le hlt)
        omega
      obtain ⟨hxp, hdvd⟩ := h.later hge
      refine ⟨by omega, ?_⟩
      rwa [show j + 1 - c + (x.toNat - 1) = j - c + x.toNat by omega]

/-- The count is about to run out at its start value, and once in every period after that. -/
theorem le_one_iff {x : ℕ} (h : Counting c p j x) : x ≤ 1 ↔ c ≤ j + 1 ∧ p ∣ j + 1 - c := by
  have hpos := h.pos
  rcases Nat.lt_or_ge j c with hlt | hge
  · have hfirst := h.first hlt
    constructor
    · intro hle
      refine ⟨by omega, ?_⟩
      simp [show j + 1 - c = 0 by omega]
    · intro hdue
      omega
  · obtain ⟨hxp, hdvd⟩ := h.later hge
    constructor
    · intro hle
      obtain rfl : x = 1 := Nat.le_antisymm hle hpos
      exact ⟨by omega, by rwa [show j + 1 - c = j - c + 1 by omega]⟩
    · rintro ⟨-, hdue⟩
      -- the period divides the distance to the next request, which is less than a period
      have hrest : p ∣ x - 1 := by
        have hsum : j - c + x = j + 1 - c + (x - 1) := by omega
        rw [hsum] at hdvd
        exact (Nat.dvd_add_right hdue).mp hdvd
      have hzero : x - 1 = 0 := Nat.eq_zero_of_dvd_of_lt hrest (by omega)
      omega

end Counting

/-! ## Cycles -/

section
variable [NumPy] {cfg : Cfg} {L L' D start : Loop} {N n k m : ℕ} {ramState : NdArray Word}

/-- A call of `processorAction` leaves a word alone to which its instruction does not store. -/
theorem load_of_not_storedTo (hHL : cfg.HL = false) {irqs irqs' : List Bool} {s t : St} {a : ℕ}
    (h : processorAction cfg irqs s = some (irqs', t))
    (hno : ∀ p ∈ interruptCheck cfg irqs s, ¬ ExecutesHli cfg p.2) (ha : a ∉ storedTo cfg irqs s) :
    t.load a = s.load a := by
  obtain ⟨u, hcheck, hexec⟩ := processorAction_eq_some_iff.mp h
  have hwrites : a ∉ (executedFootprint u).memWrites := by
    simpa only [storedTo, hHL, Bool.false_eq_true, if_false, hcheck, Option.map_some,
      Option.getD_some] using ha
  have hframe : Frame Set.univ {b | b ≠ a} u t := by
    refine fetchDecodeExecute_word_frame hHL (hno (irqs', u) hcheck) ⟨fun _ _ => trivial, ?_⟩
      trivial hexec
    rintro b hb rfl
    exact hwrites hb
  rw [← hframe.load a (fun hne => hne rfl), ← (interruptCheck_frame hcheck).load a id]

/-- **One cycle**: the count in memory is counted down or reloaded, and the period stays. -/
theorem timer_cycle (hP : cfg.PERIPHERALS = true) (hHL : cfg.HL = false)
    (hL : iter (cycle cfg) n start = some L) (harrays : DeviceArrays L)
    (hview : L.timerState = .view) (hcycle : cycle cfg L = some L') (hhli : ¬ RunsHli cfg start n)
    (hwrites : ¬ WritesTimer cfg start n) {x p : Word} (hcount : L.st.load TIMER = some x)
    (hperiod : L.st.load (TIMER + 1) = some p) :
    L'.st.load TIMER = some (tick x p) ∧ L'.st.load (TIMER + 1) = some p := by
  obtain ⟨D, irqs, t, hD, haction, rfl⟩ := cycle_eq_some_iff.mp hcycle
  have hgiven : given cfg start n = some D := given_eq_some_iff.mpr ⟨L, hL, hD⟩
  rw [devicePhase_eq hP] at hD
  obtain ⟨timer, timerIrq, systemState, dmaIrq, htimer, hdma, -, hlow, -⟩ :=
    devices_of_view harrays hview hD
  have hentry : ∀ i, i < timerStateSz - 1 → L.timer.get? i = L.st.load (TIMER + i) :=
    fun i hi => timer_of_view hview hi
  obtain ⟨timer', htimer', hsize, hcount', hrest⟩ :=
    timerAction_spec ((hentry 0 (by decide)).trans hcount) ((hentry 1 (by decide)).trans hperiod)
  obtain ⟨rfl, -⟩ := Prod.mk.inj (Option.some.inj (htimer.symm.trans htimer'))
  have hdmaGiven : dmaGiven L = some (L.st.systemState.blit TIMER timer) := by
    simp only [dmaGiven, htimer, hview, Option.bind_eq_bind, Option.bind_some]
    rfl
  -- a word of the timer passes through the DMA action, the concatenation and the call
  have hword : ∀ i, i < 2 → t.load (TIMER + i) = timer.get? i := by
    intro i hi
    have hmem : TIMER + i ∈ [TIMER, TIMER + 1] := by
      simp only [List.mem_cons, List.not_mem_nil, or_false]
      omega
    have hstored : TIMER + i ∉ storedTo cfg D.irqs D.st :=
      fun ha => hwrites ⟨_, hmem, .inl ⟨D, hgiven, ha⟩⟩
    have hdmaWrites : TIMER + i ∉ dmaWrites (L.st.systemState.blit TIMER timer) :=
      fun ha => hwrites ⟨_, hmem, .inr ⟨L, hL, _, hdmaGiven, ha⟩⟩
    have hlt : TIMER + 1 < L.st.systemState.size := NdArray.lt_size_of_get? hperiod
    have hget : i < timer.size := by
      have hone : 1 < L.timer.size := NdArray.lt_size_of_get? ((hentry 1 (by decide)).trans hperiod)
      omega
    have hKBD := KBD_eq
    have hTIMER := TIMER_eq
    rw [load_of_not_storedTo hHL haction (fun q hq hexec => hhli ⟨D, hgiven, q, hq, hexec⟩) hstored,
      hlow _ (by omega), get?_dmaAction hdma hdmaWrites, NdArray.get?_blit_of_mem (by omega) hget]
  refine ⟨(hword 0 (by decide)).trans hcount', (hword 1 (by decide)).trans ?_⟩
  rw [hrest 1 (by decide), hentry 1 (by decide), hperiod]

/-- Over the cycles after cycle `k` the timer counts, and the period stays. -/
theorem timer_run (hP : cfg.PERIPHERALS = true) (hHL : cfg.HL = false)
    (hram : ramState.size = ramStateSz) (hstart : mainInit N ramState = some start)
    (hL : iter (cycle cfg) (k + 1) start = some L) {c p : Word}
    (hcount : L.st.load TIMER = some c) (hperiod : L.st.load (TIMER + 1) = some p)
    (hc : 1 ≤ c) (hp : 1 ≤ p) {j : ℕ} (hhli : ∀ n, k < n → n ≤ k + j → ¬ RunsHli cfg start n)
    (hwrites : ∀ n, k < n → n ≤ k + j → ¬ WritesTimer cfg start n)
    (hL' : iter (cycle cfg) (k + 1 + j) start = some L') :
    ∃ x, L'.st.load TIMER = some x ∧ L'.st.load (TIMER + 1) = some p ∧
      Counting c.toNat p.toNat j x.toNat := by
  induction j generalizing L' with
  | zero =>
      obtain rfl : L = L' := Option.some.inj (hL.symm.trans hL')
      exact ⟨c, hcount, hperiod, Counting.zero hc⟩
  | succ j ih =>
      have hlast : iter (cycle cfg) (k + 1 + j + 1) start = some L' := hL'
      obtain ⟨L₀, hL₀, hstep⟩ := iter_succ_eq_some_iff.mp hlast
      obtain ⟨x, hx, hpx, hcounting⟩ := ih (fun n hn hle => hhli n hn (by omega))
        (fun n hn hle => hwrites n hn (by omega)) hL₀
      have hsucc : k + 1 + j = k + j + 1 := by omega
      obtain ⟨harrays, hview⟩ := arrays_cycle_end hP hram hstart (hsucc ▸ hL₀)
      obtain ⟨hcount', hperiod'⟩ := timer_cycle hP hHL hL₀ harrays hview hstep
        (hhli _ (by omega) (by omega)) (hwrites _ (by omega) (by omega)) hx hpx
      exact ⟨tick x p, hcount', hperiod', hcounting.tick hp⟩

/-- **The timer is periodic.** When cycle `k` ends with count `c ≥ 1` and period `p ≥ 1`,
the request of cycle `k + m` is raised exactly when `m` is `c` plus a multiple of `p`. -/
theorem timer_periodic (hP : cfg.PERIPHERALS = true) (hHL : cfg.HL = false)
    (hram : ramState.size = ramStateSz) (hstart : mainInit N ramState = some start)
    (hL : iter (cycle cfg) (k + 1) start = some L) {c p : Word}
    (hcount : L.st.load TIMER = some c) (hperiod : L.st.load (TIMER + 1) = some p)
    (hc : 1 ≤ c) (hp : 1 ≤ p) (hm : 1 ≤ m)
    (hhli : ∀ n, k < n → n < k + m → ¬ RunsHli cfg start n)
    (hwrites : ∀ n, k < n → n < k + m → ¬ WritesTimer cfg start n)
    (hrun : (irqsGiven cfg start (k + m)).isSome) :
    Raised cfg start (k + m) 4 ↔ c.toNat ≤ m ∧ p.toNat ∣ m - c.toNat := by
  obtain ⟨j, rfl⟩ : ∃ j, m = j + 1 := ⟨m - 1, by omega⟩
  obtain ⟨irqs, hirqs⟩ := Option.isSome_iff_exists.mp hrun
  have hgiven := hirqs
  simp only [irqsGiven, Option.bind_eq_bind, Option.bind_eq_some_iff] at hgiven
  obtain ⟨L', hL', D, hD, hDirqs⟩ := hgiven
  obtain rfl : D.irqs = irqs := Option.some.inj hDirqs
  rw [devicePhase_eq hP] at hD
  have hsucc : k + (j + 1) = k + 1 + j := by omega
  obtain ⟨x, hx, -, hcounting⟩ := timer_run hP hHL hram hstart hL hcount hperiod hc hp
    (fun n hn hle => hhli n hn (by omega)) (fun n hn hle => hwrites n hn (by omega))
    (hsucc ▸ hL')
  have hview : L'.timerState = .view :=
    (arrays_cycle_end hP hram hstart (n := k + j) (by rw [← Nat.add_assoc] at hL'; exact hL')).2
  obtain ⟨x', v, hx', -, hlist⟩ := irqs_of_devices hD
  obtain rfl : x = x' := by
    rw [timer_of_view hview (by decide), Nat.add_zero, hx] at hx'
    exact Option.some.inj hx'
  have hraised : Raised cfg start (k + (j + 1)) 4 ↔ x ≤ 1 := by
    constructor
    · rintro ⟨irqs, hirqs', h4⟩
      obtain rfl : D.irqs = irqs := Option.some.inj (hirqs.symm.trans hirqs')
      rw [hlist] at h4
      simpa using h4
    · intro hle
      refine ⟨D.irqs, hirqs, ?_⟩
      rw [hlist, decide_eq_true hle]
      rfl
  rw [hraised]
  exact hcounting.le_one_iff

/-- With nothing but no-op functions in the side table a cycle that executes an entry raises. -/
theorem not_runsHli {b : Bool} (h : iter (cycle (mainCfg b)) (n + 1) start = some L) :
    ¬ RunsHli (mainCfg b) start n := by
  rintro ⟨D, hD, ⟨irqs, s⟩, hcheck, hexec⟩
  obtain ⟨L₀, hL₀, hcycle⟩ := iter_succ_eq_some_iff.mp h
  obtain ⟨D', irqs', t, hD', haction, -⟩ := cycle_eq_some_iff.mp hcycle
  obtain rfl : D' = D := Option.some.inj ((given_eq_some_iff.mpr ⟨L₀, hL₀, hD'⟩).symm.trans hD)
  obtain ⟨u, hcheck', ht⟩ := processorAction_eq_some_iff.mp haction
  obtain ⟨-, rfl⟩ := Prod.mk.inj (Option.some.inj (hcheck'.symm.trans hcheck))
  exact not_executesHli ht hexec

end

section
attribute [local instance] exactDivision

instance (cfg : Cfg) (start : Loop) (n : ℕ) : Decidable (WritesTimer cfg start n) :=
  inferInstanceAs (Decidable (∃ a ∈ [TIMER, TIMER + 1],
    (∃ D ∈ given cfg start n, a ∈ storedTo cfg D.irqs D.st) ∨
      ∃ L ∈ iter (cycle cfg) n start, ∃ systemState ∈ dmaGiven L, a ∈ dmaWrites systemState))

/-- Set the timer's period to 2 and then its count to 3. -/
def everySecondCycle : Program ℕ :=
  [(none, .set 2 ⟨TIMER, TIMER_lt⟩), (none, .set 3 ⟨TIMER + 1, TIMER_succ_lt⟩), (none, .set 1 2),
    (none, .str 1 3), (none, .set 1 3), (none, .str 1 2)]

theorem timer_periodic_everySecondCycle :
    ∃ start, mainInit 20 (loadedRam everySecondCycle.source) = some start ∧
      (Raised (mainCfg true) start (5 + 5) 4 ↔
        (3 : Word).toNat ≤ 5 ∧ (2 : Word).toNat ∣ 5 - (3 : Word).toNat) := by
  have hwords : ∃ start ∈ mainInit 20 (loadedRam everySecondCycle.source),
      (∃ L ∈ iter (cycle (mainCfg true)) (5 + 1) start, L.st.load TIMER = some 3 ∧
        L.st.load (TIMER + 1) = some 2) ∧
      (iter (cycle (mainCfg true)) 11 start).isSome ∧
      (irqsGiven (mainCfg true) start (5 + 5)).isSome ∧
      ∀ n < 10, 5 < n → ¬ WritesTimer (mainCfg true) start n := by decide +kernel
  obtain ⟨start, hstart, ⟨L, hL, hcount, hperiod⟩, hrun, hirqs, hwrites⟩ := hwords
  obtain ⟨final, hfinal⟩ := Option.isSome_iff_exists.mp hrun
  have hhli : ∀ n, 5 < n → n < 5 + 5 → ¬ RunsHli (mainCfg true) start n := by
    intro n _ hn
    obtain ⟨L', hL'⟩ := iter_prefix hfinal (n + 1) (by omega)
    exact not_runsHli hL'
  exact ⟨start, hstart, timer_periodic rfl rfl (by decide +kernel) hstart hL hcount hperiod
    (by decide) (by decide) (by decide) hhli (fun n hn hlt => hwrites n hlt hn) hirqs⟩

end
end Osh.Advanced
