import Osh.Advanced.Assembly
import Osh.Advanced.Model
import Osh.Advanced.Interrupts

/-!
# Programs that do not use the peripherals

Two runs of the main loop are compared cycle by cycle, one without and one with
peripherals. As long as the program keeps to RAM, the timer of the second run counts
down from one more than the number of cycles and never fires, its DMA engine stays
idle, and each rebuilt `systemState` carries RAM over unchanged.

## Main definitions

* `accesses s`: the addresses that the next step fetches, loads or stores at.
* `ram L`: the RAM part of `systemState`.
-/
namespace Osh.Advanced
open PartialRun

/-- The addresses at which the next step of the processor fetches, loads or stores. -/
def accesses (s : St) : List ℕ := (stepFootprint s).memReads ++ (stepFootprint s).memWrites

/-- The RAM part of `systemState`. -/
def ram (L : Loop) : NdArray Word := L.st.systemState.slice 0 MEMTOP

section
variable [NumPy]

/-- Without peripherals a cycle is a step of the processor. -/
theorem cycle_bare {L L' : Loop} (h : cycle (mainCfg false) L = some L') :
    fetchDecodeExecute (mainCfg false) L.st = some L'.st := by
  obtain ⟨D, irqs, t, hD, haction, rfl⟩ := cycle_eq_some_iff.mp h
  cases hD
  obtain ⟨u, hcheck, hexec⟩ := processorAction_eq_some_iff.mp haction
  rw [interruptCheck_idle (by simp)] at hcheck
  cases hcheck
  exact hexec

/-- With peripherals, an idle DMA engine and a count above 1, a cycle is a step of
the processor as well. -/
theorem cycle_quiet {L : Loop} {c p : Word} (h : Quiet c p L) (hc : ¬ c ≤ 1) :
    ∃ D, Quiet (c - 1) p D ∧ D.timerState = .view ∧ D.st.registers = L.st.registers ∧
      (∀ a < MEMTOP, D.st.load a = L.st.load a) ∧
      ∀ t, fetchDecodeExecute (mainCfg true) D.st = some t →
        cycle (mainCfg true) L = some { D with st := t } := by
  obtain ⟨D, hD, hquiet, hview, hirqs, hregs, hload⟩ := devices_quiet h
  rw [tick, if_neg hc] at hquiet
  refine ⟨D, hquiet, hview, hregs, hload, ?_⟩
  intro t ht
  refine cycle_eq_some_iff.mpr ⟨D, D.irqs, t, hD, ?_, rfl⟩
  refine processorAction_eq_some_iff.mpr ⟨D.st, interruptCheck_idle ?_ D.st, ht⟩
  rw [hirqs, decide_eq_false hc]
  decide

/-- One cycle of both runs: the timer has one cycle less to go, and RAM and registers
are the same again. -/
theorem idle_step {L L' M : Loop} {c p : Word} (hM : Quiet c p M) (hc : ¬ c ≤ 1)
    (hagree : Agree ∅ {a | MEMTOP ≤ a} L.st M.st) (hbelow : ∀ a ∈ accesses L.st, a < MEMTOP)
    (h : cycle (mainCfg false) L = some L') :
    ∃ M', cycle (mainCfg true) M = some M' ∧ Quiet (c - 1) p M' ∧
      Agree ∅ {a | MEMTOP ≤ a} L'.st M'.st := by
  obtain ⟨D, hquiet, hview, hregs, hload, hcycle⟩ := cycle_quiet hM hc
  have hD : Agree ∅ {a | MEMTOP ≤ a} L.st D.st := by
    constructor
    · intro r hr
      rw [hagree.reg r hr, St.reg, St.reg, hregs]
    · intro a ha
      rw [hagree.load a ha, hload a (Nat.not_le.mp ha)]
  have havoid : (stepFootprint L.st).Avoids ∅ {a | MEMTOP ≤ a} := by
    refine ⟨fun _ _ => id, fun _ _ => id, ?_, ?_⟩
    · intro a ha
      exact Nat.not_le.mpr (hbelow a (List.mem_append_left _ ha))
    · intro a ha
      exact Nat.not_le.mpr (hbelow a (List.mem_append_right _ ha))
  obtain ⟨t, ht, hagree'⟩ := fetchDecodeExecute_agree havoid id id hD L'.st (cycle_bare h)
  have hframe : Frame Set.univ {a | a < MEMTOP} D.st t := by
    refine fetchDecodeExecute_frame ⟨fun _ _ => trivial, ?_⟩ trivial ht
    rw [stepFootprint_congr havoid id id hD]
    exact fun a ha => hbelow a (List.mem_append_right _ ha)
  exact ⟨_, hcycle t ht, hquiet.of_frame hview (fun _ ha => ha) hframe D.irqs, hagree'⟩

/-- The run with peripherals follows the one without: after `n` of `N` cycles its
timer still has `N + 1 - n` to go. -/
theorem idle_run {N n : ℕ} (hn : n ≤ N) {p : Word} {start L : Loop}
    (hstart : Quiet (.ofNat 64 (N + 1)) p start) (hN : N + 1 < 2 ^ 64)
    (hbelow : ∀ j < N, ∀ L ∈ iter (cycle (mainCfg false)) j start, ∀ a ∈ accesses L.st,
      a < MEMTOP)
    (hL : iter (cycle (mainCfg false)) n start = some L) :
    ∃ M, iter (cycle (mainCfg true)) n start = some M ∧
      Agree ∅ {a | MEMTOP ≤ a} L.st M.st := by
  obtain ⟨M, hM, -, -, -, hagree⟩ := iter_simulation (g := cycle (mainCfg true))
    (fun j L M => ∃ c : Word, c.toNat = N + 1 - j ∧ Quiet c p M ∧
      Agree ∅ {a | MEMTOP ≤ a} L.st M.st)
    ⟨_, by rw [BitVec.toNat_ofNat, Nat.mod_eq_of_lt hN, Nat.sub_zero], hstart, Agree.refl _⟩
    (by
      rintro j L L' M hj hLj ⟨c, hcount, hquiet, hagree⟩ hstep
      have hc : ¬ c ≤ 1 := by bv_omega
      obtain ⟨M', hM', hquiet', hagree'⟩ :=
        idle_step hquiet hc hagree (hbelow j (by omega) L hLj) hstep
      exact ⟨M', hM', c - 1, by bv_omega, hquiet', hagree'⟩)
    hL
  exact ⟨M, hM, hagree⟩

/-- **Peripherals do not disturb a program that does not use them.** When the run
without peripherals raises no exception and touches no address outside RAM, so does
the run with peripherals, and after each cycle RAM and registers are the same. -/
theorem peripherals_do_not_disturb {N : ℕ} {ramState : NdArray Word}
    (hram : ramState.size = ramStateSz) {start final : Loop}
    (hstart : mainInit N ramState = some start)
    (hrun : iter (cycle (mainCfg false)) N start = some final)
    (hbelow : ∀ j < N, ∀ L ∈ iter (cycle (mainCfg false)) j start, ∀ a ∈ accesses L.st,
      a < MEMTOP) :
    ∀ n ≤ N, ∃ L L', iter (cycle (mainCfg false)) n start = some L ∧
      iter (cycle (mainCfg true)) n start = some L' ∧ L.st.registers = L'.st.registers ∧
      ram L = ram L' := by
  have hN : N + 1 < 2 ^ 64 := (mainInit_eq_some_iff.mp hstart).1
  intro n hn
  obtain ⟨L, hL⟩ := iter_prefix hrun n hn
  obtain ⟨L', hL', hagree⟩ := idle_run hn (quiet_mainInit hram hstart) hN hbelow hL
  refine ⟨L, L', hL, hL', ?_, ?_⟩
  · apply NdArray.ext_get?
    intro r
    exact hagree.reg r id
  · apply NdArray.ext_get?
    intro a
    rw [ram, ram, NdArray.get?_slice, NdArray.get?_slice]
    by_cases ha : 0 + a < MEMTOP
    · rw [if_pos ha, if_pos ha]
      exact hagree.load _ (Nat.not_le.mpr ha)
    · rw [if_neg ha, if_neg ha]

end

/-! A program that stores to RAM, loads from it and branches, for six cycles. -/
section
attribute [local instance] exactDivision

def ramOnly : Program ℕ :=
  [(some 0, .set 1 300), (none, .str 1 1), (none, .ldr 2 300), (none, .push 2 0 0),
    (none, .cbnz 1 0)]

theorem peripherals_do_not_disturb_ramOnly :
    ∃ start L L', mainInit 6 (loadedRam ramOnly.source) = some start ∧
      iter (cycle (mainCfg false)) 6 start = some L ∧
      iter (cycle (mainCfg true)) 6 start = some L' ∧ L.st.registers = L'.st.registers ∧
      ram L = ram L' := by
  have hinit : (mainInit 6 (loadedRam ramOnly.source)).isSome := by decide +kernel
  have hsome : ∀ start ∈ mainInit 6 (loadedRam ramOnly.source),
      (iter (cycle (mainCfg false)) 6 start).isSome := by decide +kernel
  have hbelow : ∀ start ∈ mainInit 6 (loadedRam ramOnly.source), ∀ j < 6,
      ∀ L ∈ iter (cycle (mainCfg false)) j start, ∀ a ∈ accesses L.st, a < MEMTOP := by
    decide +kernel
  obtain ⟨start, hstart⟩ := Option.isSome_iff_exists.mp hinit
  obtain ⟨final, hfinal⟩ := Option.isSome_iff_exists.mp (hsome start hstart)
  obtain ⟨L, L', hL, hL', hsame⟩ := peripherals_do_not_disturb (by decide +kernel) hstart hfinal
    (hbelow start hstart) 6 le_rfl
  exact ⟨start, L, L', hstart, hL, hL', hsame⟩

end
end Osh.Advanced
