import Osh.Cpp.Agreement
import Osh.Lib.PartialRun

/-!
# Runs of the two processors

A run of the Python processor that keeps to the first 16 registers is a run of the C++
processor, cycle by cycle, up to the first logical operator whose operands make a difference.

## Main definitions

* `Comparable s`: what the Python processor is about to do has a counterpart in C++.
* `BitwiseOk s`: it is no logical operator, or one that does the same.

## Main results

* `step_agrees_iff`: one step.
* `runs_agree_iff`: the runs agree as long as no logical operator makes a difference.
-/
namespace Osh.Cpp
open Advanced (St Word NumPy Frame)
open PartialRun

/-- A word is about to be executed that uses no other registers than the C++ processor has. -/
structure Comparable (s : St) : Prop where
  word : ∀ pc w, s.reg PC = some pc → s.load pc.toNat = some w → w.toNat ≠ Advanced.HLI
  reads : ∀ r ∈ (Advanced.executedFootprint s).regReads, r < NREGS
  writes : ∀ r ∈ (Advanced.executedFootprint s).regWrites, r < NREGS
  range : ∀ instr x y, Operands s instr x y → InRange instr x y

/-- No operator is about to be applied for which the processors differ. -/
def BitwiseOk (s : St) : Prop := ∀ instr x y, Operands s instr x y → LogicalIsBitwise instr x y

section
variable [NumPy] {hlCode : List Advanced.HlEntry} {s t : St} {n : ℕ}

/-! ## One step -/

/-- **One step.** Both processors go to the same state if no logical operator differs. -/
theorem step_agrees_iff (hdiv : TruncatedDivision) (hscr : s.reg Advanced.SCR = some 0)
    (hcomp : Comparable s) (hstep : Advanced.machineStep hlCode s = some t) :
    processorAction (toCpp s) = some (toCpp t) ↔ BitwiseOk s :=
  machineStep_agrees_iff hdiv hscr hcomp.word hcomp.reads hcomp.writes hcomp.range hstep

/-- The Python processor stays awake. -/
theorem reg_scr_of_machineStep (hscr : s.reg Advanced.SCR = some 0) (hcomp : Comparable s)
    (hstep : Advanced.machineStep hlCode s = some t) : t.reg Advanced.SCR = some 0 := by
  obtain ⟨pc, w, u, hpc, hw, hu, hexec⟩ :=
    Advanced.exists_word_of_machineStep hscr hcomp.word hstep
  have huscr : u.reg Advanced.SCR = some 0 := by
    rw [St.reg_of_setReg hu, if_neg (by decide), hscr]
  have hwrites := Advanced.executedFootprint_eq hpc hw hu huscr ▸ hcomp.writes
  have hframe : Frame {r | r < NREGS} Set.univ u t :=
    Advanced.executeInstruction_frame ⟨hwrites, fun _ _ => trivial⟩ hexec
  rw [← hframe.reg Advanced.SCR (by decide), huscr]

/-! ## A run -/

/-- **The runs agree** in every cycle if and only if no logical operator that makes a
difference is applied in any of them. -/
theorem runs_agree_iff (hdiv : TruncatedDivision) (hscr : s.reg Advanced.SCR = some 0)
    (hcomp : ∀ k < n, ∀ u ∈ iter (Advanced.machineStep hlCode) k s, Comparable u)
    (hrun : iter (Advanced.machineStep hlCode) n s = some t) :
    (∀ k ≤ n, iter processorAction k (toCpp s) =
        (iter (Advanced.machineStep hlCode) k s).map toCpp) ↔
      ∀ k < n, ∀ u ∈ iter (Advanced.machineStep hlCode) k s, BitwiseOk u := by
  have hawake : ∀ k ≤ n, ∀ u ∈ iter (Advanced.machineStep hlCode) k s,
      u.reg Advanced.SCR = some 0 := by
    intro k
    induction k with
    | zero =>
        rintro - u hu
        rwa [← Option.some.inj hu]
    | succ k ih =>
        intro hk u hu
        obtain ⟨v, hv, hstep⟩ := iter_succ_eq_some_iff.mp hu
        exact reg_scr_of_machineStep (ih (by omega) v hv) (hcomp k hk v hv) hstep
  constructor
  · intro h k hk u hu
    obtain ⟨v, hv⟩ := iter_prefix hrun (k + 1) hk
    obtain ⟨u', hu', hstep⟩ := iter_succ_eq_some_iff.mp hv
    obtain rfl : u' = u := Option.some.inj (hu'.symm.trans hu)
    have hnext := h (k + 1) hk
    rw [iter_succ, h k hk.le, hu', hv, Option.map_some, Option.bind_some, Option.map_some] at hnext
    exact (step_agrees_iff hdiv (hawake k hk.le u' hu') (hcomp k hk u' hu') hstep).mp hnext
  · intro h k
    induction k with
    | zero => exact fun _ => rfl
    | succ k ih =>
        intro hk
        obtain ⟨v, hv⟩ := iter_prefix hrun (k + 1) hk
        obtain ⟨u, hu, hstep⟩ := iter_succ_eq_some_iff.mp hv
        have hnext := (step_agrees_iff hdiv (hawake k (by omega) u hu) (hcomp k hk u hu)
          hstep).mpr (h k hk u hu)
        rw [iter_succ, ih (by omega), hu, hv, Option.map_some, Option.bind_some, hnext,
          Option.map_some]

end

/-! A run of one cycle, with operands for which `AND` makes no difference. -/
section
attribute [local instance] Advanced.exactDivision

theorem comparable_andStart : Comparable (andStart 6 0) where
  word := by
    intro pc w hpc hw
    obtain rfl : .ofNat 64 Advanced.CODE = pc := Option.some.inj ((pc_andStart 6 0).symm.trans hpc)
    obtain rfl : 0x02010304 = w := Option.some.inj ((word_andStart 6 0).symm.trans hw)
    decide
  reads := by decide +kernel
  writes := by decide +kernel
  range := by
    intro instr x y h
    obtain ⟨rfl, -, -⟩ := operands_andStart h
    exact ⟨fun h => absurd h (by decide), fun h => absurd h (by decide)⟩

theorem runs_agree_iff_zero : ∃ t, iter (Advanced.machineStep []) 1 (andStart 6 0) = some t ∧
    ∀ k ≤ 1, iter processorAction k (toCpp (andStart 6 0)) =
      (iter (Advanced.machineStep []) k (andStart 6 0)).map toCpp := by
  obtain ⟨t, ht⟩ := Option.isSome_iff_exists.mp
    (show (iter (Advanced.machineStep []) 1 (andStart 6 0)).isSome by decide +kernel)
  have hstart : ∀ k < 1, ∀ u ∈ iter (Advanced.machineStep []) k (andStart 6 0),
      u = andStart 6 0 := by
    intro k hk u hu
    obtain rfl : k = 0 := by omega
    exact (Option.some.inj hu).symm
  refine ⟨t, ht, (runs_agree_iff (fun _ _ _ _ _ => rfl) rfl ?_ ht).mpr ?_⟩
  · intro k hk u hu
    rw [hstart k hk u hu]
    exact comparable_andStart
  · intro k hk u hu
    rw [hstart k hk u hu]
    intro instr x y h
    obtain ⟨rfl, rfl, rfl⟩ := operands_andStart h
    exact ⟨fun _ => .inr (.inl rfl), by decide, by decide⟩

end
end Osh.Cpp
