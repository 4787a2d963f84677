import Mathlib.Data.Finset.Insert
import Osh.Advanced.Assembly
import Osh.Advanced.Interpreter
import Osh.Advanced.Model
import Osh.Advanced.Interrupts

/-!
# Periodic interrupts are transparent

A run of the main loop in which the timer interrupts a program again and again is
compared with the run of the program alone. The routine is shorter than the
period, so it has always returned before the timer fires the next time; and it
writes only registers `X` and memory words `Y` that the program does not use. At
every end of a cycle at which no routine is in progress, the interrupted program is
where it would be, alone, after as many steps as there were cycles left to it.

## Main definitions

* `Phase`, `watchedCycle`: the progress of the routine, counted along the cycles.
* `RoutineOk`, `ProgramOk`: what the routine and the program may read and write.
* `InRoutine`, `Interrupted`: how the two runs are related inside and between cycles.
-/
namespace Osh.Advanced
open PartialRun

/-- How far the run has got. -/
structure Phase where
  /-- Instructions of the running routine still to be executed. -/
  left : ℕ
  /-- Cycles in which no routine was in progress. -/
  steps : ℕ

/-- The phase after a cycle, for a routine of `m` instructions. -/
def Phase.next (m : ℕ) (timerIrq : Bool) (w : Phase) : Phase :=
  if timerIrq then ⟨m - 1, w.steps⟩
  else if 0 < w.left then ⟨w.left - 1, w.steps⟩
  else ⟨0, w.steps + 1⟩

/-- The timer's request in a list of requests. -/
def timerRequest (irqs : List Bool) : Bool := irqs.getD 4 false

section
variable [NumPy]

/-- A cycle of the main loop with peripherals, with the phase counted along. -/
def watchedCycle (m : ℕ) (x : Loop × Phase) : Option (Loop × Phase) := do
  let D ← devices x.1
  let L ← cycle (mainCfg true) x.1
  return (L, x.2.next m (timerRequest D.irqs))

/-- In the next cycle, an instruction of the routine before its last raises no
exception and writes registers in `X` and memory words in `Y` only. -/
def RoutineOk (X Y : Finset ℕ) (m : ℕ) (x : Loop × Phase) : Prop :=
  ∀ D ∈ devices x.1, ∀ p ∈ interruptCheck (mainCfg true) D.irqs D.st,
    0 < (x.2.next m (timerRequest D.irqs)).left →
      (fetchDecodeExecute (mainCfg true) p.2).isSome ∧
      (∀ r ∈ (stepFootprint p.2).regWrites, r ∈ X) ∧ ∀ a ∈ (stepFootprint p.2).memWrites, a ∈ Y

/-- The next step of the program keeps to RAM, uses neither LR nor SCR nor what the
routine writes, and writes neither the timer's vector nor the routine. -/
def ProgramOk (X Y : Finset ℕ) (v m : ℕ) (u : St) : Prop :=
  (∀ r ∈ (stepFootprint u).regReads ++ (stepFootprint u).regWrites, r ≠ LR ∧ r ≠ SCR ∧ r ∉ X) ∧
  (∀ a ∈ (stepFootprint u).memReads ++ (stepFootprint u).memWrites, a < MEMTOP ∧ a ∉ Y) ∧
  ∀ a ∈ (stepFootprint u).memWrites, a ≠ IVT + 4 ∧ ¬ (v ≤ a ∧ a < v + m)

end

/-- What the routine may write leaves PC, LR, SCR, the timer's vector and the routine alone. -/
structure RoutineWrites (X Y : Finset ℕ) (v m : ℕ) : Prop where
  reg : ∀ r ∈ X, r ≠ PC ∧ r ≠ LR ∧ r ≠ SCR
  mem : ∀ a ∈ Y, a < MEMTOP ∧ a ≠ IVT + 4 ∧ ¬ (v ≤ a ∧ a < v + m)

theorem not_mem_insert {S : Set ℕ} {a b : ℕ} (hne : a ≠ b) (ha : a ∉ S) : a ∉ insert b S :=
  fun hmem => hmem.elim hne ha

theorem RoutineWrites.not_mem_PC {X Y : Finset ℕ} {v m : ℕ} (h : RoutineWrites X Y v m) :
    PC ∉ (insert LR ↑X : Set ℕ) :=
  not_mem_insert (by decide) fun hX => (h.reg PC hX).1 rfl

theorem RoutineWrites.not_mem_SCR {X Y : Finset ℕ} {v m : ℕ} (h : RoutineWrites X Y v m) :
    SCR ∉ (insert LR ↑X : Set ℕ) :=
  not_mem_insert (by decide) fun hX => (h.reg SCR hX).2.2 rfl

/-- A routine for the timer is in place: its vector, and its last instruction. -/
structure TimerRoutine (v : Word) (m : ℕ) (s : St) : Prop where
  vector : s.load (IVT + 4) = some v
  last : s.load (v.toNat + (m - 1)) = some bxLR

/-- `s` is in the routine, before instruction `i`, and will return to where `u` is. -/
structure InRoutine (X Y : Finset ℕ) (v : Word) (i : ℕ) (u s : St) : Prop where
  agree : Agree (insert PC (insert LR ↑X)) (↑Y ∪ {a | MEMTOP ≤ a}) s u
  pc : s.reg PC = some (v + .ofNat 64 i)
  lr : s.reg LR = u.reg PC
  scr : s.reg SCR = some 0

/-- `s` is in the program, where `u` is. -/
structure InProgram (X Y : Finset ℕ) (u s : St) : Prop where
  agree : Agree (insert LR ↑X) (↑Y ∪ {a | MEMTOP ≤ a}) s u
  scr : s.reg SCR = some 0

section
variable {X Y : Finset ℕ} {v : Word} {m i : ℕ} {u s s' t : St}

/-- Writes that leave vector and routine alone. -/
theorem TimerRoutine.of_frame {X' Y' : Set ℕ} (h : TimerRoutine v m s) (hm : 0 < m)
    (hframe : Frame X' Y' s t)
    (hY : ∀ a ∈ Y', a ≠ IVT + 4 ∧ ¬ (v.toNat ≤ a ∧ a < v.toNat + m)) : TimerRoutine v m t := by
  constructor
  · rw [← hframe.load _ fun ha => (hY _ ha).1 rfl, h.vector]
  · rw [← hframe.load _ fun ha => (hY _ ha).2 (by omega), h.last]

/-- The device actions of a cycle change neither registers nor RAM. -/
theorem TimerRoutine.of_agree (h : TimerRoutine v m s) (hv : v.toNat + m ≤ MEMTOP) (hm : 0 < m)
    (hagree : Agree ∅ {a | MEMTOP ≤ a} s t) : TimerRoutine v m t := by
  constructor
  · rw [← hagree.load _ (show ¬ MEMTOP ≤ IVT + 4 by decide), h.vector]
  · rw [← hagree.load _ (show ¬ MEMTOP ≤ v.toNat + (m - 1) by omega), h.last]

theorem InProgram.of_agree (h : InProgram X Y u s) (hagree : Agree ∅ {a | MEMTOP ≤ a} s t) :
    InProgram X Y u t := by
  refine ⟨?_, ?_⟩
  · exact (hagree.symm.mono (Set.empty_subset _) Set.subset_union_right).trans h.agree
  · rw [← hagree.reg SCR id, h.scr]

theorem InRoutine.of_agree (h : InRoutine X Y v i u s) (hagree : Agree ∅ {a | MEMTOP ≤ a} s t) :
    InRoutine X Y v i u t := by
  refine ⟨?_, ?_, ?_, ?_⟩
  · exact (hagree.symm.mono (Set.empty_subset _) Set.subset_union_right).trans h.agree
  · rw [← hagree.reg PC id, h.pc]
  · rw [← hagree.reg LR id, h.lr]
  · rw [← hagree.reg SCR id, h.scr]

/-- Entering the routine from the program. -/
theorem InProgram.enter (hw : RoutineWrites X Y v.toNat m) (h : InProgram X Y u s)
    (hentered : Entered v s t) : InRoutine X Y v 0 u t := by
  have hload : ∀ a, t.load a = s.load a := by
    intro a
    rw [St.load, hentered.systemState, St.load]
  refine ⟨⟨?_, ?_⟩, ?_, ?_, hentered.scr⟩
  · intro r hr
    simp only [Set.mem_insert_iff, not_or] at hr
    obtain ⟨hPC, hLR, hX⟩ := hr
    rw [← h.agree.reg r (not_mem_insert hLR hX)]
    by_cases hSCR : r = SCR
    · rw [hSCR, hentered.scr, h.scr]
    · exact hentered.other r hPC hLR hSCR
  · intro a ha
    rw [hload, h.agree.load a ha]
  · rw [hentered.pc, BitVec.add_zero]
  · rw [hentered.lr, h.agree.reg PC hw.not_mem_PC]

variable [NumPy]

/-- An instruction of the routine before its last. -/
theorem InRoutine.body (hw : RoutineWrites X Y v.toNat m) (h : InRoutine X Y v i u s)
    (hin : (stepFootprint s).WritesIn ↑X ↑Y)
    (ht : fetchDecodeExecute (mainCfg true) s = some t) : InRoutine X Y v (i + 1) u t := by
  have hPC : PC ∉ (X : Set ℕ) := fun hX => (hw.reg PC hX).1 rfl
  have hframe : Frame (insert PC ↑X) ↑Y s t := by
    refine fetchDecodeExecute_frame ⟨?_, hin.memWrites⟩ (Set.mem_insert ..) ht
    exact fun r hr => Set.mem_insert_of_mem _ (hin.regWrites r hr)
  have hother : ∀ r, r ≠ PC → r ∉ X → t.reg r = s.reg r := by
    intro r hne hX
    exact (hframe.reg r (not_mem_insert hne hX)).symm
  refine ⟨?_, ?_, ?_, ?_⟩
  · refine (hframe.symm.mono ?_ Set.subset_union_left).trans h.agree
    exact Set.insert_subset_insert (Set.subset_insert ..)
  · rw [fetchDecodeExecute_next hin hPC h.pc ht, BitVec.add_assoc, BitVec.ofNat_add]
    rfl
  · rw [hother LR (by decide) fun hX => (hw.reg LR hX).2.1 rfl, h.lr]
  · rw [hother SCR (by decide) fun hX => (hw.reg SCR hX).2.2 rfl, h.scr]

/-- The last instruction of the routine returns to the program. -/
theorem InRoutine.return (h : InRoutine X Y v (m - 1) u s)
    (hv : v.toNat + m ≤ MEMTOP) (hm : 0 < m) (hroutine : TimerRoutine v m s) :
    ∃ t, fetchDecodeExecute (mainCfg true) s = some t ∧ InProgram X Y u t ∧ Frame {PC} ∅ s t := by
  have haddr : (v + .ofNat 64 (m - 1)).toNat = v.toNat + (m - 1) := by
    have := MEMTOP_eq
    rw [BitVec.toNat_add, BitVec.toNat_ofNat]
    omega
  have hlt : PC < s.registers.size := NdArray.lt_size_of_get? h.pc
  obtain ⟨l, hl⟩ : ∃ l, s.reg LR = some l := NdArray.exists_get? (Nat.lt_trans (by decide) hlt)
  obtain ⟨t, ht, hpc, hframe⟩ := fetchDecodeExecute_bxLR (show (mainCfg true).HL = false from rfl)
    h.pc (haddr ▸ hroutine.last) h.scr hl
  refine ⟨t, ht, ⟨⟨?_, ?_⟩, ?_⟩, hframe⟩
  · intro r hr
    by_cases hPC : r = PC
    · rw [hPC, hpc, ← h.lr, hl]
    · rw [← hframe.reg r hPC, h.agree.reg r (not_mem_insert hPC hr)]
  · intro a ha
    rw [← hframe.load a id, h.agree.load a ha]
  · rw [← hframe.reg SCR (by decide), h.scr]

/-- A step of the program, in both runs. -/
theorem InProgram.step (hw : RoutineWrites X Y v.toNat m) (h : InProgram X Y u s)
    (hok : ProgramOk X Y v.toNat m u) {u' : St} (hu : machineStep initialHlCode u = some u') :
    ∃ t, fetchDecodeExecute (mainCfg true) s = some t ∧ InProgram X Y u' t ∧
      Frame Set.univ {a | a < MEMTOP ∧ a ≠ IVT + 4 ∧ ¬ (v.toNat ≤ a ∧ a < v.toNat + m)} s t := by
  obtain ⟨hregs, hmem, hwrites⟩ := hok
  rw [machineStep_eq] at hu
  have hPC : PC ∉ insert LR (X : Set ℕ) := hw.not_mem_PC
  have hSCR : SCR ∉ insert LR (X : Set ℕ) := hw.not_mem_SCR
  have hreg : ∀ r ∈ (stepFootprint u).regReads ++ (stepFootprint u).regWrites,
      r ∉ insert LR (X : Set ℕ) := by
    intro r hr
    obtain ⟨hLR, -, hX⟩ := hregs r hr
    exact not_mem_insert hLR hX
  have hram : ∀ a ∈ (stepFootprint u).memReads ++ (stepFootprint u).memWrites,
      a ∉ (Y : Set ℕ) ∪ {a | MEMTOP ≤ a} := by
    rintro a ha (hY | htop)
    · exact (hmem a ha).2 hY
    · exact Nat.not_lt.mpr htop (hmem a ha).1
  have havoid : (stepFootprint u).Avoids (insert LR ↑X) (↑Y ∪ {a | MEMTOP ≤ a}) := by
    constructor
    · exact fun r hr => hreg r (List.mem_append_left _ hr)
    · exact fun r hr => hreg r (List.mem_append_right _ hr)
    · exact fun a ha => hram a (List.mem_append_left _ ha)
    · exact fun a ha => hram a (List.mem_append_right _ ha)
  obtain ⟨t, ht, hagree⟩ := fetchDecodeExecute_agree havoid hPC hSCR h.agree.symm u' hu
  refine ⟨t, ht, ⟨hagree.symm, ?_⟩, ?_⟩
  · have hframe : Frame {r | r ≠ SCR} Set.univ u u' := by
      refine fetchDecodeExecute_frame ⟨?_, fun _ _ => trivial⟩ (show PC ≠ SCR by decide) hu
      exact fun r hr => (hregs r (List.mem_append_right _ hr)).2.1
    rw [← hagree.reg SCR hSCR, ← hframe.reg SCR (fun hne => hne rfl), ← h.agree.reg SCR hSCR, h.scr]
  · refine fetchDecodeExecute_frame ⟨fun _ _ => trivial, ?_⟩ trivial ht
    rw [stepFootprint_congr havoid hPC hSCR h.agree.symm]
    intro a ha
    exact ⟨(hmem a (List.mem_append_right _ ha)).1, hwrites a ha⟩

/-! ## Cycles -/

/-- How the run with interrupts stands at the end of a cycle, against the run `u` of
the program alone. The routine has less to go than the timer. -/
structure Interrupted (X Y : Finset ℕ) (v : Word) (m : ℕ) (c p : Word) (u : St)
    (x : Loop × Phase) : Prop where
  quiet : Quiet c p x.1
  view : x.1.timerState = .view
  routine : TimerRoutine v m x.1.st
  left : x.2.left < c.toNat ∧ x.2.left < m
  program : x.2.left = 0 → InProgram X Y u x.1.st
  inside : x.2.left ≠ 0 → InRoutine X Y v (m - x.2.left) u x.1.st

/-- The parts of a watched cycle. -/
theorem watchedCycle_eq {x : Loop × Phase} {D : Loop} {irqs : List Bool}
    (hD : devices x.1 = some D)
    (hcheck : interruptCheck (mainCfg true) D.irqs D.st = some (irqs, s))
    (ht : fetchDecodeExecute (mainCfg true) s = some t) :
    watchedCycle m x = some ({ D with irqs, st := t }, x.2.next m (timerRequest D.irqs)) := by
  have hcycle : cycle (mainCfg true) x.1 = some { D with irqs, st := t } :=
    cycle_eq_some_iff.mpr ⟨D, irqs, t, hD, processorAction_eq_some_iff.mpr ⟨s, hcheck, ht⟩, rfl⟩
  simp only [watchedCycle, hD, hcycle, Option.bind_eq_bind, Option.bind_some]
  rfl

/-- An instruction of the routine, executed in a cycle whose device actions have led to `D`. -/
theorem interrupted_routine (hw : RoutineWrites X Y v.toNat m) (hv : v.toNat + m ≤ MEMTOP)
    {x : Loop × Phase} {D : Loop} {c p : Word} {irqs : List Bool} {k : ℕ}
    (hD : devices x.1 = some D) (hquiet : Quiet c p D) (hview : D.timerState = .view)
    (hcheck : interruptCheck (mainCfg true) D.irqs D.st = some (irqs, s))
    (hframe : Frame {PC, LR, SCR} ∅ D.st s)
    (hnext : x.2.next m (timerRequest D.irqs) = ⟨k, x.2.steps⟩) (hk : k < m) (hkc : k < c.toNat)
    (hroutine : TimerRoutine v m s) (hs : InRoutine X Y v (m - (k + 1)) u s)
    (hok : RoutineOk X Y m x) :
    ∃ y, watchedCycle m x = some y ∧ y.2.steps = x.2.steps ∧ Interrupted X Y v m c p u y := by
  have hm : 0 < m := by omega
  by_cases hzero : k = 0
  · subst hzero
    obtain ⟨t, ht, hprogram, hstep⟩ := hs.return hv hm hroutine
    refine ⟨_, watchedCycle_eq hD hcheck ht, by rw [hnext], ?_⟩
    have hall : Frame Set.univ ∅ D.st t :=
      (hframe.mono (Set.subset_univ _) le_rfl).trans (hstep.mono (Set.subset_univ _) le_rfl)
    rw [hnext]
    constructor
    · exact hquiet.of_frame hview (fun _ ha => absurd ha id) hall irqs
    · exact hview
    · exact hroutine.of_frame hm hstep fun _ ha => absurd ha id
    · exact ⟨hkc, hk⟩
    · exact fun _ => hprogram
    · exact fun hne => absurd rfl hne
  · have hpos : 0 < (x.2.next m (timerRequest D.irqs)).left := by
      rw [hnext]
      exact Nat.pos_of_ne_zero hzero
    obtain ⟨hsome, hX, hY⟩ := hok D hD (irqs, s) hcheck hpos
    obtain ⟨t, ht⟩ := Option.isSome_iff_exists.mp hsome
    refine ⟨_, watchedCycle_eq hD hcheck ht, by rw [hnext], ?_⟩
    have hin : (stepFootprint s).WritesIn ↑X ↑Y := ⟨hX, hY⟩
    have hstep : Frame Set.univ ↑Y s t :=
      fetchDecodeExecute_frame ⟨fun _ _ => trivial, hin.memWrites⟩ trivial ht
    have hall : Frame Set.univ ↑Y D.st t :=
      (hframe.mono (Set.subset_univ _) (Set.empty_subset _)).trans hstep
    rw [hnext]
    constructor
    · exact hquiet.of_frame hview (fun a ha => (hw.mem a ha).1) hall irqs
    · exact hview
    · exact hroutine.of_frame hm hstep fun a ha => (hw.mem a ha).2
    · exact ⟨hkc, hk⟩
    · exact fun h => absurd h hzero
    · intro _
      have hbody := hs.body hw hin ht
      rwa [show m - (k + 1) + 1 = m - k by omega] at hbody

/-- One cycle: the timer enters the routine, the routine takes an instruction, or the
program takes a step. -/
theorem interrupted_step (hw : RoutineWrites X Y v.toNat m) (hv : v.toNat + m ≤ MEMTOP)
    (hm : 0 < m) {x : Loop × Phase} {c p : Word} (hp : m < p.toNat)
    (h : Interrupted X Y v m c p u x) (hok : RoutineOk X Y m x)
    (hprogram : ProgramOk X Y v.toNat m u) {u' : St} (hu : machineStep initialHlCode u = some u') :
    ∃ y c', watchedCycle m x = some y ∧
      (y.2.steps = x.2.steps ∧ Interrupted X Y v m c' p u y ∨
        y.2.steps = x.2.steps + 1 ∧ Interrupted X Y v m c' p u' y) := by
  obtain ⟨D, hD, hquiet, hview, hirqs, hregs, hload⟩ := devices_quiet h.quiet
  have hagree : Agree ∅ {a | MEMTOP ≤ a} x.1.st D.st := by
    constructor
    · intro r _
      rw [St.reg, St.reg, hregs]
    · intro a ha
      rw [hload a (Nat.not_le.mp ha)]
  have hroutine := h.routine.of_agree hv hm hagree
  have hleft := h.left
  by_cases hc : c ≤ 1
  · -- the timer fires; the routine is not running, because it had less to go
    have hzero : x.2.left = 0 := by
      have : c.toNat ≤ 1 := hc
      omega
    rw [tick, if_pos hc] at hquiet
    rw [decide_eq_true hc] at hirqs
    have hP : (mainCfg true).PERIPHERALS = true := rfl
    have hbefore : true ∉ [false, false, false, false] := by decide
    obtain ⟨s, hs⟩ := exists_interruptCheck hP [false] hbefore hquiet.registers (by decide)
      hroutine.vector
    obtain ⟨-, -, v', hv', hentered⟩ := interruptCheck_raised hP hbefore hs
    obtain rfl : v = v' := Option.some.inj (hroutine.vector.symm.trans hv')
    have hcheck : interruptCheck (mainCfg true) D.irqs D.st =
        some ([false, false, false, false, false, false], s) := by
      rw [hirqs]
      exact hs
    have hnext : x.2.next m (timerRequest D.irqs) = ⟨m - 1, x.2.steps⟩ := by
      rw [hirqs]
      rfl
    have hin := ((h.program hzero).of_agree hagree).enter hw hentered
    rw [show 0 = m - (m - 1 + 1) by omega] at hin
    obtain ⟨y, hy, hsteps, hinv⟩ := interrupted_routine hw hv hD hquiet hview hcheck hentered.frame
      hnext (by omega) (by omega) (hroutine.of_frame hm hentered.frame fun _ ha => absurd ha id)
      hin hok
    exact ⟨y, p, hy, .inl ⟨hsteps, hinv⟩⟩
  · rw [tick, if_neg hc] at hquiet
    rw [decide_eq_false hc] at hirqs
    have hcheck : interruptCheck (mainCfg true) D.irqs D.st = some (D.irqs, D.st) :=
      interruptCheck_idle (by rw [hirqs]; decide) D.st
    have htimer : timerRequest D.irqs = false := by rw [hirqs]; rfl
    have hmore : ¬ c.toNat ≤ 1 := hc
    have hcount : (c - 1).toNat = c.toNat - 1 := by bv_omega
    by_cases hzero : x.2.left = 0
    · -- the program takes a step
      obtain ⟨t, ht, hin, hframe⟩ := ((h.program hzero).of_agree hagree).step hw hprogram hu
      have hnext : x.2.next m (timerRequest D.irqs) = ⟨0, x.2.steps + 1⟩ := by
        rw [Phase.next, htimer, hzero]
        rfl
      refine ⟨_, c - 1, watchedCycle_eq hD hcheck ht, .inr ⟨by rw [hnext], ?_⟩⟩
      rw [hnext]
      constructor
      · exact hquiet.of_frame hview (fun a ha => ha.1) hframe D.irqs
      · exact hview
      · exact hroutine.of_frame hm hframe fun a ha => ha.2
      · exact ⟨show 0 < (c - 1).toNat by omega, hm⟩
      · exact fun _ => hin
      · exact fun hne => absurd rfl hne
    · -- the routine takes an instruction
      have hnext : x.2.next m (timerRequest D.irqs) = ⟨x.2.left - 1, x.2.steps⟩ := by
        rw [Phase.next, htimer, if_neg (by decide), if_pos (Nat.pos_of_ne_zero hzero)]
      have hin := (h.inside hzero).of_agree hagree
      rw [show m - x.2.left = m - (x.2.left - 1 + 1) by omega] at hin
      obtain ⟨y, hy, hsteps, hinv⟩ := interrupted_routine hw hv hD hquiet hview hcheck
        (Frame.refl _) hnext (by omega) (by omega) hroutine hin hok
      exact ⟨y, c - 1, hy, .inl ⟨hsteps, hinv⟩⟩

/-- Runs of interrupted cycles, by induction: the program has taken as many steps as
there were cycles without a routine in progress. -/
theorem interrupted_run (hw : RoutineWrites X Y v.toNat m) (hv : v.toNat + m ≤ MEMTOP)
    (hm : 0 < m) {L : Loop} {c p : Word} (hp : m < p.toNat) {n : ℕ}
    (hstart : Interrupted X Y v m c p L.st (L, ⟨0, 0⟩))
    (hroutine : ∀ j < n, ∀ x ∈ iter (watchedCycle m) j (L, ⟨0, 0⟩), RoutineOk X Y m x)
    (hprogram : ∀ k < n, ∀ u ∈ iter (machineStep initialHlCode) k L.st,
      ProgramOk X Y v.toNat m u)
    (hrun : (iter (machineStep initialHlCode) n L.st).isSome) :
    ∀ j ≤ n, ∃ x c' u, iter (watchedCycle m) j (L, ⟨0, 0⟩) = some x ∧ x.2.steps ≤ j ∧
      iter (machineStep initialHlCode) x.2.steps L.st = some u ∧ Interrupted X Y v m c' p u x := by
  obtain ⟨final, hfinal⟩ := Option.isSome_iff_exists.mp hrun
  intro j hj
  induction j with
  | zero => exact ⟨_, c, L.st, rfl, le_rfl, rfl, hstart⟩
  | succ j ih =>
      obtain ⟨x, c', u, hx, hsteps, hu, hinv⟩ := ih (by omega)
      obtain ⟨u', hu'⟩ := iter_prefix hfinal (x.2.steps + 1) (by omega)
      obtain ⟨u₀, hu₀, hstep⟩ := iter_succ_eq_some_iff.mp hu'
      obtain rfl : u = u₀ := Option.some.inj (hu.symm.trans hu₀)
      obtain ⟨y, c'', hy, ⟨hsame, hyinv⟩ | ⟨hmore, hyinv⟩⟩ := interrupted_step hw hv hm hp hinv
        (hroutine j (by omega) x hx) (hprogram _ (by omega) u hu) hstep
      · refine ⟨y, c'', u, iter_succ_eq_some_iff.mpr ⟨x, hx, hy⟩, by omega, ?_, hyinv⟩
        rw [hsame, hu]
      · refine ⟨y, c'', u', iter_succ_eq_some_iff.mpr ⟨x, hx, hy⟩, by omega, ?_, hyinv⟩
        rw [hmore, hu']

/-- **Periodic interrupts are transparent.** From a cycle end of `main` at which SCR is
0, the timer holds count `c ≥ 1` and period `p`, and the DMA control word is 0, the run
with interrupts raises no exception. At every later cycle end at which no routine is in
progress, registers other than LR and RAM, apart from what the routine writes, are
those of the run of the program alone. -/
theorem periodic_interrupts_transparent {N k : ℕ} {ramState : NdArray Word} {start L : Loop}
    (hram : ramState.size = ramStateSz) (hstart : mainInit N ramState = some start)
    (hL : iter (cycle (mainCfg true)) (k + 1) start = some L) (hscr : L.st.reg SCR = some 0)
    {c p : Word} (hcount : L.st.load TIMER = some c) (hperiod : L.st.load (TIMER + 1) = some p)
    (hcontrol : L.st.load (DMA + DCR) = some 0) (hc : 1 ≤ c) (hm : 0 < m) (hp : m < p.toNat)
    (hv : v.toNat + m ≤ MEMTOP) (hplace : TimerRoutine v m L.st) (hw : RoutineWrites X Y v.toNat m)
    {n : ℕ}
    (hroutine : ∀ j < n, ∀ x ∈ iter (watchedCycle m) j (L, ⟨0, 0⟩), RoutineOk X Y m x)
    (hprogram : ∀ k < n, ∀ u ∈ iter (machineStep initialHlCode) k L.st,
      ProgramOk X Y v.toNat m u)
    (hrun : (iter (machineStep initialHlCode) n L.st).isSome) :
    ∀ j ≤ n, ∃ x, iter (watchedCycle m) j (L, ⟨0, 0⟩) = some x ∧
      (x.2.left = 0 → ∃ u, iter (machineStep initialHlCode) x.2.steps L.st = some u ∧
        Agree (insert LR ↑X) (↑Y ∪ {a | MEMTOP ≤ a}) x.1.st u) := by
  obtain ⟨hshape, hview⟩ := shape_cycle_end hram hstart hL
  have hquiet : Quiet c p L := by
    refine ⟨hshape, ?_, ?_, hcontrol⟩
    · rw [timer_of_view hview (by decide), ← hcount, Nat.add_zero]
    · rw [timer_of_view hview (by decide), ← hperiod]
  have hbegin : Interrupted X Y v m c p L.st (L, ⟨0, 0⟩) := by
    constructor
    · exact hquiet
    · exact hview
    · exact hplace
    · exact ⟨show 1 ≤ c.toNat from hc, hm⟩
    · exact fun _ => ⟨Agree.refl _, hscr⟩
    · exact fun hne => absurd rfl hne
  intro j hj
  obtain ⟨x, c', u, hx, -, hu, hinv⟩ :=
    interrupted_run hw hv hm hp hbegin hroutine hprogram hrun j hj
  exact ⟨x, hx, fun hleft => ⟨u, hu, (hinv.program hleft).agree⟩⟩

end

/-! A loop that adds up, interrupted every three cycles by a routine that adds up elsewhere. -/
section
attribute [local instance] exactDivision

instance (X Y : Finset ℕ) (m : ℕ) (x : Loop × Phase) : Decidable (RoutineOk X Y m x) :=
  inferInstanceAs (Decidable (∀ D ∈ devices x.1,
    ∀ p ∈ interruptCheck (mainCfg true) D.irqs D.st,
      0 < (x.2.next m (timerRequest D.irqs)).left →
        (fetchDecodeExecute (mainCfg true) p.2).isSome ∧
        (∀ r ∈ (stepFootprint p.2).regWrites, r ∈ X) ∧
        ∀ a ∈ (stepFootprint p.2).memWrites, a ∈ Y))

instance (X Y : Finset ℕ) (v m : ℕ) (u : St) : Decidable (ProgramOk X Y v m u) :=
  inferInstanceAs (Decidable
    ((∀ r ∈ (stepFootprint u).regReads ++ (stepFootprint u).regWrites,
      r ≠ LR ∧ r ≠ SCR ∧ r ∉ X) ∧
    (∀ a ∈ (stepFootprint u).memReads ++ (stepFootprint u).memWrites, a < MEMTOP ∧ a ∉ Y) ∧
    ∀ a ∈ (stepFootprint u).memWrites, a ≠ IVT + 4 ∧ ¬ (v ≤ a ∧ a < v + m)))

/-- Start the periodic timer, then add register 1 to register 4 forever. -/
def interruptible : Program ℕ :=
  [(none, .set 2 ⟨TIMER, TIMER_lt⟩), (none, .set 3 ⟨TIMER + 1, by decide⟩), (none, .set 1 3),
    (none, .str 1 2), (none, .str 1 3), (some 0, .alu .add 4 4 1), (none, .cbnz 1 0)]

/-- The program, with the routine `ADD R5, R5, R1; BX LR` where the vectors point. -/
def interruptibleRam : NdArray Word :=
  ((loadedRam interruptible.source).update (CODE + 18) 0x1050500).update (CODE + 19) bxLR

theorem periodic_interrupts_transparent_interruptible :
    ∃ start L x u, mainInit 20 interruptibleRam = some start ∧
      iter (cycle (mainCfg true)) 5 start = some L ∧
      iter (watchedCycle 2) 4 (L, ⟨0, 0⟩) = some x ∧
      iter (machineStep initialHlCode) 2 L.st = some u ∧
      Agree (insert LR ↑({5} : Finset ℕ)) (↑(∅ : Finset ℕ) ∪ {a | MEMTOP ≤ a}) x.1.st u := by
  have hinit : (mainInit 20 interruptibleRam).isSome := by decide +kernel
  have hfive : ∀ start ∈ mainInit 20 interruptibleRam,
      (iter (cycle (mainCfg true)) 5 start).isSome := by decide +kernel
  have hwords : ∀ start ∈ mainInit 20 interruptibleRam,
      ∀ L ∈ iter (cycle (mainCfg true)) 5 start, L.st.reg SCR = some 0 ∧
        L.st.load TIMER = some 2 ∧ L.st.load (TIMER + 1) = some 3 ∧
        L.st.load (DMA + DCR) = some 0 ∧ L.st.load (IVT + 4) = some (.ofNat 64 (CODE + 18)) ∧
        L.st.load (CODE + 19) = some bxLR := by decide +kernel
  have hroutine : ∀ start ∈ mainInit 20 interruptibleRam,
      ∀ L ∈ iter (cycle (mainCfg true)) 5 start, ∀ j < 4,
        ∀ x ∈ iter (watchedCycle 2) j (L, ⟨0, 0⟩), RoutineOk {5} ∅ 2 x := by decide +kernel
  have hprogram : ∀ start ∈ mainInit 20 interruptibleRam,
      ∀ L ∈ iter (cycle (mainCfg true)) 5 start, ∀ k < 4,
        ∀ u ∈ iter (machineStep initialHlCode) k L.st, ProgramOk {5} ∅ (CODE + 18) 2 u := by
    decide +kernel
  have hrun : ∀ start ∈ mainInit 20 interruptibleRam,
      ∀ L ∈ iter (cycle (mainCfg true)) 5 start,
        (iter (machineStep initialHlCode) 4 L.st).isSome := by decide +kernel
  have hphase : ∀ start ∈ mainInit 20 interruptibleRam,
      ∀ L ∈ iter (cycle (mainCfg true)) 5 start,
        ∀ x ∈ iter (watchedCycle 2) 4 (L, ⟨0, 0⟩), x.2.left = 0 ∧ x.2.steps = 2 := by
    decide +kernel
  obtain ⟨start, hstart⟩ := Option.isSome_iff_exists.mp hinit
  obtain ⟨L, hL⟩ := Option.isSome_iff_exists.mp (hfive start hstart)
  obtain ⟨hscr, hcount, hperiod, hcontrol, hvector, hlast⟩ := hwords start hstart L hL
  obtain ⟨x, hx, hagree⟩ := periodic_interrupts_transparent (by decide +kernel) hstart hL hscr
    hcount hperiod hcontrol (by decide) (by decide) (by decide) (by decide) ⟨hvector, hlast⟩
    ⟨by decide, by decide⟩ (hroutine start hstart L hL) (hprogram start hstart L hL)
    (hrun start hstart L hL) 4 le_rfl
  obtain ⟨hleft, hsteps⟩ := hphase start hstart L hL x hx
  obtain ⟨u, hu, hu'⟩ := hagree hleft
  exact ⟨start, L, x, u, hstart, hL, hx, hsteps ▸ hu, hu'⟩

end
end Osh.Advanced
