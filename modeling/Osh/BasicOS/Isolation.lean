import Osh.BasicOS.TimeSlice

/-!
# Tasks taking turns

Two tasks run in turns, with a call of `time_slice` between them. A task finds R1 to R15
as it left them, since its control block is not touched while it is switched out. R0 was
never saved: it comes from the word above the pushed ones, which no one writes.

## Main definitions

* `TaskActivity`: what the running task may change.
* `Alternation`: calls of `time_slice` with activities of the tasks in between.
* `Isolated`: a task that is switched in again has all its registers back.
-/
namespace Osh.BasicOS
open Osh.Advanced

/-- PID word, control blocks and stack window. -/
def areas (k : TaskTable) (m : Word) : Set ℕ :=
  insert k.PID (words k.TCB_OFFSET (2 * k.TCB_SZ) ∪ words m.toNat (NREGS_CONTEXT + 1))

/-- The running task changes R0 to R15, and memory outside the areas. -/
def TaskActivity (k : TaskTable) (m : Word) (s t : St) : Prop :=
  Frame {r | r < NREGS_CONTEXT} {a | a ∉ areas k m} s t

/-- A run of `n` calls of `time_slice`, each from the state that the task left. -/
structure Alternation (k : TaskTable) (m : Word) (n : ℕ) (before after : ℕ → St) : Prop where
  layout : Layout k m (before 0)
  call : ∀ i < n, timeSlice k (before i) = some (after i)
  task : ∀ i, i + 1 < n → TaskActivity k m (after i) (before (i + 1))

/-- A task that call `j` switches in has the registers with which call `i` switched it out,
if that was the last time. -/
def Isolated (k : TaskTable) (n : ℕ) (before after : ℕ → St) : Prop :=
  ∀ i j, i < j → j < n → (before i).load k.PID = (after j).load k.PID →
    (∀ l, i < l → l < j → (before l).load k.PID ≠ (after j).load k.PID) →
    ∀ r < NREGS_CONTEXT, (after j).reg r = (before i).reg r

section
variable {k : TaskTable} {m : Word} {n i : ℕ} {s t : St} {before after : ℕ → St}

/-- A task leaves the areas alone. -/
theorem TaskActivity.load (h : TaskActivity k m s t) {a : ℕ} (ha : a ∈ areas k m) :
    t.load a = s.load a := by
  have hframe : Frame {r | r < NREGS_CONTEXT} {a | a ∉ areas k m} s t := h
  exact (hframe.load a fun hno => hno ha).symm

/-- The layout depends on the stack pointer, the PID word and the size of memory. -/
theorem Layout.congr (h : Layout k m s) (hmsp : t.reg MSP = s.reg MSP)
    (hpid : t.load k.PID = some 0 ∨ t.load k.PID = some 1)
    (hsize : t.systemState.size = s.systemState.size) : Layout k m t := by
  constructor
  · rw [hmsp, h.msp]
  · exact hpid
  · exact h.TCB_SZ
  · rw [hsize]
    exact h.memory
  · rw [hsize]
    exact h.blocks
  · rw [hsize]
    exact h.window
  · exact h.pid_blocks
  · exact h.pid_window
  · exact h.blocks_window

/-- What a call and the task after it leave in place. -/
theorem Layout.next (h : Layout k m s) (hcall : timeSlice k s = some t) {u : St}
    (htask : TaskActivity k m t u) : Layout k m u := by
  obtain ⟨pid1, hpid, h01⟩ := h.exists_pid
  obtain ⟨t', ht', hswitch⟩ := timeSlice_spec h hpid
  obtain rfl : t = t' := Option.some.inj (hcall.symm.trans ht')
  have hMSP : MSP ∉ {r | r < NREGS_CONTEXT} := by decide
  have hframe : Frame {r | r < NREGS_CONTEXT} {a | a ∉ areas k m} t u := htask
  refine h.congr ?_ ?_ ?_
  · rw [← hframe.reg MSP hMSP, ← hswitch.frame.reg MSP hMSP]
  · rw [htask.load (Set.mem_insert ..), hswitch.incoming]
    rcases h01 with rfl | rfl
    · exact .inr rfl
    · exact .inl rfl
  · rw [hframe.size_systemState, hswitch.frame.size_systemState]

namespace Alternation

/-- The areas stay where they are. -/
theorem layout_at (h : Alternation k m n before after) (hi : i < n) : Layout k m (before i) := by
  induction i with
  | zero => exact h.layout
  | succ i ih => exact (ih (by omega)).next (h.call i (by omega)) (h.task i hi)

/-- Every call switches to the other task. -/
theorem switches (h : Alternation k m n before after) (hi : i < n) :
    ∃ pid1, Switches k m pid1 (1 - pid1) (before i) (after i) := by
  have hlayout := h.layout_at hi
  obtain ⟨pid1, hpid, -⟩ := hlayout.exists_pid
  obtain ⟨t, ht, hswitch⟩ := timeSlice_spec hlayout hpid
  obtain rfl : t = after i := Option.some.inj (ht.symm.trans (h.call i hi))
  exact ⟨pid1, hswitch⟩

/-- Of two calls in a row, the second one switches back. -/
theorem switches_back (h : Alternation k m n before after) (hi : i + 1 < n) :
    ∃ pid1 pid2, Switches k m pid1 pid2 (before i) (after i) ∧
      Switches k m pid2 pid1 (before (i + 1)) (after (i + 1)) := by
  obtain ⟨pid1, hswitch⟩ := h.switches (show i < n by omega)
  obtain ⟨pid2, hback⟩ := h.switches hi
  have hpid : (before (i + 1)).load k.PID = (after i).load k.PID :=
    (h.task i hi).load (Set.mem_insert ..)
  rw [hback.outgoing, hswitch.incoming] at hpid
  obtain rfl := Option.some.inj hpid
  have hone : 1 - (1 - pid1) = pid1 := by bv_omega
  rw [hone] at hback
  exact ⟨pid1, 1 - pid1, hswitch, hback⟩

/-- **What a task gets back**: R1 to R15, and for R0 the word above the pushed ones. -/
theorem registers_back (h : Alternation k m n before after) (hi : i + 1 < n) :
    (∀ r, 1 ≤ r → r < NREGS_CONTEXT → (after (i + 1)).reg r = (before i).reg r) ∧
      (after (i + 1)).reg 0 = (before i).load (m.toNat + NREGS_CONTEXT) := by
  have hCONTEXT : NREGS_CONTEXT = 16 := rfl
  obtain ⟨pid1, pid2, hswitch, hback⟩ := h.switches_back hi
  have hlayout := h.layout_at (show i < n by omega)
  have h01 := hlayout.pid_eq hswitch.outgoing
  obtain ⟨-, htcb⟩ := tcb_eq (k := k) h01
  have hSZ := hlayout.TCB_SZ
  have hpw := hlayout.pid_window
  have hbw := hlayout.blocks_window
  refine ⟨?_, ?_⟩
  · intro r hr hlt
    have harea : k.tcb pid1 + (NREGS_CONTEXT - r) ∈ areas k m := by
      refine .inr (.inl ?_)
      simp only [mem_words]
      omega
    rw [hback.restored r hr hlt, (h.task i hi).load harea, hswitch.saved _ (by omega) (by omega),
      Nat.sub_sub_self (Nat.le_of_lt hlt)]
  · have harea : m.toNat + NREGS_CONTEXT ∈ areas k m := by
      refine .inr (.inr ?_)
      simp only [mem_words]
      omega
    rw [hback.restored_zero, (h.task i hi).load harea]
    refine (hswitch.frame.load _ ?_).symm
    rintro (hPID | hblock | hwindow)
    · omega
    · simp only [mem_words] at hblock
      omega
    · simp only [mem_words] at hwindow
      omega

/-- A task that is switched in again was switched out by the call before. -/
theorem eq_succ (h : Alternation k m n before after) {j : ℕ} (hij : i < j) (hj : j < n)
    (hlast : ∀ l, i < l → l < j → (before l).load k.PID ≠ (after j).load k.PID) : j = i + 1 := by
  by_contra hne
  obtain ⟨l, rfl⟩ : ∃ l, j = l + 1 := ⟨j - 1, by omega⟩
  obtain ⟨pid1, pid2, hswitch, hback⟩ := h.switches_back hj
  exact hlast l (by omega) (by omega) (hswitch.outgoing.trans hback.incoming.symm)

end Alternation

/-- **Context switching isolates tasks** exactly when, at every call but the last, R0 is the
word above the pushed registers. -/
theorem isolated_iff (h : Alternation k m n before after) : Isolated k n before after ↔
    ∀ i, i + 1 < n → (before i).reg 0 = (before i).load (m.toNat + NREGS_CONTEXT) := by
  constructor
  · intro hisolated i hi
    obtain ⟨pid1, pid2, hswitch, hback⟩ := h.switches_back hi
    have hzero := hisolated i (i + 1) (Nat.lt_succ_self i) hi
      (hswitch.outgoing.trans hback.incoming.symm) (fun l hl hl' => by omega) 0 (by decide)
    rw [← hzero, (h.registers_back hi).2]
  · intro hword i j hij hj hpid hlast r hr
    obtain rfl := h.eq_succ hij hj hlast
    obtain ⟨hregs, hzero⟩ := h.registers_back hj
    rcases Nat.eq_zero_or_pos r with rfl | hpos
    · rw [hzero, hword i hj]
    · exact hregs r hpos hr

end

/-! Two calls in a row. -/
section

theorem exists_alternation : ∃ before after, Alternation smallTable 40 2 before after ∧
    before 0 = fiveInR0 := by
  obtain ⟨pid1, hpid, -⟩ := layout_fiveInR0.exists_pid
  obtain ⟨t, ht, -⟩ := timeSlice_spec layout_fiveInR0 hpid
  have hlayout : Layout smallTable 40 t := layout_fiveInR0.next ht (Frame.refl t)
  obtain ⟨pid2, hpid2, -⟩ := hlayout.exists_pid
  obtain ⟨u, hu, -⟩ := timeSlice_spec hlayout hpid2
  refine ⟨fun i => if i = 0 then fiveInR0 else t, fun i => if i = 0 then t else u, ?_, rfl⟩
  constructor
  · exact layout_fiveInR0
  · intro i hi
    obtain rfl | rfl : i = 0 ∨ i = 1 := by omega
    · exact ht
    · exact hu
  · intro i hi
    obtain rfl : i = 0 := by omega
    exact Frame.refl t

theorem isolated_iff_fiveInR0 : ∃ before after, before 0 = fiveInR0 ∧
    (Isolated smallTable 2 before after ↔ ∀ i, i + 1 < 2 →
      (before i).reg 0 = (before i).load ((40 : Word).toNat + NREGS_CONTEXT)) := by
  obtain ⟨before, after, h, hstart⟩ := exists_alternation
  exact ⟨before, after, hstart, isolated_iff h⟩

/-- The task that is switched in again has lost the 5. -/
theorem r0_not_restored :
    ¬ ∀ (k : TaskTable) (m : Word) (n : ℕ) (before after : ℕ → St),
      Alternation k m n before after → Isolated k n before after := by
  intro hclaim
  obtain ⟨before, after, h, hstart⟩ := exists_alternation
  have hisolated := hclaim smallTable 40 2 before after h
  obtain ⟨pid1, pid2, hswitch, hback⟩ := h.switches_back (i := 0) (by decide)
  have hzero := hisolated 0 1 (by decide) (by decide)
    (hswitch.outgoing.trans hback.incoming.symm) (fun l hl hl' => by omega) 0 (by decide)
  rw [(h.registers_back (i := 0) (by decide)).2, hstart] at hzero
  exact absurd hzero (by decide +kernel)

end
end Osh.BasicOS
