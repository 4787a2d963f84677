import Osh.Advanced.StackPointer

/-!
# A context switch

`time_slice` passes the sixteen registers of the outgoing task over the stack into its
control block, and those of the incoming task over the stack out of its own. A push
stores and then advances the stack pointer; a pop reads without stepping back first, so
that each pop loop starts one word above the last one pushed and never reads the first.

## Main definitions

* `TaskTable`: the three constants that the repository leaves open.
* `timeSlice`: the function, on the registers and memory of the system model.
* `Layout`: where the PID word, the control blocks and the stack window are.
* `Switches`: what a call does.
-/
namespace Osh.BasicOS
open Osh.Advanced PartialRun

def NREGS_CONTEXT : ℕ := 16

/-- The address of the PID word, and address and size of the control blocks. -/
structure TaskTable where
  PID : ℕ
  TCB_OFFSET : ℕ
  TCB_SZ : ℕ

/-- `systemState[registers[MSP]] = v` and `registers[MSP] += 1` -/
def push (v : Word) (s : St) : Option St := do
  let s ← s.store (← s.reg MSP).toNat v
  s.setReg MSP ((← s.reg MSP) + 1)

def pushRegister (s : St) (r : ℕ) : Option St := do push (← s.reg r) s

def popToTcb (tcb1 : Word) (s : St) (r : ℕ) : Option St := do
  let r0 ← s.load (← s.reg MSP).toNat
  let s ← s.store (tcb1 + .ofNat 64 r).toNat r0
  s.setReg MSP ((← s.reg MSP) - 1)

def pushFromTcb (tcb2 : Word) (s : St) (r : ℕ) : Option St := do
  push (← s.load (tcb2 + .ofNat 64 r).toNat) s

def popRegister (s : St) (r : ℕ) : Option St := do
  let s ← s.setReg r (← s.load (← s.reg MSP).toNat)
  s.setReg MSP ((← s.reg MSP) - 1)

def timeSlice (k : TaskTable) (s : St) : Option St := do
  let s ← exec pushRegister (List.range NREGS_CONTEXT) s
  let pid1 ← s.load k.PID
  let pid2 := 1 - pid1
  let s ← s.store k.PID pid2
  let tcb1 : Word := .ofNat 64 k.TCB_OFFSET + pid1 * .ofNat 64 k.TCB_SZ
  let tcb2 : Word := .ofNat 64 k.TCB_OFFSET + pid2 * .ofNat 64 k.TCB_SZ
  let s ← exec (popToTcb tcb1) (List.range NREGS_CONTEXT) s
  let s ← exec (pushFromTcb tcb2) (List.range NREGS_CONTEXT) s
  exec popRegister (List.range NREGS_CONTEXT) s

/-! ## The loops -/

section
variable {s : St} {m v tcb : Word} {n : ℕ}

/-- The `n` words from `base` on. -/
def words (base n : ℕ) : Set ℕ := {a | base ≤ a ∧ a < base + n}

@[simp] theorem mem_words {base n a : ℕ} : a ∈ words base n ↔ base ≤ a ∧ a < base + n := Iff.rfl

theorem words_mono {base n n' : ℕ} (h : n ≤ n') : words base n ⊆ words base n' :=
  fun _ ha => ⟨ha.1, Nat.lt_of_lt_of_le ha.2 (Nat.add_le_add_left h base)⟩

/-- A push loop stores its values at the stack pointer and above. -/
theorem exec_push (value : St → ℕ → Option Word) (hm : s.reg MSP = some m)
    (hsize : m.toNat + n ≤ s.systemState.size) (hword : s.systemState.size ≤ 2 ^ 64)
    (hsome : ∀ i < n, ∃ v, value s i = some v)
    (hvalue : ∀ t, Frame {MSP} (words m.toNat n) s t → ∀ i < n, value t i = value s i) :
    ∃ t, exec (fun s r => do push (← value s r) s) (List.range n) s = some t ∧
      t.reg MSP = some (m + .ofNat 64 n) ∧ Frame {MSP} (words m.toNat n) s t ∧
      ∀ i < n, t.load (m.toNat + i) = value s i := by
  obtain ⟨t, ht, htm, hframe, hload⟩ := exec_pushAt value (List.range n) hm
    (by rwa [List.length_range]) hword (fun i hi => hsome i (List.mem_range.mp hi))
    fun t hframe i hi => hvalue t (by rwa [List.length_range] at hframe) i (List.mem_range.mp hi)
  rw [List.length_range] at htm hframe
  exact ⟨t, ht, htm, hframe, fun i hi => hload i i (by rw [List.getElem?_range hi])⟩

/-- A pop loop into a control block reads at the stack pointer and below. -/
theorem exec_popToTcb (tcb : Word) (hm : s.reg MSP = some m) (hn : n ≤ m.toNat)
    (htop : m.toNat < s.systemState.size) (htcb : tcb.toNat + n ≤ s.systemState.size)
    (hword : s.systemState.size ≤ 2 ^ 64)
    (hdisj : ∀ i ≤ n, m.toNat - i ∉ words tcb.toNat n) :
    ∃ t, exec (popToTcb tcb) (List.range n) s = some t ∧
      t.reg MSP = some (m - .ofNat 64 n) ∧ Frame {MSP} (words tcb.toNat n) s t ∧
      ∀ i < n, t.load (tcb.toNat + i) = s.load (m.toNat - i) := by
  induction n with
  | zero => exact ⟨s, rfl, by rw [BitVec.sub_zero, hm], Frame.refl s, by omega⟩
  | succ n ih =>
      have hmono : words tcb.toNat n ⊆ words tcb.toNat (n + 1) := words_mono (Nat.le_succ n)
      obtain ⟨t, ht, htm, hframe, hload⟩ := ih (by omega) (by omega)
        fun i hi hmem => hdisj i (by omega) (hmono hmem)
      have hframe' : Frame {MSP} (words tcb.toNat (n + 1)) s t := hframe.mono le_rfl hmono
      have hptr : (m - .ofNat 64 n).toNat = m.toNat - n := toNat_sub_ofNat (by omega)
      have hslot : (tcb + .ofNat 64 n).toNat = tcb.toNat + n := by
        rw [BitVec.toNat_add, BitVec.toNat_ofNat]
        omega
      obtain ⟨v, hv⟩ := NdArray.exists_get? (a := s.systemState) (i := m.toNat - n) (by omega)
      have htv : t.load (m.toNat - n) = some v := by
        rw [← hframe'.load _ (hdisj n (Nat.le_succ n))]
        exact hv
      obtain ⟨u, hu⟩ : ∃ u, t.store (tcb.toNat + n) v = some u :=
        ⟨_, St.store_eq_some_iff.mpr ⟨by rw [hframe.size_systemState]; omega, rfl⟩⟩
      have hum := (St.reg_of_store hu MSP).trans htm
      obtain ⟨w, hw⟩ := St.exists_setReg hum (m - .ofNat 64 n - 1)
      have huw : Frame {MSP} {tcb.toNat + n} t w :=
        (Frame.of_store hu (Set.mem_singleton _)).trans (Frame.of_setReg hw (Set.mem_singleton _))
      refine ⟨w, ?_, ?_, ?_, ?_⟩
      · rw [exec_range_succ, ht]
        simp only [popToTcb, htm, hptr, hslot, htv, hu, hum, hw, Option.bind_eq_bind,
          Option.bind_some]
      · rw [St.reg_of_setReg hw, if_pos rfl, sub_ofNat_succ]
      · refine hframe'.trans (huw.mono le_rfl ?_)
        rintro a rfl
        exact ⟨Nat.le_add_right .., by omega⟩
      · intro i hi
        rcases Nat.lt_succ_iff_lt_or_eq.mp hi with hlt | rfl
        · rw [← huw.load _ (by simp only [Set.mem_singleton_iff]; omega), hload i hlt]
        · rw [St.load_of_setReg hw, St.load_of_store hu, if_pos rfl]
          exact hv.symm

/-- A pop loop into registers. -/
theorem exec_popRegister (hm : s.reg MSP = some m) (hn : n ≤ m.toNat)
    (htop : m.toNat < s.systemState.size) (hMSP : n ≤ MSP) :
    ∃ t, exec popRegister (List.range n) s = some t ∧
      t.reg MSP = some (m - .ofNat 64 n) ∧ Frame (insert MSP {r | r < n}) ∅ s t ∧
      ∀ i < n, t.reg i = s.load (m.toNat - i) := by
  have hsize : MSP < s.registers.size := NdArray.lt_size_of_get? hm
  obtain ⟨t, ht, htm, hframe, hreg⟩ := exec_popAt (List.range n) hm
    (by rw [List.length_range]; omega) htop
    (fun r hr => by have := List.mem_range.mp hr; omega)
  rw [List.length_range] at htm
  have hmem : {r | r ∈ List.range n} ⊆ {r | r < n} := fun r hr => List.mem_range.mp hr
  refine ⟨t, ht, htm, hframe.mono (Set.insert_subset_insert hmem) le_rfl, ?_⟩
  intro i hi
  refine hreg i i (by rw [List.getElem?_range hi]) fun j hij hj => ?_
  have hlt : j < n := by simpa using (List.getElem?_eq_some_iff.mp hj).1
  rw [List.getElem?_range hlt, Option.some.injEq] at hj
  omega

end
/-! ## A call -/

/-- The address of a task's control block. -/
def TaskTable.tcb (k : TaskTable) (pid : Word) : ℕ := k.TCB_OFFSET + pid.toNat * k.TCB_SZ

/-- PID word, control blocks and the stack window from `m` to `m + 16` are in memory and
disjoint, and the PID word holds 0 or 1. -/
structure Layout (k : TaskTable) (m : Word) (s : St) : Prop where
  msp : s.reg MSP = some m
  pid : s.load k.PID = some 0 ∨ s.load k.PID = some 1
  TCB_SZ : NREGS_CONTEXT ≤ k.TCB_SZ
  memory : s.systemState.size ≤ 2 ^ 64
  blocks : k.TCB_OFFSET + 2 * k.TCB_SZ ≤ s.systemState.size
  window : m.toNat + NREGS_CONTEXT < s.systemState.size
  pid_blocks : k.PID < k.TCB_OFFSET ∨ k.TCB_OFFSET + 2 * k.TCB_SZ ≤ k.PID
  pid_window : k.PID < m.toNat ∨ m.toNat + NREGS_CONTEXT < k.PID
  blocks_window : k.TCB_OFFSET + 2 * k.TCB_SZ ≤ m.toNat ∨ m.toNat + NREGS_CONTEXT < k.TCB_OFFSET

/-- What a call does that switches from task `pid1` to task `pid2`. The slots of a control
block are in reverse order, and slot 0 and R0 get the word above the pushed ones. -/
structure Switches (k : TaskTable) (m pid1 pid2 : Word) (s t : St) : Prop where
  outgoing : s.load k.PID = some pid1
  incoming : t.load k.PID = some pid2
  saved : ∀ r, 1 ≤ r → r < NREGS_CONTEXT →
    t.load (k.tcb pid1 + r) = s.reg (NREGS_CONTEXT - r)
  saved_zero : t.load (k.tcb pid1) = s.load (m.toNat + NREGS_CONTEXT)
  restored : ∀ r, 1 ≤ r → r < NREGS_CONTEXT →
    t.reg r = s.load (k.tcb pid2 + (NREGS_CONTEXT - r))
  restored_zero : t.reg 0 = s.load (m.toNat + NREGS_CONTEXT)
  frame : Frame {r | r < NREGS_CONTEXT}
    (insert k.PID (words (k.tcb pid1) NREGS_CONTEXT ∪ words m.toNat NREGS_CONTEXT)) s t

section
variable {k : TaskTable} {m pid1 : Word} {s : St}

theorem Layout.exists_pid (h : Layout k m s) :
    ∃ pid1, s.load k.PID = some pid1 ∧ (pid1 = 0 ∨ pid1 = 1) := by
  rcases h.pid with h0 | h1
  · exact ⟨0, h0, .inl rfl⟩
  · exact ⟨1, h1, .inr rfl⟩

theorem Layout.pid_eq (h : Layout k m s) (hpid : s.load k.PID = some pid1) :
    pid1 = 0 ∨ pid1 = 1 := by
  obtain ⟨pid, hpid', h01⟩ := h.exists_pid
  obtain rfl : pid1 = pid := Option.some.inj (hpid.symm.trans hpid')
  exact h01

/-- The address of a control block, as `time_slice` computes it. -/
theorem toNat_tcb (hpid : pid1 = 0 ∨ pid1 = 1) (h : k.TCB_OFFSET + 2 * k.TCB_SZ ≤ 2 ^ 64)
    (hpos : 0 < k.TCB_SZ) :
    (.ofNat 64 k.TCB_OFFSET + pid1 * .ofNat 64 k.TCB_SZ : Word).toNat = k.tcb pid1 := by
  rw [BitVec.toNat_add, BitVec.toNat_mul, BitVec.toNat_ofNat, BitVec.toNat_ofNat, TaskTable.tcb]
  rcases hpid with rfl | rfl
  · rw [show (0 : Word).toNat = 0 from rfl]
    omega
  · rw [show (1 : Word).toNat = 1 from rfl]
    omega

/-- The two control blocks lie side by side. -/
theorem tcb_eq (hpid : pid1 = 0 ∨ pid1 = 1) : (1 - pid1 = 0 ∨ 1 - pid1 = 1) ∧
    (k.tcb pid1 = k.TCB_OFFSET ∧ k.tcb (1 - pid1) = k.TCB_OFFSET + k.TCB_SZ ∨
      k.tcb pid1 = k.TCB_OFFSET + k.TCB_SZ ∧ k.tcb (1 - pid1) = k.TCB_OFFSET) := by
  rcases hpid with rfl | rfl
  · refine ⟨.inr rfl, .inl ⟨?_, ?_⟩⟩
    · exact (congrArg _ (Nat.zero_mul _)).trans (Nat.add_zero _)
    · exact congrArg _ (Nat.one_mul _)
  · refine ⟨.inl rfl, .inr ⟨?_, ?_⟩⟩
    · exact congrArg _ (Nat.one_mul _)
    · exact (congrArg _ (Nat.zero_mul _)).trans (Nat.add_zero _)

/-- The first half of a call: the registers go over the stack into the block at `tcb`. -/
theorem save_spec (tcb : Word) (hm : s.reg MSP = some m) (hword : s.systemState.size ≤ 2 ^ 64)
    (hwindow : m.toNat + NREGS_CONTEXT < s.systemState.size) (hpid : s.load k.PID = some pid1)
    (htcb : tcb.toNat + NREGS_CONTEXT ≤ s.systemState.size)
    (hpw : k.PID < m.toNat ∨ m.toNat + NREGS_CONTEXT < k.PID)
    (hpb : k.PID ∉ words tcb.toNat NREGS_CONTEXT)
    (hbw : tcb.toNat + NREGS_CONTEXT ≤ m.toNat ∨ m.toNat + NREGS_CONTEXT < tcb.toNat)
    (pid2 : Word) :
    ∃ s₁ s₂ t, exec pushRegister (List.range NREGS_CONTEXT) s = some s₁ ∧
      s₁.load k.PID = some pid1 ∧ s₁.store k.PID pid2 = some s₂ ∧
      exec (popToTcb tcb) (List.range NREGS_CONTEXT) s₂ = some t ∧ t.reg MSP = some m ∧
      t.load k.PID = some pid2 ∧
      (∀ r, 1 ≤ r → r < NREGS_CONTEXT → t.load (tcb.toNat + r) = s.reg (NREGS_CONTEXT - r)) ∧
      t.load tcb.toNat = s.load (m.toNat + NREGS_CONTEXT) ∧
      Frame ∅ (insert k.PID (words tcb.toNat NREGS_CONTEXT ∪ words m.toNat NREGS_CONTEXT)) s t := by
  have hCONTEXT : NREGS_CONTEXT = 16 := rfl
  simp only [mem_words] at hpb
  have hregs : ∀ i < NREGS_CONTEXT, ∃ v, s.reg i = some v := by
    intro i hi
    refine NdArray.exists_get? (Nat.lt_trans ?_ (NdArray.lt_size_of_get? hm))
    exact Nat.lt_trans hi (by decide)
  obtain ⟨s₁, hs₁, hm₁, hf₁, hw₁⟩ := exec_push St.reg hm (by omega) hword hregs
    fun t hframe i hi => (hframe.reg i (by simp only [Set.mem_singleton_iff, MSP]; omega)).symm
  have hpid₁ : s₁.load k.PID = some pid1 := by
    rw [← hf₁.load k.PID (by simp only [mem_words]; omega), hpid]
  obtain ⟨s₂, hs₂⟩ : ∃ s₂, s₁.store k.PID pid2 = some s₂ :=
    ⟨_, St.store_eq_some_iff.mpr ⟨NdArray.lt_size_of_get? hpid₁, rfl⟩⟩
  have hf₂ : Frame ∅ {k.PID} s₁ s₂ := Frame.of_store hs₂ (Set.mem_singleton _)
  have hsize₂ : s₂.systemState.size = s.systemState.size :=
    hf₂.size_systemState.trans hf₁.size_systemState
  have hm₂ : s₂.reg MSP = some (m + .ofNat 64 NREGS_CONTEXT) := (St.reg_of_store hs₂ MSP).trans hm₁
  have htop : (m + .ofNat 64 NREGS_CONTEXT).toNat = m.toNat + NREGS_CONTEXT := by
    rw [BitVec.toNat_add, BitVec.toNat_ofNat]
    omega
  obtain ⟨t, ht, hmt, hft, hwt⟩ := exec_popToTcb (n := NREGS_CONTEXT) tcb hm₂ (by omega)
    (by omega) (by omega) (by omega) (by simp only [mem_words]; omega)
  have hmt' : t.reg MSP = some m := by rw [hmt, BitVec.add_sub_cancel]
  refine ⟨s₁, s₂, t, hs₁, hpid₁, hs₂, ht, hmt', ?_, ?_, ?_, ?_⟩
  · rw [← hft.load k.PID (by simp only [mem_words]; omega), St.load_of_store hs₂, if_pos rfl]
  · intro r hr hlt
    rw [hwt r hlt, htop, ← hf₂.load _ (by simp only [Set.mem_singleton_iff]; omega),
      Nat.add_sub_assoc (Nat.le_of_lt hlt), hw₁ _ (by omega)]
  · have hzero := hwt 0 (by decide)
    rw [Nat.add_zero, Nat.sub_zero, htop] at hzero
    rw [hzero, ← hf₂.load _ (by simp only [Set.mem_singleton_iff]; omega),
      ← hf₁.load _ (by simp only [mem_words]; omega)]
  · have hX : ({MSP} : Set ℕ) ⊆ insert MSP ∅ := by rw [insert_empty_eq]
    refine Frame.restored (r := MSP) ?_ (hmt'.trans hm.symm)
    refine (hf₁.mono hX ?_).trans ((hf₂.mono (Set.empty_subset _) ?_).trans (hft.mono hX ?_))
    · exact fun a ha => .inr (.inr ha)
    · exact fun a ha => .inl ha
    · exact fun a ha => .inr (.inl ha)

/-- The second half: the registers come over the stack out of the block at `tcb`. -/
theorem restore_spec (tcb : Word) (hm : s.reg MSP = some m) (hword : s.systemState.size ≤ 2 ^ 64)
    (hwindow : m.toNat + NREGS_CONTEXT < s.systemState.size)
    (htcb : tcb.toNat + NREGS_CONTEXT ≤ s.systemState.size)
    (hbw : tcb.toNat + NREGS_CONTEXT ≤ m.toNat ∨ m.toNat + NREGS_CONTEXT < tcb.toNat) :
    ∃ s₁ t, exec (pushFromTcb tcb) (List.range NREGS_CONTEXT) s = some s₁ ∧
      exec popRegister (List.range NREGS_CONTEXT) s₁ = some t ∧
      (∀ r, 1 ≤ r → r < NREGS_CONTEXT →
        t.reg r = s.load (tcb.toNat + (NREGS_CONTEXT - r))) ∧
      t.reg 0 = s.load (m.toNat + NREGS_CONTEXT) ∧
      Frame {r | r < NREGS_CONTEXT} (words m.toNat NREGS_CONTEXT) s t := by
  have hCONTEXT : NREGS_CONTEXT = 16 := rfl
  have hslot : ∀ i < NREGS_CONTEXT, (tcb + .ofNat 64 i).toNat = tcb.toNat + i := by
    intro i hi
    rw [BitVec.toNat_add, BitVec.toNat_ofNat]
    omega
  obtain ⟨s₁, hs₁, hm₁, hf₁, hw₁⟩ := exec_push (n := NREGS_CONTEXT)
    (fun s r => s.load (tcb + .ofNat 64 r).toNat) hm (by omega) hword
    (fun i hi => NdArray.exists_get? (by rw [hslot i hi]; omega))
    fun t hframe i hi => (hframe.load _ (by rw [hslot i hi, mem_words]; omega)).symm
  have htop : (m + .ofNat 64 NREGS_CONTEXT).toNat = m.toNat + NREGS_CONTEXT := by
    rw [BitVec.toNat_add, BitVec.toNat_ofNat]
    omega
  have hsize₁ := hf₁.size_systemState
  obtain ⟨t, ht, hmt, hft, hrt⟩ := exec_popRegister hm₁ (n := NREGS_CONTEXT) (by omega) (by omega)
    (by decide)
  have hmt' : t.reg MSP = some m := by rw [hmt, BitVec.add_sub_cancel]
  refine ⟨s₁, t, hs₁, ht, ?_, ?_, ?_⟩
  · intro r hr hlt
    rw [hrt r hlt, htop, Nat.add_sub_assoc (Nat.le_of_lt hlt), hw₁ _ (by omega),
      hslot _ (by omega)]
  · rw [hrt 0 (by decide), htop, Nat.sub_zero, ← hf₁.load _ (by simp only [mem_words]; omega)]
  · refine Frame.restored (r := MSP) ?_ (hmt'.trans hm.symm)
    refine (hf₁.mono ?_ le_rfl).trans (hft.mono le_rfl (Set.empty_subset _))
    exact Set.singleton_subset_iff.mpr (Set.mem_insert ..)

/-- **A call succeeds and switches** to the other task. -/
theorem timeSlice_spec (h : Layout k m s) (hpid : s.load k.PID = some pid1) :
    ∃ t, timeSlice k s = some t ∧ Switches k m pid1 (1 - pid1) s t := by
  have hCONTEXT : NREGS_CONTEXT = 16 := rfl
  have h01 := h.pid_eq hpid
  have hblocks := h.blocks
  have hmemory := h.memory
  have hSZ := h.TCB_SZ
  have hpw := h.pid_window
  have hpb := h.pid_blocks
  have hbw := h.blocks_window
  obtain ⟨h21, htcb⟩ := tcb_eq (k := k) h01
  have htcb1 := toNat_tcb h01 (by omega) (show 0 < k.TCB_SZ by omega)
  have htcb2 := toNat_tcb h21 (by omega) (show 0 < k.TCB_SZ by omega)
  obtain ⟨s₁, s₂, s₃, hs₁, hpid₁, hs₂, hs₃, hm₃, hpid₃, hsaved, hzero, hf₃⟩ :=
    save_spec (.ofNat 64 k.TCB_OFFSET + pid1 * .ofNat 64 k.TCB_SZ) h.msp hmemory h.window
      hpid (by omega) hpw (by simp only [mem_words]; omega) (by omega) (1 - pid1)
  have hsize := hf₃.size_systemState
  obtain ⟨s₄, t, hs₄, ht, hrestored, hr0, hf⟩ :=
    restore_spec (.ofNat 64 k.TCB_OFFSET + (1 - pid1) * .ofNat 64 k.TCB_SZ) hm₃
      (by omega) (by have := h.window; omega) (by omega) (by omega)
  rw [htcb1] at hsaved hzero hf₃
  rw [htcb2] at hrestored
  -- the second half does not touch what the first has written, nor the other way round
  have hlater : ∀ a, a ∉ words m.toNat NREGS_CONTEXT → t.load a = s₃.load a :=
    fun a ha => (hf.load a ha).symm
  have hbefore : ∀ a, a ≠ k.PID → a ∉ words (k.tcb pid1) NREGS_CONTEXT →
      a ∉ words m.toNat NREGS_CONTEXT → s₃.load a = s.load a := by
    intro a hPID htcb hwindow
    refine (hf₃.load a ?_).symm
    rintro (ha | ha | ha)
    · exact hPID ha
    · exact htcb ha
    · exact hwindow ha
  refine ⟨t, ?_, hpid, ?_, ?_, ?_, ?_, ?_, ?_⟩
  · refine Option.bind_eq_some_iff.mpr ⟨s₁, hs₁, ?_⟩
    refine Option.bind_eq_some_iff.mpr ⟨pid1, hpid₁, ?_⟩
    refine Option.bind_eq_some_iff.mpr ⟨s₂, hs₂, ?_⟩
    refine Option.bind_eq_some_iff.mpr ⟨s₃, hs₃, ?_⟩
    exact Option.bind_eq_some_iff.mpr ⟨s₄, hs₄, ht⟩
  · rw [hlater _ (by simp only [mem_words]; omega), hpid₃]
  · intro r hr hlt
    rw [hlater _ (by simp only [mem_words]; omega), hsaved r hr hlt]
  · rw [hlater _ (by simp only [mem_words]; omega), hzero]
  · intro r hr hlt
    rw [hrestored r hr hlt]
    refine hbefore _ (by omega) ?_ ?_
    · simp only [mem_words]
      omega
    · simp only [mem_words]
      omega
  · rw [hr0]
    refine hbefore _ (by omega) ?_ ?_
    · simp only [mem_words]
      omega
    · simp only [mem_words]
      omega
  · refine (hf₃.mono (Set.empty_subset _) le_rfl).trans (hf.mono le_rfl ?_)
    exact fun a ha => .inr (.inr ha)

/-- **The exact effect of a call, and what it leaves alone.** R1 to R15 go to the outgoing
block and come from the incoming one in reverse order; memory changes in the PID word, in
the outgoing block and in the stack words that the registers pass through. -/
theorem timeSlice_effect (h : Layout k m s) : ∃ pid1 t, s.load k.PID = some pid1 ∧
    timeSlice k s = some t ∧ t.load k.PID = some (1 - pid1) ∧
    (∀ r, 1 ≤ r → r < NREGS_CONTEXT →
      t.load (k.tcb pid1 + r) = s.reg (NREGS_CONTEXT - r)) ∧
    (∀ r, 1 ≤ r → r < NREGS_CONTEXT →
      t.reg r = s.load (k.tcb (1 - pid1) + (NREGS_CONTEXT - r))) ∧
    t.reg MSP = s.reg MSP ∧ (∀ r, NREGS_CONTEXT ≤ r → t.reg r = s.reg r) ∧
    (∀ i < k.TCB_SZ, t.load (k.tcb (1 - pid1) + i) = s.load (k.tcb (1 - pid1) + i)) ∧
    ∀ a, a ≠ k.PID → a ∉ words (k.tcb pid1) NREGS_CONTEXT → a ∉ words m.toNat NREGS_CONTEXT →
      t.load a = s.load a := by
  have hCONTEXT : NREGS_CONTEXT = 16 := rfl
  obtain ⟨pid1, hpid, h01⟩ := h.exists_pid
  obtain ⟨t, ht, hswitch⟩ := timeSlice_spec h hpid
  have hregs : ∀ r, NREGS_CONTEXT ≤ r → t.reg r = s.reg r :=
    fun r hr => (hswitch.frame.reg r (Nat.not_lt.mpr hr)).symm
  have hmem : ∀ a, a ≠ k.PID → a ∉ words (k.tcb pid1) NREGS_CONTEXT →
      a ∉ words m.toNat NREGS_CONTEXT → t.load a = s.load a := by
    intro a hPID htcb hwindow
    refine (hswitch.frame.load a ?_).symm
    rintro (ha | ha | ha)
    · exact hPID ha
    · exact htcb ha
    · exact hwindow ha
  refine ⟨pid1, t, hpid, ht, hswitch.incoming, hswitch.saved, hswitch.restored,
    hregs MSP (by decide), hregs, ?_, hmem⟩
  intro i hi
  obtain ⟨-, htcb⟩ := tcb_eq (k := k) h01
  have hSZ := h.TCB_SZ
  have hpb := h.pid_blocks
  have hbw := h.blocks_window
  refine hmem _ (by omega) ?_ ?_
  · simp only [mem_words]
    omega
  · simp only [mem_words]
    omega

end

/-! A state with 5 in R0 and zeros above the stack pointer. -/
section

def smallTable : TaskTable := ⟨0, 1, 16⟩

def fiveInR0 : St :=
  ⟨NdArray.fill 64 0, ((NdArray.fill NREGS 0).update 0 5).update MSP 40⟩

theorem layout_fiveInR0 : Layout smallTable 40 fiveInR0 := by
  constructor <;> decide +kernel

theorem timeSlice_effect_fiveInR0 : ∃ pid1 t, fiveInR0.load smallTable.PID = some pid1 ∧
    timeSlice smallTable fiveInR0 = some t ∧ t.load smallTable.PID = some (1 - pid1) ∧
    t.reg MSP = fiveInR0.reg MSP := by
  obtain ⟨pid1, t, hpid, ht, htoggled, -, -, hMSP, -⟩ := timeSlice_effect layout_fiveInR0
  exact ⟨pid1, t, hpid, ht, htoggled, hMSP⟩

end
end Osh.BasicOS
