import Osh.Advanced.Footprint

/-!
# Interrupts, and the way back from them

`checkIrqs` enters the routine of the first raised request: PC is saved in LR and
replaced by the routine's address, and the processor is woken up. LR is the only
place the return address is kept in, so it survives a routine that leaves LR alone,
but not a second interrupt.

## Main definitions

* `enter v s t`: `t` is `s` after the routine at `v` has been entered.
* `StraightLine`, `RoutineAt`: instructions that fall through, and routines made of them.
* `Watched`, `watchStep`: a run under a schedule of requests, with the lengths of
  the routines entered counted along.
-/
namespace Osh.Advanced
open PartialRun

/-! ## The interrupt check -/

/-- Without a raised request nothing happens. -/
theorem checkIrqsFrom_idle (ivt : NdArray Word) (idx : ℕ) (registers : NdArray Word)
    {irqs : List Bool} (h : true ∉ irqs) :
    checkIrqsFrom ivt idx registers irqs = some (registers, irqs) := by
  induction irqs generalizing idx with
  | nil => rfl
  | cons irq irqs ih =>
      simp only [List.mem_cons, not_or] at h
      obtain rfl : irq = false := by simpa using h.1
      simp only [checkIrqsFrom, ih (idx + 1) h.2, Option.bind_eq_bind, Option.bind_some,
        Option.pure_def]

/-- The first raised request decides which vector is taken. -/
theorem checkIrqsFrom_raised (ivt : NdArray Word) (idx : ℕ) (registers : NdArray Word)
    {before : List Bool} (after : List Bool) (h : true ∉ before) :
    checkIrqsFrom ivt idx registers (before ++ true :: after) =
      (enterRoutine ivt (idx + before.length) registers).map fun registers =>
        (registers, before ++ false :: after) := by
  induction before generalizing idx with
  | nil =>
      rw [List.nil_append, checkIrqsFrom, List.length_nil, Nat.add_zero]
      cases enterRoutine ivt idx registers <;> rfl
  | cons irq before ih =>
      simp only [List.mem_cons, not_or] at h
      obtain rfl : irq = false := by simpa using h.1
      rw [List.cons_append, checkIrqsFrom, ih (idx + 1) h.2, List.length_cons,
        show idx + 1 + before.length = idx + (before.length + 1) by omega]
      cases enterRoutine ivt (idx + (before.length + 1)) registers <;> rfl

/-- `t` is `s` after the routine at address `v` has been entered. -/
structure Entered (v : Word) (s t : St) : Prop where
  systemState : t.systemState = s.systemState
  pc : t.reg PC = some v
  lr : t.reg LR = s.reg PC
  scr : t.reg SCR = some 0
  other : ∀ r, r ≠ PC → r ≠ LR → r ≠ SCR → t.reg r = s.reg r
  size : t.registers.size = s.registers.size

theorem Entered.frame {v : Word} {s t : St} (h : Entered v s t) : Frame {PC, LR, SCR} ∅ s t := by
  refine ⟨⟨?_, ?_⟩, by rw [h.systemState], h.size⟩
  · intro r hr
    simp only [Set.mem_insert_iff, Set.mem_singleton_iff, not_or] at hr
    exact (h.other r hr.1 hr.2.1 hr.2.2).symm
  · intro a _
    rw [St.load, St.load, h.systemState]

theorem enterRoutine_eq_some {ivt registers registers' : NdArray Word} {idx : ℕ} (m : NdArray Word)
    (h : enterRoutine ivt idx registers = some registers') :
    ∃ v, ivt.get? idx = some v ∧ Entered v ⟨m, registers⟩ ⟨m, registers'⟩ := by
  obtain ⟨r₁, h₁, h⟩ := Option.bind_eq_some_iff.mp h
  obtain ⟨pc, hpc, h⟩ := Option.bind_eq_some_iff.mp h
  obtain ⟨r₂, h₂, h⟩ := Option.bind_eq_some_iff.mp h
  obtain ⟨v, hv, h₃⟩ := Option.bind_eq_some_iff.mp h
  have step : ∀ {a b : NdArray Word} {i : ℕ} {w : Word}, a.set? i w = some b →
      St.setReg ⟨m, a⟩ i w = some ⟨m, b⟩ := by
    intro a b i w hab
    rw [St.setReg, hab, Option.map_some]
  have e₁ := St.reg_of_setReg (step h₁)
  have e₂ := St.reg_of_setReg (step h₂)
  have e₃ := St.reg_of_setReg (step h₃)
  refine ⟨v, hv, rfl, ?_, ?_, ?_, ?_, ?_⟩
  · rw [e₃, if_pos rfl]
  · have hpc' : St.reg ⟨m, r₁⟩ PC = some pc := hpc
    rw [e₃, if_neg (by decide), e₂, if_pos rfl, ← hpc', e₁, if_neg (by decide)]
  · rw [e₃, if_neg (by decide), e₂, if_neg (by decide), e₁, if_pos rfl]
  · intro r hPC hLR hSCR
    rw [e₃, if_neg hPC, e₂, if_neg hLR, e₁, if_neg hSCR]
  · show registers'.size = registers.size
    rw [NdArray.size_of_set? h₃, NdArray.size_of_set? h₂, NdArray.size_of_set? h₁]

theorem exists_enterRoutine {ivt registers : NdArray Word} {idx : ℕ} {v : Word}
    (hsize : registers.size = NREGS) (hv : ivt.get? idx = some v) :
    ∃ registers', enterRoutine ivt idx registers = some registers' := by
  have hSCR : SCR < registers.size := hsize ▸ by decide
  have hLR : LR < (registers.update SCR 0).size := by
    rw [NdArray.size_update, hsize]
    decide
  obtain ⟨pc, hpc⟩ : ∃ pc, (registers.update SCR 0).get? PC = some pc := by
    refine NdArray.exists_get? ?_
    rw [NdArray.size_update, hsize]
    decide
  have hPC : PC < ((registers.update SCR 0).update LR pc).size := by
    rw [NdArray.size_update, NdArray.size_update, hsize]
    decide
  refine ⟨((registers.update SCR 0).update LR pc).update PC v, ?_⟩
  simp only [enterRoutine, NdArray.set?_of_lt hSCR, NdArray.set?_of_lt hLR,
    NdArray.set?_of_lt hPC, hpc, hv, Option.bind_eq_bind, Option.bind_some]

theorem interruptCheck_idle {cfg : Cfg} {irqs : List Bool} (h : true ∉ irqs) (s : St) :
    interruptCheck cfg irqs s = some (irqs, s) := by
  unfold interruptCheck
  split
  · simp only [checkIrqs, checkIrqsFrom_idle _ _ _ h, Option.bind_eq_bind, Option.bind_some]
    rfl
  · rfl

/-- With a raised request the routine of the first one is entered. -/
theorem interruptCheck_raised {cfg : Cfg} (hP : cfg.PERIPHERALS = true) {before after : List Bool}
    (h : true ∉ before) {s t : St} {irqs' : List Bool}
    (hcheck : interruptCheck cfg (before ++ true :: after) s = some (irqs', t)) :
    irqs' = before ++ false :: after ∧ before.length < IVTsz ∧
      ∃ v, s.load (IVT + before.length) = some v ∧ Entered v s t := by
  simp only [interruptCheck, hP, if_true, checkIrqs, checkIrqsFrom_raised _ _ _ _ h,
    Nat.zero_add] at hcheck
  obtain ⟨⟨registers, irqs⟩, hmap, hcheck⟩ := Option.bind_eq_some_iff.mp hcheck
  obtain ⟨registers', henter, heq⟩ := Option.map_eq_some_iff.mp hmap
  cases heq
  cases hcheck
  obtain ⟨v, hv, hentered⟩ := enterRoutine_eq_some s.systemState henter
  rw [NdArray.get?_slice] at hv
  split at hv
  · next hlt => exact ⟨rfl, by rw [IVT] at hlt; omega, v, hv, hentered⟩
  · cases hv

/-- The check succeeds when the vector can be read. -/
theorem exists_interruptCheck {cfg : Cfg} (hP : cfg.PERIPHERALS = true) {before : List Bool}
    (after : List Bool) (h : true ∉ before) {s : St} {v : Word} (hsize : s.registers.size = NREGS)
    (hlt : before.length < IVTsz) (hv : s.load (IVT + before.length) = some v) :
    ∃ t, interruptCheck cfg (before ++ true :: after) s = some (before ++ false :: after, t) := by
  have hget : (s.systemState.slice IVT IVTsz).get? before.length = some v := by
    rw [NdArray.get?_slice, if_pos (by rw [IVT]; omega)]
    exact hv
  obtain ⟨registers, henter⟩ := exists_enterRoutine hsize hget
  refine ⟨⟨s.systemState, registers⟩, ?_⟩
  simp only [interruptCheck, hP, if_true, checkIrqs, checkIrqsFrom_raised _ _ _ _ h, Nat.zero_add,
    henter]
  rfl

/-- The check assigns registers only. -/
theorem interruptCheck_frame {cfg : Cfg} {irqs irqs' : List Bool} {s t : St}
    (h : interruptCheck cfg irqs s = some (irqs', t)) : Frame Set.univ ∅ s t := by
  by_cases hP : cfg.PERIPHERALS = true
  · by_cases hraised : true ∈ irqs
    · obtain ⟨before, after, rfl, hbefore⟩ := List.eq_append_cons_of_mem hraised
      obtain ⟨-, -, v, -, hentered⟩ := interruptCheck_raised hP hbefore h
      exact hentered.frame.mono (Set.subset_univ _) (Set.empty_subset _)
    · rw [interruptCheck_idle hraised] at h
      cases h
      exact Frame.refl s
  · rw [interruptCheck, if_neg hP] at h
    cases h
    exact Frame.refl s

/-! ## Routines -/

/-- The instruction word `BX LR`, which ends a routine. -/
def bxLR : Word := .ofNat 64 (BX + LR <<< 8)

section
variable [NumPy]

/-- The word `w` at address `a` falls through: executed in any state, it advances PC
by one and leaves LR and SCR alone. -/
def StraightLine (cfg : Cfg) (a w : Word) : Prop :=
  ∀ s t : St, s.reg PC = some a → s.load a.toNat = some w → s.reg SCR = some 0 →
    fetchDecodeExecute cfg s = some t →
      t.reg PC = some (a + 1) ∧ t.reg LR = s.reg LR ∧ t.reg SCR = some 0

/-- A routine of `m` words at address `v`: straight-line code that ends with `BX LR`. -/
structure RoutineAt (cfg : Cfg) (s : St) (v : Word) (m : ℕ) : Prop where
  pos : 0 < m
  body : ∀ i < m - 1, ∃ w, s.load (v + .ofNat 64 i).toNat = some w ∧
    StraightLine cfg (v + .ofNat 64 i) w
  last : s.load (v + .ofNat 64 (m - 1)).toNat = some bxLR

/-- Entering a routine does not move any. -/
theorem RoutineAt.congr {cfg : Cfg} {s t : St} {v : Word} {m : ℕ} (h : RoutineAt cfg s v m)
    (hst : t.systemState = s.systemState) : RoutineAt cfg t v m := by
  obtain ⟨hpos, hbody, hlast⟩ := h
  constructor
  · exact hpos
  · intro i hi
    obtain ⟨w, hw, hline⟩ := hbody i hi
    exact ⟨w, by rw [St.load, hst]; exact hw, hline⟩
  · rw [St.load, hst]
    exact hlast

/-- `BX LR` continues at the address in LR and does nothing else. -/
theorem fetchDecodeExecute_bxLR {cfg : Cfg} (hHL : cfg.HL = false) {s : St} {a l : Word}
    (hpc : s.reg PC = some a) (hw : s.load a.toNat = some bxLR) (hscr : s.reg SCR = some 0)
    (hlr : s.reg LR = some l) :
    ∃ t, fetchDecodeExecute cfg s = some t ∧ t.reg PC = some l ∧ Frame {PC} ∅ s t := by
  obtain ⟨u, hu⟩ := St.exists_setReg hpc (a + 1)
  have hupc := St.reg_of_setReg hu
  obtain ⟨t, ht⟩ := St.exists_setReg (by rw [hupc, if_pos rfl]) l
  have hfetch : fetchInstruction cfg s = some (.word bxLR, u) := by
    refine fetchInstruction_eq_some_iff.mpr ⟨a, bxLR, hpc, hw, ?_, hu⟩
    rw [lookupInstruction, hHL]
    rfl
  have huscr : u.reg SCR = some 0 := by rw [hupc, if_neg (by decide), hscr]
  have hulr : u.reg LR = some l := by rw [hupc, if_neg (by decide), hlr]
  refine ⟨t, ?_, by rw [St.reg_of_setReg ht, if_pos rfl],
    (Frame.of_setReg hu (Set.mem_singleton PC)).trans (Frame.of_setReg ht (Set.mem_singleton PC))⟩
  rw [fetchDecodeExecute_awake hHL hfetch huscr rfl]
  exact Option.bind_eq_some_iff.mpr ⟨l, hulr, ht⟩

/-- One instruction of a routine: it falls through to the next, and the last one
continues at the address in LR. -/
theorem RoutineAt.step {cfg : Cfg} (hHL : cfg.HL = false) {s t : St} {v : Word} {m i : ℕ}
    (h : RoutineAt cfg s v m) (hi : i < m) (hpc : s.reg PC = some (v + .ofNat 64 i))
    (hscr : s.reg SCR = some 0) (ht : fetchDecodeExecute cfg s = some t) :
    if i + 1 < m then t.reg PC = some (v + .ofNat 64 (i + 1)) ∧ t.reg LR = s.reg LR ∧
      t.reg SCR = some 0
    else t.reg PC = s.reg LR := by
  split
  · next hlt =>
      obtain ⟨w, hw, hline⟩ := h.body i (by omega)
      obtain ⟨hpc', hlr', hscr'⟩ := hline s t hpc hw hscr ht
      refine ⟨?_, hlr', hscr'⟩
      rw [hpc', BitVec.add_assoc, BitVec.ofNat_add]
      rfl
  · next hge =>
      obtain rfl : i = m - 1 := by omega
      -- LR exists because PC, a higher register, does
      have hPC : PC < s.registers.size := NdArray.lt_size_of_get? hpc
      obtain ⟨l, hlr⟩ : ∃ l, s.reg LR = some l :=
        NdArray.exists_get? (Nat.lt_trans (by decide) hPC)
      obtain ⟨t', ht', hpc', -⟩ := fetchDecodeExecute_bxLR hHL hpc h.last hscr hlr
      rw [ht] at ht'
      cases ht'
      rw [hpc', hlr]

end

/-- The registers that a word writes do not depend on the state. -/
theorem footprint_regWrites (instr : ℕ) (args : Arg × Arg × Arg) (s t : St) :
    (footprint instr args s).regWrites = (footprint instr args t).regWrites := by
  cases instr using opcode_cases with
  | operator instr hown => rw [footprint_operator hown, footprint_operator hown]
  | ldr | str | push | pop | cbnz | cbz | b | bl | bx | mov | set | nop | wfi | hli => rfl

/-- The word writes none of PC, LR and SCR. -/
def KeepsControl (s : St) (w : Word) : Prop :=
  ∀ r ∈ (footprint (decodeInstr w).toNat (decodeArgs (decodeInstr w).toNat w) s).regWrites,
    r ≠ PC ∧ r ≠ LR ∧ r ≠ SCR

instance (s : St) (w : Word) : Decidable (KeepsControl s w) :=
  inferInstanceAs (Decidable (∀ r ∈ Footprint.regWrites _, r ≠ PC ∧ r ≠ LR ∧ r ≠ SCR))

/-- A word that writes none of PC, LR and SCR falls through. -/
theorem straightLine_of_keepsControl [NumPy] {b : Bool} {a w : Word} {s₀ : St}
    (h : KeepsControl s₀ w) : StraightLine (mainCfg b) a w := by
  intro s t hpc hw hscr ht
  obtain ⟨a', w', u, scr, hpc', hw', hu, hscr', hexec⟩ :=
    fetchDecodeExecute_word rfl (not_executesHli ht) ht
  obtain rfl : a = a' := Option.some.inj (hpc.symm.trans hpc')
  obtain rfl : w = w' := Option.some.inj (hw.symm.trans hw')
  have hreg := St.reg_of_setReg hu
  have huscr : u.reg SCR = some 0 := by rw [hreg, if_neg (by decide), hscr]
  obtain rfl : scr = 0 := Option.some.inj (hscr'.symm.trans huscr)
  obtain ⟨-, hexec⟩ : _ ∧ _ := hexec.resolve_right fun hne => hne.1 rfl
  have hframe : Frame {r | r ≠ PC ∧ r ≠ LR ∧ r ≠ SCR} Set.univ u t := by
    refine executeInstruction_frame ⟨fun r hr => h r ?_, fun _ _ => trivial⟩ hexec
    rwa [footprint_regWrites _ _ s₀ u]
  refine ⟨?_, ?_, ?_⟩
  · rw [← hframe.reg PC (by simp), hreg, if_pos rfl]
  · rw [← hframe.reg LR (by simp), hreg, if_neg (by decide)]
  · rw [← hframe.reg SCR (by simp), huscr]

/-- A check of a routine's words that can be evaluated. -/
def RoutineCheck (s : St) (v : Word) (m : ℕ) : Prop :=
  0 < m ∧ (∀ i < m - 1, ∃ w ∈ s.load (v + .ofNat 64 i).toNat, KeepsControl s w) ∧
    s.load (v + .ofNat 64 (m - 1)).toNat = some bxLR

instance (s : St) (v : Word) (m : ℕ) : Decidable (RoutineCheck s v m) :=
  -- the word at an address is looked up; the instance for words would search all of them
  have (a : ℕ) : Decidable (∃ w ∈ s.load a, KeepsControl s w) := Option.decidableExistsMem _
  inferInstanceAs (Decidable (0 < m ∧
    (∀ i < m - 1, ∃ w ∈ s.load (v + .ofNat 64 i).toNat, KeepsControl s w) ∧
    s.load (v + .ofNat 64 (m - 1)).toNat = some bxLR))

theorem routineAt_of_check [NumPy] {b : Bool} {s : St} {v : Word} {m : ℕ}
    (h : RoutineCheck s v m) : RoutineAt (mainCfg b) s v m := by
  obtain ⟨hpos, hbody, hlast⟩ := h
  constructor
  · exact hpos
  · intro i hi
    obtain ⟨w, hw, hregs⟩ := hbody i hi
    exact ⟨w, hw, straightLine_of_keepsControl hregs⟩
  · exact hlast

end Osh.Advanced
