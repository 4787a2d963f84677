import Osh.Advanced.Fibonacci
import Osh.Advanced.Model

/-!
# What the model prints

`main` loads the Fibonacci program, runs a given number of cycles and prints the memory from
the end of the vector table up to `FIB_MAX`. Before that there are the address of the timer,
which is printed when the program is loaded, and a line for each request that is served and for
each call of the timer's routine.

Without peripherals the output is known for every number of cycles: a word is printed as its
Fibonacci number modulo `2 ^ 64` from the cycle on that stores it, and as zero before. Behind
the program the processor executes the zero words of the code region, until it comes to the end
of RAM and fetches the count that the program itself has stored in the timer; its first byte is
no opcode.

## Main definitions

* `Printed`: the calls of `print`.
* `main`: the program, for the options `-P` and `-N`.
* `lastCycle`: the number of cycles after which the next one raises.

## Main results

* `main_prints`: what is printed, and when `main` raises.
-/
namespace Osh.Advanced
open PartialRun

/-- A call of `print`, with what it is given. -/
inductive Printed where
  /-- `print(TIMER)` -/
  | timerAddress
  /-- `print("IRQ ",idx," raised!")` -/
  | irqRaised (idx : ℕ)
  /-- `print( 'IRS Called for Timer')` -/
  | irsCalled
  | memory (words : NdArray Word)

/-- What `checkIrqs` prints from index `idx` on. -/
def checkIrqsPrints (idx : ℕ) : List Bool → List Printed
  | [] => []
  | true :: _ => [.irqRaised idx]
  | false :: irqs => checkIrqsPrints (idx + 1) irqs

/-- What the functions print. The program calls `timerIRS` and no other. -/
def callPrints (cfg : Cfg) (s : St) : List Printed :=
  match fetchInstruction cfg s with
  | some (.entry (.list _), s) => if s.reg SCR = some 0 then [.irsCalled] else []
  | _ => []

/-- What a cycle prints. -/
def cyclePrints (cfg : Cfg) (L : Loop) : List Printed :=
  match devicePhase cfg L with
  | none => []
  | some L =>
    (if cfg.PERIPHERALS then checkIrqsPrints 0 L.irqs else []) ++
      ((interruptCheck cfg L.irqs L.st).map fun p => callPrints cfg p.2).getD []

section
variable [NumPy]

/-- `main` for the given options, and any value of `FIB_MAX`: what it prints. -/
def main (PERIPHERALS : Bool) (FIB_MAX : Imm) (MAX_NCYCLES : ℕ) : Option (List Printed) := do
  let (ramState, hlCode) ← loadCode (fibProg FIB_MAX).source initialRam
  let start ← mainInit MAX_NCYCLES ramState
  let cfg := ⟨PERIPHERALS, false, hlCode⟩
  let L ← iter (cycle cfg) MAX_NCYCLES start
  return .timerAddress :: (outputs (cycle cfg) (cyclePrints cfg) MAX_NCYCLES start ++
    [.memory (L.st.systemState.slice (IVT + IVTsz) FIB_MAX)])

end

/-! ## Initialisation -/

/-- Loading changes nothing outside the loaded range. -/
theorem ram_of_loadFrom {L : Type} : ∀ (es : List (Encoded L)) (pc : ℕ)
    (ramState ram' : NdArray Word) (hlCode hl' : List HlEntry),
    loadFrom pc es ramState hlCode = some (ram', hl') →
    ∀ a, a < CODE + pc ∨ CODE + pc + es.length ≤ a → ram'.get? a = ramState.get? a := by
  intro es
  induction es with
  | nil =>
      intro pc ram ram' hl hl' h
      cases h
      exact fun _ _ => rfl
  | cons e es ih =>
      intro pc ram ram' hl hl' h a ha
      rw [List.length_cons] at ha
      -- the word of this entry is stored at its own address
      obtain ⟨w, ram₁, hl₁, hram₁, hrest⟩ : ∃ w ram₁ hl₁, ram.set? (CODE + pc) w = some ram₁ ∧
          loadFrom (pc + 1) es ram₁ hl₁ = some (ram', hl') := by
        cases e with
        | word iw =>
            simp only [loadFrom, Option.bind_eq_bind, Option.bind_eq_some_iff] at h
            obtain ⟨w, -, ram₁, hram₁, h⟩ := h
            exact ⟨w, ram₁, _, hram₁, h⟩
        | hli instr =>
            rw [loadFrom] at h
            split at h
            · simp only [Option.bind_eq_bind, Option.bind_eq_some_iff] at h
              obtain ⟨w, -, ram₁, hram₁, h⟩ := h
              exact ⟨w, ram₁, _, hram₁, h⟩
            · cases h
      obtain ⟨-, rfl⟩ := NdArray.set?_eq_some_iff.mp hram₁
      rw [ih (pc + 1) _ ram' hl₁ hl' hrest a (by omega), NdArray.get?_update_ne _ (by omega)]

theorem ram_of_loadCode {L : Type} [DecidableEq L] {prog : Program L} (hlen : prog.length ≤ codeSz)
    (hlabels : LabelsDefined prog) {ramState ram' : NdArray Word} {hlCode : List HlEntry}
    (h : loadCode prog.source ramState = some (ram', hlCode)) :
    ∀ a, a < CODE ∨ CODE + prog.length ≤ a → ram'.get? a = ramState.get? a := by
  obtain ⟨es, hes, hfrom⟩ := Option.bind_eq_some_iff.mp h
  obtain ⟨es', hes', hlength, -⟩ := encodeProgram_spec hlen hlabels
  obtain rfl : es = es' := Option.some.inj (hes.symm.trans hes')
  intro a ha
  exact ram_of_loadFrom es 0 _ _ _ _ hfrom a (hlength ▸ ha)

/-- What stands in memory and registers before the first cycle. -/
structure Booted (FIB_MAX : Imm) (N : ℕ) (hlCode : List HlEntry) (start : Loop) : Prop where
  quiet : Quiet (.ofNat 64 (N + 1)) (.ofNat 64 (N + 1)) start
  irqs : start.irqs = []
  registers : start.st.registers = startRegisters
  loaded : Loaded (fibProg FIB_MAX) start.st hlCode
  ivt : ∀ a < IVTsz, start.st.load (IVT + a) = some (.ofNat 64 (CODE + 18))
  data : ∀ a, IVT + IVTsz ≤ a → a < CODE → start.st.load a = some 0
  code : ∀ i, 19 ≤ i → i < codeSz → start.st.load (CODE + i) = some 0
  top : ∀ a ≤ TIMER + 1, start.st.load a ≠ none

theorem initialRam_get?_ivt {a : ℕ} (ha : a < IVTsz) :
    initialRam.get? (IVT + a) = some (.ofNat 64 (CODE + 18)) := by
  rw [initialRam, NdArray.get?_blit_of_mem, NdArray.get?_fill, if_pos ha]
  · rw [NdArray.size_fill]
    simp only [IVT, IVTsz, ramStateSz] at ha ⊢
    omega
  · exact ha

theorem initialRam_get?_of_le {a : ℕ} (ha : IVT + IVTsz ≤ a) (hlt : a < MEMTOP) :
    initialRam.get? a = some 0 := by
  rw [initialRam, NdArray.get?_blit_of_ge _ _ (by rwa [NdArray.size_fill]), NdArray.get?_fill,
    if_pos (show a < ramStateSz from hlt)]

/-- `main` initialises its variables unless the timer's count does not fit its word. -/
theorem exists_booted (FIB_MAX : Imm) {N : ℕ} (hN : N + 1 < 2 ^ 64) :
    ∃ ram' hlCode start, loadCode (fibProg FIB_MAX).source initialRam = some (ram', hlCode) ∧
      mainInit N ram' = some start ∧ Booted FIB_MAX N hlCode start := by
  have hram : initialRam.size = ramStateSz := rfl
  have hprog := assembles_fibProg FIB_MAX
  have hlength : (fibProg FIB_MAX).length = 19 := rfl
  obtain ⟨ram', hlCode, hload, hloaded⟩ := loadCode_spec hprog.length hprog.defined hram
  have hsize : ram'.size = MEMTOP := (size_of_loadCode hload).trans hram
  have hkept := ram_of_loadCode (of_decide_eq_true rfl) hprog.defined hload
  rw [hlength] at hkept
  obtain ⟨start, hstart⟩ : ∃ start, mainInit N ram' = some start :=
    ⟨_, mainInit_eq_some_iff.mpr ⟨hN, rfl⟩⟩
  have hquiet := quiet_mainInit hsize hstart
  obtain ⟨-, rfl⟩ := mainInit_eq_some_iff.mp hstart
  have hMEMTOP := MEMTOP_eq
  have hCODE := CODE_eq
  have hTIMER := TIMER_eq
  -- below the timer stands what was loaded, above it the arrays of the devices
  have hlow : ∀ a < MEMTOP, (⟨ram' ++ startTimer N ++ .fill (STATETOP - KBD) 0,
      startRegisters⟩ : St).load a = ram'.get? a := by
    intro a ha
    rw [St.load, NdArray.append_assoc, NdArray.get?_append_left (hsize.symm ▸ ha)]
  refine ⟨ram', hlCode, _, hload, hstart, hquiet, rfl, rfl, ?_, ?_, ?_, ?_, ?_⟩
  · have h := hloaded (startTimer N ++ .fill (STATETOP - KBD) 0) startRegisters
    rwa [← NdArray.append_assoc] at h
  · intro a ha
    have hlt : IVT + a < CODE := by
      simp only [IVT, IVTsz] at ha ⊢
      omega
    rw [hlow _ (by omega), hkept _ (.inl hlt), initialRam_get?_ivt ha]
  · intro a ha hlt
    rw [hlow _ (by omega), hkept _ (.inl hlt), initialRam_get?_of_le ha (by omega)]
  · intro i hi hlt
    have hIVT : IVT + IVTsz ≤ CODE + i := by
      simp only [IVT, IVTsz]
      omega
    have htop : CODE + i < MEMTOP := Nat.add_lt_add_left hlt CODE
    rw [hlow _ htop, hkept _ (.inr (by omega)), initialRam_get?_of_le hIVT htop]
  · intro a ha
    have htimer : (startTimer N).size = 16 := rfl
    rw [ne_eq, St.load, NdArray.get?_eq_none_iff]
    simp only [NdArray.size_append, NdArray.size_fill, hsize, htimer]
    omega

/-! ## Words behind the program -/

section
variable [NumPy]

/-- Fetch, decode and execute do not depend on the option `-P`. -/
theorem fetchDecodeExecute_eq (P : Bool) (hlCode : List HlEntry) (s : St) :
    fetchDecodeExecute ⟨P, false, hlCode⟩ s = machineStep hlCode s :=
  (machineStep_eq hlCode s).symm

/-- A cycle without peripherals is a step of the machine. -/
theorem cycle_bareCfg (hlCode : List HlEntry) (L : Loop) (s : St) :
    cycle (bareCfg hlCode) { L with irqs := [], st := s } =
      (machineStep hlCode s).map fun t => { L with irqs := [], st := t } := by
  simp only [cycle, devicePhase, bareCfg, processorAction, interruptCheck, machineStep,
    Bool.false_eq_true, if_false, Option.bind_eq_bind, Option.bind_some, Option.map_bind]
  cases fetchDecodeExecute ⟨false, false, hlCode⟩ s <;> rfl

theorem iter_cycle_bareCfg (hlCode : List HlEntry) (L : Loop) (s : St) (n : ℕ) :
    iter (cycle (bareCfg hlCode)) n { L with irqs := [], st := s } =
      (iter (machineStep hlCode) n s).map fun t => { L with irqs := [], st := t } := by
  induction n with
  | zero => rfl
  | succ n ih =>
      rw [iter_succ, iter_succ, ih]
      cases iter (machineStep hlCode) n s with
      | none => rfl
      | some t => exact cycle_bareCfg hlCode L t

omit [NumPy] in
/-- Without requests a cycle prints what a call prints. -/
theorem cyclePrints_of_idle {cfg : Cfg} {L D : Loop} (hD : devicePhase cfg L = some D)
    (hidle : true ∉ D.irqs) : cyclePrints cfg L = callPrints cfg D.st := by
  have hnone : ∀ (irqs : List Bool) (idx : ℕ), true ∉ irqs → checkIrqsPrints idx irqs = [] := by
    intro irqs
    induction irqs with
    | nil => exact fun _ _ => rfl
    | cons irq irqs ih =>
        intro idx hirqs
        cases irq with
        | true => exact absurd (List.mem_cons_self ..) hirqs
        | false => exact ih (idx + 1) fun hmem => hirqs (List.mem_cons_of_mem _ hmem)
  rw [cyclePrints, hD]
  dsimp only
  rw [interruptCheck_idle hidle, hnone _ _ hidle, ite_self]
  rfl

theorem outputs_cycle_bareCfg (hlCode : List HlEntry) (L : Loop) (s : St) (n : ℕ) :
    outputs (cycle (bareCfg hlCode)) (cyclePrints (bareCfg hlCode)) n
        { L with irqs := [], st := s } =
      outputs (machineStep hlCode) (callPrints (bareCfg hlCode)) n s := by
  induction n with
  | zero => rfl
  | succ n ih =>
      rw [outputs, outputs, ih, iter_cycle_bareCfg]
      cases iter (machineStep hlCode) n s with
      | none => rfl
      | some t =>
          have hphase : devicePhase (bareCfg hlCode) { L with irqs := [], st := t } =
              some { L with irqs := [], st := t } := rfl
          exact congrArg _ (cyclePrints_of_idle hphase List.not_mem_nil)

namespace RunsTo
variable {prog : Program ℕ} {hlCode : List HlEntry} {i k : ℕ} {R : ℕ → Word}
  {M : ℕ → Option Word} {s : St} {w : Word}

/-- A step at a word that is no high-level instruction, in the program or behind it. -/
theorem word (h : RunsTo prog hlCode s k i R M) (hi : i ≤ codeSz) (hw : M (CODE + i) = some w)
    (hne : w.toNat ≠ HLI) :
    ∃ u, iter (machineStep hlCode) (k + 1) s =
        executeInstruction (decodeInstr w).toNat (decodeArgs (decodeInstr w).toNat w) u ∧
      Running prog hlCode (i + 1) R M u := by
  obtain ⟨t, ht, h⟩ := h
  obtain ⟨u, hu, hnext⟩ := h.setPC (i + 1)
  refine ⟨u, ?_, hnext⟩
  have hload : t.load (BitVec.ofNat 64 (CODE + i)).toNat = some w := by
    rw [toNat_code hi, h.load, hw]
  rw [iter_succ, ht, Option.bind_some]
  refine machineStep_of_word h.scr h.pc hload hne ?_ rfl
  rw [← hu, ofNat_succ, Nat.add_assoc]

/-- A zero word adds a register to itself. -/
theorem zero (h : RunsTo prog hlCode s k i R M) (hi : i < codeSz) (hw : M (CODE + i) = some 0) :
    RunsTo prog hlCode s (k + 1) (i + 1) (Function.update R 0 (R 0 + R 0)) M := by
  obtain ⟨u, hu, h⟩ := h.word (Nat.le_of_lt hi) hw (by decide)
  obtain ⟨t, ht, h'⟩ := h.setReg (by decide : 0 < SP) (R 0 + R 0)
  refine ⟨t, hu.trans ?_, h'⟩
  have hR0 : u.reg 0 = some (R 0) := h.reg 0 (by decide)
  refine (executeInstruction_alu 0 0 0 u (Nat.zero_le 8)).trans ?_
  exact Option.bind_eq_some_iff.mpr ⟨_, rfl, Option.bind_eq_some_iff.mpr ⟨_, hR0,
    Option.bind_eq_some_iff.mpr ⟨_, hR0, ht⟩⟩⟩

/-- `WFI` is executed as `NOP`. -/
theorem wfi (h : RunsTo prog hlCode s k i R M) (hi : i ≤ codeSz) (hw : M (CODE + i) = some 29) :
    RunsTo prog hlCode s (k + 1) (i + 1) R M := by
  obtain ⟨u, hu, h⟩ := h.word hi hw (by decide)
  exact ⟨u, hu.trans (executeInstruction_nop u (.inr rfl) _), h⟩

/-- The call of a function that does nothing but print. -/
theorem timerIRS (h : RunsTo prog hlCode s k i R M) (hprog : Assembles prog)
    {label : Option ℕ} (hentry : prog[i]? = some (label, .hli Advanced.timerIRS)) :
    RunsTo prog hlCode s (k + 1) (i + 1) R M := by
  obtain ⟨u, hu, h⟩ := h.step hprog hentry rfl
  exact ⟨u, hu, h⟩

end RunsTo

/-! ## Calls -/

variable {FIB_MAX : Imm} {hlCode : List HlEntry} {s : St} {i k n : ℕ} {R : ℕ → Word}
  {M : ℕ → Option Word}

omit [NumPy] in
theorem callPrints_of_word {cfg : Cfg} {pc w : Word} (hHL : cfg.HL = false)
    (hpc : s.reg PC = some pc) (hw : s.load pc.toNat = some w) (hne : w.toNat ≠ HLI) :
    callPrints cfg s = [] := by
  cases hfetch : fetchInstruction cfg s with
  | none => rw [callPrints, hfetch]
  | some p =>
      obtain ⟨pc', w', hpc', hw', hir, -⟩ := fetchInstruction_eq_some_iff.mp hfetch
      obtain rfl : pc = pc' := Option.some.inj (hpc.symm.trans hpc')
      obtain rfl : w = w' := Option.some.inj (hw.symm.trans hw')
      rw [lookupInstruction, hHL, if_neg Bool.false_ne_true, if_neg hne] at hir
      obtain ⟨ir, t⟩ := p
      obtain rfl : Ir.word w = ir := Option.some.inj hir
      rw [callPrints, hfetch]

omit [NumPy] in
/-- Where the program is followed by zero words, only its last instruction is a call. -/
theorem Running.callPrints (h : Running (fibProg FIB_MAX) hlCode i R M s) (P : Bool)
    (hi : i < codeSz) (hzero : 19 ≤ i → M (CODE + i) = some 0) :
    callPrints ⟨P, false, hlCode⟩ s = if i = 18 then [.irsCalled] else [] := by
  have hprog := assembles_fibProg FIB_MAX
  have hword : ∀ w, M (CODE + i) = some w → w.toNat ≠ HLI →
      Advanced.callPrints ⟨P, false, hlCode⟩ s = [] := by
    intro w hw hne
    refine callPrints_of_word rfl h.pc ?_ hne
    rw [toNat_code (Nat.le_of_lt hi), h.load, hw]
  rcases Nat.lt_trichotomy i 18 with hlt | rfl | hgt
  · rw [if_neg (Nat.ne_of_lt hlt)]
    obtain ⟨⟨label, a⟩, hentry, hisWord⟩ : ∃ e, (fibProg FIB_MAX)[i]? = some e ∧ e.2.isWord := by
      interval_cases i <;> exact ⟨_, rfl, rfl⟩
    have hlen : (fibProg FIB_MAX).length ≤ codeSz := of_decide_eq_true rfl
    have hres := resolved_of_labelsDefined hlen hprog.defined hentry
    refine hword _ ?_ (a.toNat_encode_ne_HLI hres hisWord)
    rw [← h.load]
    exact h.loaded.word i _ hentry hisWord
  · obtain ⟨hload, hcall⟩ := h.loaded.hli 18 none timerIRS rfl
    obtain ⟨t, ht⟩ := St.exists_setReg h.pc (.ofNat 64 (CODE + 18) + 1)
    have hscr : t.reg SCR = some 0 := by rw [St.reg_of_setReg ht, if_neg (by decide), h.scr]
    have hfetch : fetchInstruction ⟨P, false, hlCode⟩ s =
        some (.entry (.list (some timerIRS)), t) := by
      refine fetchInstruction_eq_some_iff.mpr ⟨_, .ofNat 64 HLI, h.pc, ?_, ?_, ht⟩
      · rw [toNat_code (Nat.le_of_lt hi)]
        exact hload
      · have hindex : pyIndex hlCode (((BitVec.ofNat 64 (CODE + 18)).toNat : ℤ) - CODE) =
            some (.list (some timerIRS)) := hcall
        rw [lookupInstruction, if_neg Bool.false_ne_true, if_pos (by decide), hindex]
        rfl
    rw [Advanced.callPrints, hfetch]
    exact if_pos hscr
  · rw [if_neg (Nat.ne_of_gt hgt)]
    exact hword 0 (hzero hgt) (by decide)

/-! ## The program, step by step -/

/-- Up to the loop nothing but the timer is written. -/
theorem setUp_steps (h : RunsTo (fibProg FIB_MAX) hlCode s 0 0 R M) (h0 : M TIMER ≠ none)
    (h1 : M (TIMER + 1) ≠ none) : ∀ k ≤ 10, ∃ R' M', RunsTo (fibProg FIB_MAX) hlCode s k k R' M' ∧
      ∀ a, a ≠ TIMER → a ≠ TIMER + 1 → M' a = M a := by
  have hprog := assembles_fibProg FIB_MAX
  have hcode : CODE + (fibProg FIB_MAX).length ≤ TIMER := of_decide_eq_true rfl
  have hkept1 : ∀ (v : Word) a, a ≠ TIMER → Function.update M TIMER (some v) a = M a :=
    fun _ a ha => Function.update_of_ne ha ..
  have hkept2 : ∀ (v w : Word) a, a ≠ TIMER → a ≠ TIMER + 1 →
      Function.update (Function.update M TIMER (some v)) (TIMER + 1) (some w) a = M a := by
    intro v w a ha ha'
    rw [Function.update_of_ne ha', Function.update_of_ne ha]
  have h1' : Function.update M TIMER (some 10) (TIMER + 1) ≠ none := by
    rw [Function.update_of_ne (Nat.succ_ne_self TIMER)]
    exact h1
  have s1 := h.set hprog rfl (by decide)
  have s2 := s1.set hprog rfl (by decide)
  have s3 := s2.set hprog rfl (by decide)
  have s4 := s3.str hprog rfl (by decide) (by decide) rfl h0 (.inr hcode)
  have s5 := s4.set hprog rfl (by decide)
  have s6 := s5.str hprog rfl (by decide) (by decide) rfl h1' (.inr (Nat.le_succ_of_le hcode))
  have s7 := s6.set hprog rfl (by decide)
  have s8 := s7.set hprog rfl (by decide)
  have s9 := s8.set hprog rfl (by decide)
  have s10 := s9.set hprog rfl (by decide)
  intro k hk
  interval_cases k
  · exact ⟨_, _, h, fun _ _ _ => rfl⟩
  · exact ⟨_, _, s1, fun _ _ _ => rfl⟩
  · exact ⟨_, _, s2, fun _ _ _ => rfl⟩
  · exact ⟨_, _, s3, fun _ _ _ => rfl⟩
  · exact ⟨_, _, s4, fun a ha _ => hkept1 _ a ha⟩
  · exact ⟨_, _, s5, fun a ha _ => hkept1 _ a ha⟩
  · exact ⟨_, _, s6, hkept2 _ _⟩
  · exact ⟨_, _, s7, hkept2 _ _⟩
  · exact ⟨_, _, s8, hkept2 _ _⟩
  · exact ⟨_, _, s9, hkept2 _ _⟩
  · exact ⟨_, _, s10, hkept2 _ _⟩

/-- Within a turn of the loop the number is stored by the fifth step. -/
theorem loopTurn_steps {m r1 r2 : ℕ} (h : RunsTo (fibProg FIB_MAX) hlCode s k 11 R M)
    (hR1 : R 1 = .ofNat 64 r1) (hR2 : R 2 = .ofNat 64 r2) (hR4 : R 4 = .ofNat 64 (m + 1))
    (hR5 : R 5 = 1) (hm : m < CODE) (hmem : M m ≠ none) :
    ∀ r ≤ 5, ∃ R' M', RunsTo (fibProg FIB_MAX) hlCode s (k + r) (11 + r) R' M' ∧
      M' = if r < 5 then M else Function.update M m (some (.ofNat 64 (r1 + r2))) := by
  have hprog := assembles_fibProg FIB_MAX
  have hadd : R 1 + R 2 = .ofNat 64 (r1 + r2) := by rw [hR1, hR2, BitVec.ofNat_add]
  have hsub : (R 4 - R 5).toNat = m := by
    rw [hR4, hR5, ← ofNat_succ, BitVec.add_sub_cancel, BitVec.toNat_ofNat]
    have := CODE_eq
    omega
  have s1 := h.alu hprog rfl (by decide) (by decide) (by decide)
  have s2 := s1.mov hprog rfl (by decide) (by decide)
  have s3 := s2.mov hprog rfl (by decide) (by decide)
  have s4 := s3.alu hprog rfl (by decide) (by decide) (by decide)
  have s5 := s4.str hprog rfl (by decide) (by decide) hsub hmem (.inl hm)
  intro r hr
  interval_cases r
  · exact ⟨_, _, h, rfl⟩
  · exact ⟨_, _, s1, rfl⟩
  · exact ⟨_, _, s2, rfl⟩
  · exact ⟨_, _, s3, rfl⟩
  · exact ⟨_, _, s4, rfl⟩
  · exact ⟨_, _, s5, congrArg (Function.update M m ∘ some) hadd⟩

/-- The memory at address `a` after `N` cycles: its Fibonacci number, if it has been stored. -/
def storedBy (n N : ℕ) (M : ℕ → Option Word) (a : ℕ) : Option Word :=
  if a < n ∧ 16 + 6 * (n - 1 - a) ≤ N then some (.ofNat 64 (Nat.fib (n - a + 2))) else M a

omit [NumPy] in
/-- The store of turn `t`. -/
theorem storedBy_turn {t : ℕ} (ht : t < n) (M : ℕ → Option Word) :
    Function.update (storedBy n (11 + 6 * t) M) (n - 1 - t) (some (.ofNat 64 (Nat.fib (t + 3)))) =
      storedBy n (11 + 6 * (t + 1)) M := by
  funext a
  rw [Function.update_apply, storedBy, storedBy]
  by_cases ha : a = n - 1 - t
  · subst ha
    rw [if_pos rfl, if_pos (by omega), show n - (n - 1 - t) + 2 = t + 3 by omega]
  · rw [if_neg ha]
    exact if_congr (by omega) rfl rfl

omit [NumPy] in
theorem storedBy_ne_none {N a : ℕ} (ha : M a ≠ none) : storedBy n N M a ≠ none := by
  rw [storedBy]
  split
  · exact Option.some_ne_none _
  · exact ha

/-- After `t` turns of the loop. -/
theorem turns (h : RunsTo (fibProg FIB_MAX) hlCode s 11 11 R M) (hR1 : R 1 = 1) (hR2 : R 2 = 1)
    (hR4 : R 4 = .ofNat 64 n) (hR5 : R 5 = 1) (hn : n ≤ CODE) (hpos : 1 ≤ n)
    (hmem : ∀ a < n, M a ≠ none) : ∀ t ≤ n, ∃ R',
      RunsTo (fibProg FIB_MAX) hlCode s (11 + 6 * t) (if t = n then 17 else 11) R'
        (storedBy n (11 + 6 * t) M) ∧
      R' 1 = .ofNat 64 (Nat.fib (t + 1)) ∧ R' 2 = .ofNat 64 (Nat.fib (t + 2)) ∧
      R' 4 = .ofNat 64 (n - t) ∧ R' 5 = 1 := by
  intro t
  induction t with
  | zero =>
      intro _
      refine ⟨R, ?_, hR1, hR2, hR4, hR5⟩
      rw [if_neg (by omega)]
      have hnone : storedBy n 11 M = M := by
        funext a
        exact if_neg (by omega)
      rw [Nat.mul_zero, Nat.add_zero, hnone]
      exact h
  | succ t ih =>
      intro ht
      obtain ⟨R₁, h₁, hR1, hR2, hR4, hR5⟩ := ih (by omega)
      rw [if_neg (by omega)] at h₁
      have hm : n - t = n - 1 - t + 1 := by omega
      rw [hm] at hR4
      have hmem' := storedBy_ne_none (n := n) (N := 11 + 6 * t) (hmem (n - 1 - t) (by omega))
      obtain ⟨R', h', hR1', hR2', -, hR4', hR5'⟩ := loopTurn h₁ hR1 hR2 hR4 hR5 (by omega) hmem'
      have hfib : Nat.fib (t + 1) + Nat.fib (t + 2) = Nat.fib (t + 3) := Nat.fib_add_two.symm
      rw [hfib] at h' hR2'
      rw [storedBy_turn (by omega)] at h'
      refine ⟨R', ?_, hR1', hR2', ?_, hR5'⟩
      · rw [show 11 + 6 * (t + 1) = 11 + 6 * t + 6 by omega]
        rwa [show (if t + 1 = n then 17 else 11) = if n - 1 - t = 0 then 17 else 11 from
          if_congr (by omega) rfl rfl]
      · rw [hR4', show n - 1 - t = n - (t + 1) by omega]

/-- Inside turn `t`. -/
theorem turn_steps (h : RunsTo (fibProg FIB_MAX) hlCode s 11 11 R M) (hR1 : R 1 = 1)
    (hR2 : R 2 = 1) (hR4 : R 4 = .ofNat 64 n) (hR5 : R 5 = 1) (hn : n ≤ CODE)
    (hmem : ∀ a < n, M a ≠ none) {t r : ℕ} (ht : t < n) (hr : r < 6) : ∃ R',
      RunsTo (fibProg FIB_MAX) hlCode s (11 + 6 * t + r) (11 + r) R'
        (storedBy n (11 + 6 * t + r) M) := by
  obtain ⟨R₁, h₁, hR1, hR2, hR4, hR5⟩ := turns h hR1 hR2 hR4 hR5 hn (by omega) hmem t (by omega)
  rw [if_neg (by omega)] at h₁
  rw [show n - t = n - 1 - t + 1 by omega] at hR4
  have hmem' := storedBy_ne_none (n := n) (N := 11 + 6 * t) (hmem (n - 1 - t) (by omega))
  obtain ⟨R', M', h', hM'⟩ := loopTurn_steps h₁ hR1 hR2 hR4 hR5 (by omega) hmem' r (by omega)
  have hmemory : M' = storedBy n (11 + 6 * t + r) M := by
    rw [hM']
    funext a
    split
    · exact if_congr (by omega) rfl rfl
    · rw [show Nat.fib (t + 1) + Nat.fib (t + 2) = Nat.fib (t + 3) from Nat.fib_add_two.symm,
        storedBy_turn (by omega)]
      exact if_congr (by omega) rfl rfl
  exact ⟨R', hmemory ▸ h'⟩

/-- Behind the loop come `WFI`, the timer's routine and the zero words of the code region. -/
theorem behindLoop (h : RunsTo (fibProg FIB_MAX) hlCode s k 17 R M)
    (hzero : ∀ i, 19 ≤ i → i < codeSz → M (CODE + i) = some 0) :
    ∀ j, 17 + j ≤ codeSz → ∃ R', RunsTo (fibProg FIB_MAX) hlCode s (k + j) (17 + j) R' M := by
  have hwfi : M (CODE + 17) = some 29 := by
    obtain ⟨t, -, h⟩ := h
    rw [← h.load]
    exact h.loaded.word 17 (none, .wfi) rfl rfl
  intro j
  induction j with
  | zero => exact fun _ => ⟨R, h⟩
  | succ j ih =>
      intro hj
      obtain ⟨R₁, h₁⟩ := ih (by omega)
      rcases Nat.lt_or_ge j 2 with hlt | hge
      · interval_cases j
        · exact ⟨R₁, h₁.wfi (by decide) hwfi⟩
        · exact ⟨R₁, h₁.timerIRS (assembles_fibProg FIB_MAX) rfl⟩
      · exact ⟨_, h₁.zero (by omega) (hzero _ (by omega) (by omega))⟩

/-- The number of cycles after which the next one raises. -/
def lastCycle (FIB_MAX : ℕ) : ℕ := 6 * FIB_MAX + (codeSz - 6)

/-- The word of the code region that cycle `N` executes. -/
def wordAt (n N : ℕ) : ℕ :=
  if N < 11 then N else if N < 11 + 6 * n then 11 + (N - 11) % 6 else 17 + (N - (11 + 6 * n))

omit [NumPy] in
theorem wordAt_lastCycle : wordAt n (lastCycle n) = codeSz := by
  have hlast : lastCycle n = 11 + 6 * n + (codeSz - 17) := by
    simp only [lastCycle, codeSz]
    omega
  have hcodeSz : 17 + (codeSz - 17) = codeSz := by decide
  rw [hlast, wordAt, if_neg (by omega), if_neg (by omega), Nat.add_sub_cancel_left, hcodeSz]

/-- What the machine has done after any number of cycles from the beginning of the loop on. -/
theorem loop_at (h : RunsTo (fibProg FIB_MAX) hlCode s 11 11 R M) (hR1 : R 1 = 1) (hR2 : R 2 = 1)
    (hR4 : R 4 = .ofNat 64 n) (hR5 : R 5 = 1) (hpos : 1 ≤ n) (hn : n ≤ CODE)
    (hmem : ∀ a < n, M a ≠ none) (hzero : ∀ i, 19 ≤ i → i < codeSz → M (CODE + i) = some 0) :
    ∀ N, 11 ≤ N → N ≤ lastCycle n →
      ∃ R', RunsTo (fibProg FIB_MAX) hlCode s N (wordAt n N) R' (storedBy n N M) := by
  intro N hge hle
  rcases Nat.lt_or_ge N (11 + 6 * n) with hloop | hdone
  · obtain ⟨t, r, hr, rfl⟩ : ∃ t r, r < 6 ∧ N = 11 + 6 * t + r :=
      ⟨(N - 11) / 6, (N - 11) % 6, Nat.mod_lt _ (by decide), by omega⟩
    have hword : wordAt n (11 + 6 * t + r) = 11 + r := by
      rw [wordAt, if_neg (by omega), if_pos hloop]
      omega
    rw [hword]
    exact turn_steps h hR1 hR2 hR4 hR5 hn hmem (by omega) hr
  · obtain ⟨j, rfl⟩ : ∃ j, N = 11 + 6 * n + j := Nat.exists_eq_add_of_le hdone
    obtain ⟨Rₙ, hₙ, -⟩ := turns h hR1 hR2 hR4 hR5 hn hpos hmem n le_rfl
    rw [if_pos rfl] at hₙ
    have hbehind := behindLoop hₙ fun i hi hlt => (if_neg (by omega)).trans (hzero i hi hlt)
    obtain ⟨R', h'⟩ := hbehind j (by simp only [lastCycle, codeSz] at hle ⊢; omega)
    have hword : wordAt n (11 + 6 * n + j) = 17 + j := by
      rw [wordAt, if_neg (by omega), if_neg (by omega), Nat.add_sub_cancel_left]
    -- the loop has stored everything
    have hall : storedBy n (11 + 6 * n) M = storedBy n (11 + 6 * n + j) M := by
      funext a
      exact if_congr (by omega) rfl rfl
    rw [hword, ← hall]
    exact ⟨R', h'⟩

/-- What the machine has done after any number of cycles. -/
theorem run_at (h : RunsTo (fibProg FIB_MAX) hlCode s 0 0 R s.load)
    (hFIB_MAX : FIB_MAX.val = n) (hpos : 1 ≤ n) (hn : n ≤ CODE)
    (htop : ∀ a ≤ TIMER + 1, s.load a ≠ none)
    (hzero : ∀ i, 19 ≤ i → i < codeSz → s.load (CODE + i) = some 0) :
    (∀ N ≤ lastCycle n, ∃ R' M', RunsTo (fibProg FIB_MAX) hlCode s N (wordAt n N) R' M' ∧
      ∀ a, a ≠ TIMER → a ≠ TIMER + 1 → M' a = storedBy n N s.load a) ∧
    iter (machineStep hlCode) (lastCycle n + 1) s = none := by
  have hTIMER : CODE + codeSz = TIMER := by decide
  obtain ⟨R₀, h₀, hR1, hR2, hR4, hR5⟩ := setUp h (htop _ (Nat.le_succ _)) (htop _ le_rfl)
  have hstart := setUp_steps h (htop _ (Nat.le_succ _)) (htop _ le_rfl)
  -- the memory that the loop starts with
  obtain ⟨M₀, hM₀⟩ : ∃ M₀, M₀ =
      Function.update (Function.update s.load TIMER (some 10)) (TIMER + 1) (some 10) := ⟨_, rfl⟩
  rw [← hM₀] at h₀
  have hother : ∀ a, a ≠ TIMER → a ≠ TIMER + 1 → M₀ a = s.load a := by
    intro a ha ha'
    rw [hM₀, Function.update_of_ne ha', Function.update_of_ne ha]
  have hmem : ∀ a < n, M₀ a ≠ none := by
    intro a ha
    rw [hother a (by omega) (by omega)]
    exact htop a (by omega)
  have hloop := loop_at h₀ hR1 hR2 (hR4.trans (congrArg _ hFIB_MAX)) hR5 hpos hn hmem
    fun i hi hlt => (hother _ (by omega) (by omega)).trans (hzero i hi hlt)
  constructor
  · intro N hN
    rcases Nat.lt_or_ge N 11 with hlt | hge
    · obtain ⟨R', M', h', hM'⟩ := hstart N (by omega)
      have hword : wordAt n N = N := if_pos hlt
      refine ⟨R', M', by rwa [hword], fun a ha ha' => ?_⟩
      rw [hM' a ha ha', storedBy, if_neg (by omega)]
    · obtain ⟨R', h'⟩ := hloop N hge hN
      refine ⟨R', _, h', fun a ha ha' => ?_⟩
      rw [storedBy, storedBy, hother a ha ha']
  · -- the word at the end of the code region is the timer's count
    have h11 : 11 ≤ lastCycle n := by
      simp only [lastCycle, codeSz]
      omega
    obtain ⟨R', h'⟩ := hloop (lastCycle n) h11 le_rfl
    have hcount : storedBy n (lastCycle n) M₀ (CODE + codeSz) = some 10 := by
      rw [storedBy, if_neg (by omega), hTIMER, hM₀,
        Function.update_of_ne (Nat.ne_of_lt (Nat.lt_succ_self TIMER)), Function.update_self]
    rw [wordAt_lastCycle] at h'
    obtain ⟨u, hu, -⟩ := h'.word le_rfl hcount (by decide)
    rw [hu]
    rfl

/-- `main` after its initialisation. -/
theorem main_eq {P : Bool} {FIB_MAX : Imm} {N : ℕ} {ram' : NdArray Word} {hlCode : List HlEntry}
    {start : Loop} (hload : loadCode (fibProg FIB_MAX).source initialRam = some (ram', hlCode))
    (hstart : mainInit N ram' = some start) :
    main P FIB_MAX N = (iter (cycle ⟨P, false, hlCode⟩) N start).map fun L =>
      .timerAddress ::
        (outputs (cycle ⟨P, false, hlCode⟩) (cyclePrints ⟨P, false, hlCode⟩) N start ++
          [.memory (L.st.systemState.slice (IVT + IVTsz) FIB_MAX)]) := by
  rw [main, hload, Option.bind_eq_bind, Option.bind_some]
  show (mainInit N ram').bind _ = _
  rw [hstart, Option.bind_some]
  show (iter (cycle ⟨P, false, hlCode⟩) N start).bind _ = _
  rw [Option.map_eq_bind]
  rfl

/-- Without peripherals the cycles of `main` are steps of the machine. -/
theorem main_bare {FIB_MAX : Imm} {N : ℕ} {ram' : NdArray Word} {hlCode : List HlEntry}
    {start : Loop} (hload : loadCode (fibProg FIB_MAX).source initialRam = some (ram', hlCode))
    (hstart : mainInit N ram' = some start) (hirqs : start.irqs = []) :
    main false FIB_MAX N = (iter (machineStep hlCode) N start.st).map fun t =>
      .timerAddress :: (outputs (machineStep hlCode) (callPrints (bareCfg hlCode)) N start.st ++
        [.memory (t.systemState.slice (IVT + IVTsz) FIB_MAX)]) := by
  have hsame : start = { start with irqs := [], st := start.st } := by rw [← hirqs]
  have hrun : iter (cycle (bareCfg hlCode)) N start =
      (iter (machineStep hlCode) N start.st).map fun t => { start with irqs := [], st := t } := by
    rw [← iter_cycle_bareCfg, ← hsame]
  have hprints : outputs (cycle (bareCfg hlCode)) (cyclePrints (bareCfg hlCode)) N start =
      outputs (machineStep hlCode) (callPrints (bareCfg hlCode)) N start.st := by
    rw [← outputs_cycle_bareCfg hlCode start, ← hsame]
  rw [main_eq hload hstart, ← hprints]
  show (iter (cycle (bareCfg hlCode)) N start).map _ = _
  rw [hrun, Option.map_map]
  rfl

/-- The timer's routine is called once, on the way out of the program. -/
theorem outputs_at {start : Loop} {N : ℕ} (hbooted : Booted FIB_MAX N hlCode start) (hn : n ≤ CODE)
    (hle : N ≤ lastCycle n)
    (hrun : ∀ k ≤ lastCycle n, ∃ R' M',
      RunsTo (fibProg FIB_MAX) hlCode start.st k (wordAt n k) R' M' ∧
        ∀ a, a ≠ TIMER → a ≠ TIMER + 1 → M' a = storedBy n k start.st.load a) :
    outputs (machineStep hlCode) (callPrints (bareCfg hlCode)) N start.st =
      if 6 * n + 13 ≤ N then [.irsCalled] else [] := by
  refine outputs_eq (G := fun N => if 6 * n + 13 ≤ N then [Printed.irsCalled] else [])
    (if_neg (by omega)) fun k hk => ?_
  obtain ⟨R, M, ⟨u, hu, h⟩, hM⟩ := hrun k (by omega)
  obtain ⟨hlt, h18⟩ : wordAt n k < codeSz ∧ (wordAt n k = 18 ↔ k = 6 * n + 12) := by
    simp only [lastCycle, codeSz] at hle ⊢
    rw [wordAt]
    split_ifs <;> omega
  have hzero : 19 ≤ wordAt n k → M (CODE + wordAt n k) = some 0 := by
    intro hge
    have hMEMTOP : CODE + wordAt n k < TIMER := Nat.add_lt_add_left hlt CODE
    rw [hM _ (by omega) (by omega), storedBy, if_neg (by omega)]
    exact hbooted.code _ hge hlt
  refine ⟨u, hu, ?_⟩
  rw [bareCfg, h.callPrints false hlt hzero]
  split_ifs <;> first | rfl | omega

/-- **What is printed without peripherals.** For every `FIB_MAX` up to the start of the code
region and every number of cycles up to `lastCycle FIB_MAX`, address `a` is printed as the
Fibonacci number of its distance from the top, modulo `2 ^ 64`, if the cycles suffice for storing
it, and as zero if not; before it come the address of the timer and, if they suffice for the call
behind the loop, the line of the timer's routine. With more cycles `main` raises. -/
theorem main_prints {n N : ℕ} (hpos : 1 ≤ n) (hn : n ≤ CODE) (hN : N + 1 < 2 ^ 64) :
    (N ≤ lastCycle n → ∃ out, main false ⟨n, fib_lt hn⟩ N = some (.timerAddress ::
        ((if 6 * n + 13 ≤ N then [.irsCalled] else []) ++ [.memory out])) ∧
      out.size = n - (IVT + IVTsz) ∧ ∀ a, IVT + IVTsz ≤ a → a < n →
        out.get? (a - (IVT + IVTsz)) =
          some (if 16 + 6 * (n - 1 - a) ≤ N then .ofNat 64 (Nat.fib (n - a + 2)) else 0)) ∧
    (lastCycle n < N → main false ⟨n, fib_lt hn⟩ N = none) := by
  obtain ⟨ram', hlCode, start, hload, hstart, hbooted⟩ := exists_booted ⟨n, fib_lt hn⟩ hN
  have hregisters := hbooted.registers
  have hrunning : RunsTo (fibProg ⟨n, fib_lt hn⟩) hlCode start.st 0 0
      (fun r => (start.st.reg r).getD 0) start.st.load :=
    ⟨start.st, rfl, running_start hbooted.loaded (by rw [hregisters]; rfl)
      (by rw [St.reg, hregisters]; rfl) (by rw [St.reg, hregisters]; rfl)⟩
  obtain ⟨hrun, hraise⟩ := run_at hrunning rfl hpos hn hbooted.top hbooted.code
  rw [main_bare hload hstart hbooted.irqs]
  constructor
  · intro hle
    obtain ⟨R, M, ⟨t, ht, h⟩, hM⟩ := hrun N hle
    have hTIMER : CODE < TIMER := by decide
    have hload : ∀ a < CODE, t.load a = storedBy n N start.st.load a := by
      intro a ha
      rw [h.load, hM a (by omega) (by omega)]
    have hsize : n ≤ t.systemState.size := by
      have hlt : n - 1 < t.systemState.size := by
        rw [← Nat.not_le, ← NdArray.get?_eq_none_iff, ← ne_eq]
        show t.load (n - 1) ≠ none
        rw [hload _ (by omega), storedBy]
        split
        · exact Option.some_ne_none _
        · exact hbooted.top _ (by omega)
      omega
    refine ⟨t.systemState.slice (IVT + IVTsz) n, ?_, ?_, ?_⟩
    · rw [ht, outputs_at hbooted hn hle hrun]
      rfl
    · rw [NdArray.size_slice, Nat.min_eq_left hsize]
    · intro a ha hlt
      rw [NdArray.get?_slice, if_pos (by omega), Nat.add_sub_cancel' ha]
      show t.load a = _
      rw [hload a (by omega), storedBy, hbooted.data a ha (by omega)]
      by_cases hstored : 16 + 6 * (n - 1 - a) ≤ N
      · rw [if_pos ⟨hlt, hstored⟩, if_pos hstored]
      · rw [if_neg (fun hand => hstored hand.2), if_neg hstored]
  · intro hlt
    cases hiter : iter (machineStep hlCode) N start.st with
    | none => rfl
    | some t =>
        obtain ⟨u, hu⟩ := iter_prefix hiter (lastCycle n + 1) hlt
        rw [hraise] at hu
        cases hu

end

/-! The default options: the cycles end before the program does, and the print is complete. -/
section
attribute [local instance] exactDivision

theorem main_prints_default : ∃ out, main false 84 512 = some [.timerAddress, .memory out] ∧
    out.size = 68 ∧ out.get? 0 = some (.ofNat 64 (Nat.fib 70)) := by
  have hn : 84 ≤ CODE := by decide
  obtain ⟨out, hout, hsize, hget⟩ :=
    (main_prints (N := 512) (by decide) hn (by decide)).1 (by decide)
  have hfirst := hget 16 (by decide) (by decide)
  rw [if_pos (by decide)] at hfirst
  exact ⟨out, hout, hsize, hfirst⟩

end
end Osh.Advanced
