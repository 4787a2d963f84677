import Osh.Lib.PartialRun
import Osh.Advanced.Assembly

/-!
# A direct interpreter of symbolic programs, and the machine that simulates it

The interpreter is the meaning of a symbolic program: it looks up the instruction
at position `PC - CODE` of the list, reads operands from the instruction itself,
and lets a label stand for `CODE` plus its position. It knows nothing of words,
fields, the label table or the side table of high-level instructions. The main
result is that the processor, run on the assembled and loaded program, reaches the
same registers and memory step by step.

## Main definitions

* `Asm.exec`, `interpretStep`: one instruction, one step.
* `Undisturbed`: SCR is 0 and the program's words are as loaded.
* `Loaded`: memory and side table hold the program.
-/
namespace Osh.Advanced
open PartialRun
variable {L : Type}

/-! ## The interpreter -/

section
variable [NumPy]

/-- The operators on 64-bit values. Values are unsigned, so `asr` shifts in zeros. -/
def AluOp.eval : AluOp → Word → Word → Word
  | add, a, b => a + b
  | sub, a, b => a - b
  | mul, a, b => a * b
  | div, a, b => NumPy.truediv a b
  | and, a, b => a &&& b
  | orr, a, b => a ||| b
  | eor, a, b => a ^^^ b
  | asr, a, b => a >>> b.toNat
  | asl, a, b => a <<< b.toNat

/-- The effect of one symbolic instruction, after PC has been advanced. -/
def Asm.exec (address : L → ℕ) : Asm L → St → Option St
  | alu op r3 r1 r2, s => do s.setReg r3 (op.eval (← s.reg r1) (← s.reg r2))
  | push r1 _ _, s => do
      let sp ← s.reg SP
      let s ← s.store sp.toNat (← s.reg r1)
      s.setReg SP (sp + 1)
  | pop r1 _ _, s => do
      let sp ← s.reg SP
      let s ← s.setReg r1 (← s.load sp.toNat)
      s.setReg SP ((← s.reg SP) - 1)
  | ldr r1 addr, s => do s.setReg r1 (← s.load addr)
  | str r1 r2, s => do s.store (← s.reg r2).toNat (← s.reg r1)
  | mov r1 r2, s => do s.setReg r1 (← s.reg r2)
  | set r1 v2, s => s.setReg r1 (.ofNat 64 v2)
  | cbz r1 l, s => do
      if (← s.reg r1) = 0 then s.setReg PC (.ofNat 64 (address l)) else some s
  | cbnz r1 l, s => do
      if (← s.reg r1) ≠ 0 then s.setReg PC (.ofNat 64 (address l)) else some s
  | b l, s => s.setReg PC (.ofNat 64 (address l))
  | bl l, s => do
      let s ← s.setReg LR (← s.reg PC)
      s.setReg PC (.ofNat 64 (address l))
  | nop, s => some s
  | wfi, s => s.setReg SCR 1
  | hli f, s => f s

end

/-- The address of a label: `CODE` plus its position in the program. -/
def Program.address [DecidableEq L] (prog : Program L) (l : L) : ℕ :=
  CODE + prog.findIdx fun e => e.1 = some l

section
variable [NumPy] [DecidableEq L]

/-- One step of the interpreter; there is none when PC is outside the program. -/
def interpretStep (prog : Program L) (s : St) : Option St := do
  let pc ← s.reg PC
  if CODE ≤ pc.toNat then
    let entry ← prog[pc.toNat - CODE]?
    let s ← s.setReg PC (pc + 1)
    entry.2.exec prog.address s
  else none

end

/-- No label is defined twice. -/
def LabelsDistinct (prog : Program L) : Prop :=
  ∀ d < prog.length, ∀ e < d, labelAt prog e ≠ none → labelAt prog e ≠ labelAt prog d

instance [DecidableEq L] (prog : Program L) : Decidable (LabelsDistinct prog) :=
  inferInstanceAs (Decidable (∀ d < prog.length, ∀ e < d,
    labelAt prog e ≠ none → labelAt prog e ≠ labelAt prog d))

/-- The instructions whose execution follows their meaning. The processor unpacks
the operand of `b` and `bl` wrongly and executes `wfi` as `nop`. -/
def Asm.simulable : Asm L → Bool
  | b _ | bl _ | wfi => false
  | _ => true

/-- SCR is 0 and the `n` words from CODE on are those of the state `s0`. -/
def Undisturbed (n : ℕ) (s0 s : St) : Prop :=
  s.reg SCR = some 0 ∧ ∀ i < n, s.load (CODE + i) = s0.load (CODE + i)

instance (n : ℕ) (s0 s : St) : Decidable (Undisturbed n s0 s) :=
  inferInstanceAs (Decidable (_ ∧ ∀ i < n, _))

/-! ## One instruction -/

/-- With distinct labels the latest definition of a label is its position. -/
theorem addressAt_eq [DecidableEq L] {prog : Program L} (hdistinct : LabelsDistinct prog)
    {i d : ℕ} {l : L} (h : LatestDef prog i l d) : addressAt prog i l = prog.address l := by
  rw [addressAt_of_latestDef h, Program.address]
  congr 1
  have hdef := h.defines
  simp only [labelAt, Option.bind_eq_some_iff] at hdef
  obtain ⟨e, he, hel⟩ := hdef
  obtain ⟨hd, rfl⟩ := List.getElem?_eq_some_iff.mp he
  refine ((List.findIdx_eq hd).mpr ⟨decide_eq_true hel, ?_⟩).symm
  intro j hj
  have hne := hdistinct d hd j hj
  have hj' : labelAt prog j = prog[j].1 := by simp [labelAt, Nat.lt_trans hj hd]
  rw [h.defines, hj'] at hne
  by_contra hcon
  have heq : prog[j].1 = some l := by simpa using hcon
  exact hne (by rw [heq]; simp) heq

/-- The address after the one that a word holds. -/
theorem ofNat_succ (n : ℕ) : BitVec.ofNat 64 n + 1 = .ofNat 64 (n + 1) := by
  rw [BitVec.ofNat_add]
  rfl

/-- The addresses of the code region are words. -/
theorem toNat_code {i : ℕ} (hi : i ≤ codeSz) : (BitVec.ofNat 64 (CODE + i)).toNat = CODE + i := by
  simp only [codeSz] at hi
  rw [BitVec.toNat_ofNat, CODE_eq]
  omega

theorem toNat_reg (r : Reg) : (BitVec.ofNat 64 r.val).toNat = r.val := by
  rw [BitVec.toNat_ofNat]
  omega

theorem toNat_imm (x : Imm) : (BitVec.ofNat 64 x.val).toNat = x.val := by
  rw [BitVec.toNat_ofNat]
  omega

section
variable [NumPy]

theorem alu_eval (op : AluOp) : alu[op.opcode]? = some op.eval := by cases op <;> rfl

/-- Executing a decoded instruction is its symbolic effect. -/
theorem executeInstruction_args {address : L → ℕ} (a : Asm L) (h : a.simulable) (s : St) :
    executeInstruction a.toInstr.opcode (a.args address) s = a.exec address s := by
  cases a with
  | alu op r3 r1 r2 =>
      simp only [Asm.toInstr, Asm.args, executeInstruction_alu _ _ _ _ op.opcode_le, alu_eval,
        toNat_reg]
      rfl
  | push r1 r2 r3 =>
      simp only [Asm.toInstr, Asm.args, executeInstruction_PUSH, toNat_reg, Asm.exec]
      -- the processor reads SP again after the store, which leaves it alone
      cases hsp : s.reg SP with
      | none => rfl
      | some sp =>
          cases hr1 : s.reg r1.val with
          | none => rfl
          | some v =>
              cases ht : s.store sp.toNat v with
              | none => simp only [Option.bind_eq_bind, Option.bind_some, ht, Option.bind_none]
              | some t =>
                  simp only [Option.bind_eq_bind, Option.bind_some, ht, St.reg_of_store ht, hsp]
  | pop r1 r2 r3 =>
      simp only [Asm.toInstr, Asm.args, executeInstruction_POP, toNat_reg, Asm.exec]
  | ldr r1 addr =>
      simp only [Asm.toInstr, Asm.args, executeInstruction_LDR, toNat_reg, toNat_imm, Asm.exec]
  | str r1 r2 =>
      simp only [Asm.toInstr, Asm.args, executeInstruction_STR, toNat_reg, Asm.exec]
  | mov r1 r2 =>
      simp only [Asm.toInstr, Asm.args, executeInstruction_MOV, toNat_reg, Asm.exec]
  | set r1 v2 =>
      simp only [Asm.toInstr, Asm.args, executeInstruction_SET, toNat_reg, Asm.exec]
  | cbz r1 l =>
      simp only [Asm.toInstr, Asm.args, executeInstruction_CBZ, toNat_reg, Asm.exec]
  | cbnz r1 l =>
      simp only [Asm.toInstr, Asm.args, executeInstruction_CBNZ, toNat_reg, Asm.exec]
  | nop => rfl
  | hli f => rfl
  | b l | bl l | wfi => cases h

/-- The meaning of an instruction depends on labels only through its own target. -/
theorem exec_congr {f g : L → ℕ} (a : Asm L) (h : ∀ l ∈ a.target, f l = g l) (s : St) :
    a.exec f s = a.exec g s := by
  cases a with
  | cbz r1 l | cbnz r1 l | b l | bl l => simp only [Asm.exec, h l rfl]
  | _ => rfl

/-! ## Loaded programs -/

/-- RAM and side table hold the assembled program from `CODE` on. -/
structure Loaded [DecidableEq L] (prog : Program L) (s : St) (hlCode : List HlEntry) : Prop where
  word : ∀ i : ℕ, ∀ e ∈ prog[i]?, e.2.isWord →
    s.load (CODE + i) = some (.ofNat 64 (e.2.encode (addressAt prog i)))
  hli : ∀ i : ℕ, ∀ l f, prog[i]? = some (l, .hli f) →
    s.load (CODE + i) = some (.ofNat 64 HLI) ∧ hlCode[i]? = some (.list (some f))

omit [NumPy] in
/-- A program stays loaded while its words stay as they are. -/
theorem Loaded.congr [DecidableEq L] {prog : Program L} {s t : St} {hlCode : List HlEntry}
    (h : Loaded prog s hlCode) (hst : ∀ i < prog.length, t.load (CODE + i) = s.load (CODE + i)) :
    Loaded prog t hlCode := by
  constructor
  · intro i e he hw
    rw [hst i (List.getElem?_eq_some_iff.mp he).1]
    exact h.word i e he hw
  · intro i l f he
    rw [hst i (List.getElem?_eq_some_iff.mp he).1]
    exact h.hli i l f he

omit [NumPy] in
/-- `load_code` accepts the program and leaves it loaded. -/
theorem loadCode_spec [DecidableEq L] {prog : Program L} (hlen : prog.length ≤ hlCodeSz)
    (hlabels : LabelsDefined prog) {ramState : NdArray Word} (hram : ramState.size = ramStateSz) :
    ∃ ram' hlCode, loadCode prog.source ramState = some (ram', hlCode) ∧
      ∀ devices registers, Loaded prog ⟨ram' ++ devices, registers⟩ hlCode := by
  have hcode : prog.length ≤ codeSz := by
    simp only [hlCodeSz, codeSz] at hlen ⊢
    omega
  obtain ⟨es, hes, hlength, hget⟩ := encodeProgram_spec hcode hlabels
  have hfit : CODE + 0 + es.length ≤ ramState.size := by
    rw [hram, hlength, CODE_eq]
    simp only [hlCodeSz, ramStateSz] at hlen ⊢
    omega
  have hwords : ∀ iw, Encoded.word iw ∈ es → iw < 2 ^ 64 := by
    intro iw hiw
    obtain ⟨i, hi, hiwi⟩ := List.getElem_of_mem hiw
    have he : prog[i]? = some prog[i] := List.getElem?_eq_getElem (by omega)
    have h := hget i _ he
    rw [List.getElem?_eq_getElem hi, hiwi] at h
    split at h
    · cases h
      exact prog[i].2.encode_lt (resolved_of_labelsDefined hcode hlabels he)
    · cases h
  obtain ⟨ram', hlCode, hload, hsize, -, -, hloaded⟩ :=
    loadFrom_spec es 0 ramState initialHlCode hfit
      (by simp only [initialHlCode, List.length_replicate]; omega) hwords
  refine ⟨ram', hlCode, by simp [loadCode, hes, hload], ?_⟩
  intro devices registers
  have hread : ∀ i < prog.length, (⟨ram' ++ devices, registers⟩ : St).load (CODE + i) =
      ram'.get? (CODE + i) := by
    intro i hi
    exact NdArray.get?_append_left (by omega)
  constructor
  · intro i e he hw
    have hi : i < prog.length := (List.getElem?_eq_some_iff.mp he).1
    have h := hget i e he
    rw [hw] at h
    rw [hread i hi]
    exact (hloaded i _ h).1
  · intro i l f he
    have hi : i < prog.length := (List.getElem?_eq_some_iff.mp he).1
    obtain ⟨hword, hentry⟩ := hloaded i _ (hget i _ he)
    rw [hread i hi]
    refine ⟨hword, ?_⟩
    have h := hentry _ rfl
    rwa [Nat.zero_add] at h

/-! ## Simulation -/

/-- The configuration without peripherals and without high-level code. -/
def bareCfg (hlCode : List HlEntry) : Cfg := ⟨false, false, hlCode⟩

/-- One call of `processorAction` without peripherals. -/
def machineStep (hlCode : List HlEntry) (s : St) : Option St :=
  (processorAction (bareCfg hlCode) [] s).map Prod.snd

theorem machineStep_eq (hlCode : List HlEntry) (s : St) :
    machineStep hlCode s = fetchDecodeExecute (bareCfg hlCode) s := by
  simp only [machineStep, processorAction, interruptCheck, bareCfg, Bool.false_eq_true, if_false,
    Option.bind_eq_bind, Option.bind_some, Option.map_bind]
  cases fetchDecodeExecute ⟨false, false, hlCode⟩ s <;> rfl

/-- A word that is no high-level instruction is fetched, decoded and executed. -/
theorem machineStep_of_word {hlCode : List HlEntry} {s u : St} {pc w : Word} {instr : ℕ}
    {args : Arg × Arg × Arg} (hscr : s.reg SCR = some 0) (hpc : s.reg PC = some pc)
    (hw : s.load pc.toNat = some w) (hne : w.toNat ≠ HLI) (hu : s.setReg PC (pc + 1) = some u)
    (hdecode : decodeInstruction (.word w) = some (instr, args)) :
    machineStep hlCode s = executeInstruction instr args u := by
  have huscr : u.reg SCR = some 0 := by rw [St.reg_of_setReg hu, if_neg (by decide), hscr]
  have hfetch : fetchInstruction (bareCfg hlCode) s = some (.word w, u) := by
    refine fetchInstruction_eq_some_iff.mpr ⟨pc, w, hpc, hw, ?_, hu⟩
    simp only [lookupInstruction, bareCfg, Bool.false_eq_true, if_false, if_neg hne]
  rw [machineStep_eq, fetchDecodeExecute_awake rfl hfetch huscr hdecode]

/-- What a step that does not fetch a high-level instruction has done. -/
theorem exists_word_of_machineStep {hlCode : List HlEntry} {s t : St}
    (hscr : s.reg SCR = some 0)
    (hne : ∀ pc w, s.reg PC = some pc → s.load pc.toNat = some w → w.toNat ≠ HLI)
    (h : machineStep hlCode s = some t) :
    ∃ pc w u, s.reg PC = some pc ∧ s.load pc.toNat = some w ∧ s.setReg PC (pc + 1) = some u ∧
      executeInstruction (decodeInstr w).toNat (decodeArgs (decodeInstr w).toNat w) u =
        some t := by
  obtain ⟨⟨ir, u⟩, hfetch, -⟩ := Option.bind_eq_some_iff.mp ((machineStep_eq hlCode s).symm.trans h)
  obtain ⟨pc, w, hpc, hw, -, hu⟩ := fetchInstruction_eq_some_iff.mp hfetch
  refine ⟨pc, w, u, hpc, hw, hu, ?_⟩
  rw [← machineStep_of_word hscr hpc hw (hne pc w hpc hw) hu rfl, h]

/-- A loaded instruction, fetched and decoded, is executed with its own meaning. -/
theorem machineStep_of_entry [DecidableEq L] {prog : Program L} {hlCode : List HlEntry}
    (hlen : prog.length ≤ hlCodeSz) (hlabels : LabelsDefined prog)
    (hdistinct : LabelsDistinct prog) {s u : St} {pc : Word} {i : ℕ} {label : Option L}
    {a : Asm L} (hloaded : Loaded prog s hlCode) (hscr : s.reg SCR = some 0)
    (hpc : s.reg PC = some pc) (hi : pc.toNat = CODE + i) (hentry : prog[i]? = some (label, a))
    (hsim : a.simulable) (hu : s.setReg PC (pc + 1) = some u) :
    machineStep hlCode s = a.exec prog.address u := by
  have hcode : prog.length ≤ codeSz := by
    simp only [hlCodeSz, codeSz] at hlen ⊢
    omega
  by_cases hw : a.isWord
  · -- an ordinary word, decoded to the instruction's opcode and operands
    have hres := resolved_of_labelsDefined hcode hlabels hentry
    have hload := hloaded.word i _ hentry hw
    have hne := a.toNat_encode_ne_HLI hres hw
    rw [← hi] at hload
    rw [machineStep_of_word hscr hpc hload hne hu (a.decodeInstruction_encode hres hw),
      executeInstruction_args a hsim]
    refine exec_congr a ?_ u
    intro l hl
    have hilt : i < prog.length := (List.getElem?_eq_some_iff.mp hentry).1
    obtain ⟨d, hd, hdl⟩ := hlabels i hilt _ hentry l hl
    obtain ⟨d', hlatest⟩ := exists_latestDef hd hdl
    exact addressAt_eq hdistinct hlatest
  · -- a high-level instruction, substituted by the fetch
    cases a with
    | hli f =>
        obtain ⟨hload, hentry⟩ := hloaded.hli i label f hentry
        have hfetch : fetchInstruction (bareCfg hlCode) s = some (.entry (.list (some f)), u) := by
          refine fetchInstruction_eq_some_iff.mpr ⟨pc, _, hpc, by rw [hi]; exact hload, ?_, hu⟩
          have hindex : pyIndex hlCode ((pc.toNat : ℤ) - CODE) = some (.list (some f)) := by
            rw [show ((pc.toNat : ℤ) - CODE) = (i : ℤ) by omega, pyIndex, if_pos (by omega)]
            exact hentry
          simp only [lookupInstruction, bareCfg, Bool.false_eq_true, if_false, hindex]
          rfl
        have huscr : u.reg SCR = some 0 := by rw [St.reg_of_setReg hu, if_neg (by decide), hscr]
        rw [machineStep_eq, fetchDecodeExecute_awake rfl hfetch huscr rfl]
        rfl
    | _ => exact absurd rfl hw

/-- A step of the interpreter at a simulable instruction is a step of the machine. -/
theorem machineStep_of_interpretStep [DecidableEq L] {prog : Program L} {hlCode : List HlEntry}
    (hlen : prog.length ≤ hlCodeSz) (hlabels : LabelsDefined prog)
    (hdistinct : LabelsDistinct prog) (hsim : ∀ e ∈ prog, e.2.simulable) {s t : St}
    (hloaded : Loaded prog s hlCode) (hscr : s.reg SCR = some 0)
    (h : interpretStep prog s = some t) : machineStep hlCode s = some t := by
  simp only [interpretStep, Option.bind_eq_bind, Option.bind_eq_some_iff] at h
  obtain ⟨pc, hpc, h⟩ := h
  by_cases hge : CODE ≤ pc.toNat
  case neg => simp [hge] at h
  rw [if_pos hge, Option.bind_eq_some_iff] at h
  obtain ⟨⟨label, a⟩, hentry, h⟩ := h
  rw [Option.bind_eq_some_iff] at h
  obtain ⟨u, hu, hexec⟩ := h
  rw [← hexec]
  exact machineStep_of_entry hlen hlabels hdistinct hloaded hscr hpc (by omega) hentry
    (hsim _ (List.mem_of_getElem? hentry)) hu

/-- **The machine simulates the source program.** A program over the simulable
instructions, with distinct labels defined before their uses, is assembled and
loaded, and then as many calls of `processorAction` as the interpreter takes steps
reach the interpreter's registers and memory, as long as SCR stays 0 and the
program's words stay as they are. -/
theorem machineStep_simulates [DecidableEq L] {prog : Program L}
    (hlen : prog.length ≤ hlCodeSz) (hlabels : LabelsDefined prog)
    (hdistinct : LabelsDistinct prog) (hsim : ∀ e ∈ prog, e.2.simulable)
    {ramState : NdArray Word} (hram : ramState.size = ramStateSz) :
    ∃ ram' hlCode, loadCode prog.source ramState = some (ram', hlCode) ∧
      ∀ (devices registers : NdArray Word) (k : ℕ) (t : St),
        let s0 : St := ⟨ram' ++ devices, registers⟩
        (∀ j < k, ∀ u ∈ iter (interpretStep prog) j s0, Undisturbed prog.length s0 u) →
        iter (interpretStep prog) k s0 = some t →
        iter (machineStep hlCode) k s0 = some t := by
  obtain ⟨ram', hlCode, hload, hloaded⟩ := loadCode_spec hlen hlabels hram
  refine ⟨ram', hlCode, hload, ?_⟩
  intro devices registers k t s0 hquiet ht
  have h0 : Loaded prog s0 hlCode := hloaded devices registers
  -- the program's words are those of the initial state, so they stay loaded
  have hkept : ∀ u, Undisturbed prog.length s0 u → Loaded prog u hlCode := fun u hu => h0.congr hu.2
  obtain ⟨t', ht', rfl⟩ := iter_simulation (g := machineStep hlCode) (fun _ u v => u = v) rfl
    (by
      rintro j u u' _ hj hu rfl huu'
      have hq := hquiet j hj u hu
      exact ⟨u', machineStep_of_interpretStep hlen hlabels hdistinct hsim (hkept u hq) hq.1 huu',
        rfl⟩) ht
  exact ht'

end

/-! A run of five steps through a label, a branch and a high-level instruction. -/
section
attribute [local instance] exactDivision

/-- Add register 1 to register 2, and jump back while register 1 is not zero. -/
def accumulate : Program ℕ :=
  [(none, .set 1 3), (some 7, .alu .add 2 2 1), (none, .hli fun s => s.setReg 3 9),
    (none, .cbnz 1 7)]

theorem machineStep_simulates_accumulate :
    ∃ ram' hlCode, loadCode accumulate.source (.fill ramStateSz 0) = some (ram', hlCode) ∧
      ∃ t, iter (interpretStep accumulate) 5 ⟨ram' ++ .fill 16 0, startRegisters⟩ = some t ∧
        iter (machineStep hlCode) 5 ⟨ram' ++ .fill 16 0, startRegisters⟩ = some t := by
  obtain ⟨ram', hlCode, hload, hrun⟩ := machineStep_simulates
    (show accumulate.length ≤ hlCodeSz by decide) (by decide) (by decide) (by decide)
    (NdArray.size_fill ramStateSz 0)
  refine ⟨ram', hlCode, hload, ?_⟩
  have hram : ram' =
      ((loadCode accumulate.source (.fill ramStateSz 0)).map Prod.fst).getD (.fill 0 0) := by
    rw [hload]
    rfl
  have hsome : (iter (interpretStep accumulate) 5
      ⟨ram' ++ .fill 16 0, startRegisters⟩).isSome := by
    rw [hram]
    decide +kernel
  obtain ⟨t, ht⟩ := Option.isSome_iff_exists.mp hsome
  refine ⟨t, ht, hrun (.fill 16 0) startRegisters 5 t ?_ ht⟩
  rw [hram]
  decide +kernel

end
end Osh.Advanced
