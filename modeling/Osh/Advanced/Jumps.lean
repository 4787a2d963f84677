import Osh.Advanced.Footprint
import Osh.Advanced.Interpreter

/-!
# Jumps, calls and returns from source to execution

The operand of a jump is the first component of the tuple that the decoder returns, and
the executor unpacks the second one, which is `None`: neither `B` nor `BL` can be
executed. `BX` cannot even be assembled, since `encodeInstruction` shifts an operand that
it has not read. A program works as far as jumps go when it has none.

## Main definitions

* `Src`, `SrcProgram`: source programs, with the return instruction.
* `About`: the processor is about to execute an entry of a program in memory.
* `BranchWorks`, `CallWorks`, `ReturnWorks`, `JumpsWork`: what the jumps should do.
-/
namespace Osh.Advanced
open PartialRun
variable {L : Type}

/-! ## Source programs -/

/-- A source instruction. The assembler reads one operand of `[BX, r]`. -/
inductive Src (L : Type) where
  | asm (a : Asm L)
  | bx (r : Reg)

namespace Src

def toInstr : Src L → Instr L
  | asm a => a.toInstr
  | bx r => ⟨BX, [.num r]⟩

def target : Src L → Option L
  | asm a => a.target
  | bx _ => none

/-- `B`, `BL` and `BX`. -/
def isJump : Src L → Bool
  | asm (.b _) | asm (.bl _) | bx _ => true
  | asm _ => false

end Src

abbrev SrcProgram (L : Type) := List (Option L × Src L)

/-- A source program in the form the assembler reads. -/
def SrcProgram.source (prog : SrcProgram L) : List (Option L × Instr L) :=
  prog.map fun e => (e.1, e.2.toInstr)

/-- A program without returns, as a source program. -/
def SrcProgram.ofAsm (prog : Program L) : SrcProgram L := prog.map fun e => (e.1, .asm e.2)

/-- Labels point backwards: each is defined at or before its uses. -/
def BackwardLabels (prog : SrcProgram L) : Prop :=
  ∀ i < prog.length, ∀ e ∈ prog[i]?, ∀ l ∈ e.2.target, ∃ d ≤ i, labelAt prog d = some l

instance [DecidableEq L] (prog : SrcProgram L) : Decidable (BackwardLabels prog) :=
  inferInstanceAs (Decidable (∀ i < prog.length, ∀ e ∈ prog[i]?, ∀ l ∈ e.2.target,
    ∃ d ≤ i, labelAt prog d = some l))

/-- The instruction at a position. -/
def instrAt (prog : SrcProgram L) (i : ℕ) : Option (Src L) := prog[i]?.map Prod.snd

/-- The instruction falls through, and it writes neither PC nor LR. -/
def Asm.Straight : Asm L → Prop
  | alu _ r1 _ _ | pop r1 _ _ | ldr r1 _ | mov r1 _ | set r1 _ => r1.val ≠ PC ∧ r1.val ≠ LR
  | push _ _ _ | str _ _ | nop | wfi => True
  | cbz _ _ | cbnz _ _ | b _ | bl _ => False
  | hli f => ∀ s t, f s = some t → t.reg PC = s.reg PC ∧ t.reg LR = s.reg LR

/-- A subroutine at position `d`: straight-line code of `m` instructions, and `[BX, LR]`. -/
def Subroutine (prog : SrcProgram L) (d m : ℕ) : Prop :=
  (∀ j < m, ∃ a, instrAt prog (d + j) = some (.asm a) ∧ a.Straight) ∧
    instrAt prog (d + m) = some (.bx ⟨LR, by decide⟩)

/-! ## What jumps should do -/

/-- The encoded program is in memory, and its high-level instructions are in the side table. -/
structure InMemory (es : List (Encoded L)) (hlCode : List HlEntry) (s : St) : Prop where
  word : ∀ i : ℕ, ∀ e ∈ es[i]?, s.load (CODE + i) = some e.loaded
  hli : ∀ i : ℕ, ∀ instr, es[i]? = some (.hli instr) → hlCode[i]? = some (hlEntry instr)

/-- The processor is awake and about to execute entry `i`. -/
structure About (es : List (Encoded L)) (hlCode : List HlEntry) (i : ℕ) (s : St) : Prop extends
    InMemory es hlCode s where
  pc : s.reg PC = some (.ofNat 64 (CODE + i))
  scr : s.reg SCR = some 0
  registers : s.registers.size = NREGS

section
variable [NumPy]

/-- The branch at position `i` continues at position `d`. -/
def BranchWorks (es : List (Encoded L)) (hlCode : List HlEntry) (i d : ℕ) : Prop :=
  ∀ s, About es hlCode i s → ∃ t, machineStep hlCode s = some t ∧
    t.reg PC = some (.ofNat 64 (CODE + d)) ∧ Frame {PC} ∅ s t

/-- The call at position `i` continues at position `d`, and LR says where to return. -/
def CallWorks (es : List (Encoded L)) (hlCode : List HlEntry) (i d : ℕ) : Prop :=
  ∀ s, About es hlCode i s → ∃ t, machineStep hlCode s = some t ∧
    t.reg PC = some (.ofNat 64 (CODE + d)) ∧ t.reg LR = some (.ofNat 64 (CODE + (i + 1))) ∧
    Frame {PC, LR} ∅ s t

/-- After the call at position `i` and the `m` instructions of the subroutine's body, which
leave the program in memory and the processor awake, the run continues after the call. -/
def ReturnWorks (es : List (Encoded L)) (hlCode : List HlEntry) (i m : ℕ) : Prop :=
  ∀ s, About es hlCode i s → ∀ t u, machineStep hlCode s = some t →
    iter (machineStep hlCode) m t = some u → InMemory es hlCode u → u.reg SCR = some 0 →
    ∃ v, machineStep hlCode u = some v ∧ v.reg PC = some (.ofNat 64 (CODE + (i + 1))) ∧
      Frame {PC} ∅ u v

/-- **Jumps, calls and returns work**: the program is assembled, and every jump in it to a
label goes to the label's latest definition. -/
def JumpsWork [DecidableEq L] (prog : SrcProgram L) : Prop :=
  ∃ es, encodeProgram prog.source = some es ∧ ∀ hlCode i l d, LatestDef prog i l d →
    (instrAt prog i = some (.asm (.b l)) → BranchWorks es hlCode i d) ∧
    (instrAt prog i = some (.asm (.bl l)) → CallWorks es hlCode i d ∧
      ∀ m, Subroutine prog d m → ReturnWorks es hlCode i m)

end

/-! ## Assembling -/

/-- Without an operand for its second field `BX` is not assembled. -/
theorem encodeInstruction_bx (r : Reg) (labels : L → Option ℕ) :
    encodeInstruction (Src.bx r : Src L).toInstr labels = none := by
  simp [Src.toInstr, encodeInstruction, readArg, argNum]

section
variable [DecidableEq L]

/-- An instruction that is never assembled stops the assembler. -/
theorem encodeFrom_eq_none {instrs : List (Option L × Instr L)} {e : Option L × Instr L}
    (he : e ∈ instrs) (hnone : ∀ labels, encodeInstruction e.2 labels = none) (pc : ℕ)
    (labels : L → Option ℕ) : encodeFrom pc labels instrs = none := by
  induction instrs generalizing pc labels with
  | nil => exact absurd he List.not_mem_nil
  | cons e' instrs ih =>
      rw [encodeFrom]
      rcases List.mem_cons.mp he with rfl | he
      · simp [hnone]
      · simp [ih he]

theorem encodeProgram_eq_none {prog : SrcProgram L} {e : Option L × Src L} (he : e ∈ prog)
    {r : Reg} (hbx : e.2 = .bx r) : encodeProgram prog.source = none := by
  have hmem : (e.1, e.2.toInstr) ∈ prog.source := List.mem_map.mpr ⟨e, he, rfl⟩
  exact encodeFrom_eq_none hmem (fun labels => hbx ▸ encodeInstruction_bx r labels) 0 _

end

/-- The rest are programs of the assembly language. -/
theorem exists_asm {prog : SrcProgram L} (h : ∀ e ∈ prog, ∀ r, e.2 ≠ .bx r) :
    ∃ prog' : Program L, prog = SrcProgram.ofAsm prog' := by
  induction prog with
  | nil => exact ⟨[], rfl⟩
  | cons e prog ih =>
      obtain ⟨prog', rfl⟩ := ih fun e he => h e (List.mem_cons_of_mem _ he)
      obtain ⟨label, src⟩ := e
      cases src with
      | asm a => exact ⟨(label, a) :: prog', rfl⟩
      | bx r => exact absurd rfl (h (label, .bx r) (List.mem_cons_self ..) r)

section
variable {prog : Program L}

theorem source_ofAsm : (SrcProgram.ofAsm prog).source = prog.source := by
  simp only [SrcProgram.ofAsm, SrcProgram.source, Program.source, List.map_map]
  rfl

theorem getElem?_ofAsm (i : ℕ) :
    (SrcProgram.ofAsm prog)[i]? = prog[i]?.map fun e => (e.1, .asm e.2) := List.getElem?_map

theorem labelAt_ofAsm (i : ℕ) : labelAt (SrcProgram.ofAsm prog) i = labelAt prog i := by
  rw [labelAt, getElem?_ofAsm, labelAt]
  cases prog[i]? <;> rfl

theorem labelsDefined_of_backwardLabels (h : BackwardLabels (SrcProgram.ofAsm prog)) :
    LabelsDefined prog := by
  intro i hi e he l hl
  obtain ⟨d, hd, hdl⟩ := h i (by rwa [SrcProgram.ofAsm, List.length_map]) (e.1, .asm e.2)
    (by rw [getElem?_ofAsm, Option.mem_def.mp he]; rfl) l hl
  exact ⟨d, hd, by rwa [labelAt_ofAsm] at hdl⟩

end

/-! ## Executing -/

/-- A state in which an assembled program is about to be executed at position `i`. -/
def aboutSt (es : List (Encoded L)) (i : ℕ) : St :=
  ⟨⟨CODE + es.length, fun a => (es[a.val - CODE]?.map Encoded.loaded).getD 0⟩,
    startRegisters.update PC (.ofNat 64 (CODE + i))⟩

/-- Its side table. -/
def aboutHlCode (es : List (Encoded L)) : List HlEntry :=
  es.map fun e => match e with
    | .hli instr => hlEntry instr
    | .word _ => .lambda

theorem about_aboutSt (es : List (Encoded L)) (i : ℕ) :
    About es (aboutHlCode es) i (aboutSt es i) := by
  refine ⟨⟨?_, ?_⟩, ?_, ?_, rfl⟩
  · intro j e he
    have hj : j < es.length := (List.getElem?_eq_some_iff.mp he).1
    have hlt : CODE + j < (aboutSt es i).systemState.size := Nat.add_lt_add_left hj CODE
    rw [St.load, NdArray.get?_of_lt hlt]
    show some ((es[CODE + j - CODE]?.map Encoded.loaded).getD 0) = _
    rw [Nat.add_sub_cancel_left, Option.mem_def.mp he]
    rfl
  · intro j instr he
    rw [aboutHlCode, List.getElem?_map, he]
    rfl
  · exact NdArray.get?_update_self (show PC < NREGS by decide) _
  · show (startRegisters.update PC (.ofNat 64 (CODE + i))).get? SCR = some 0
    rw [NdArray.get?_update_ne _ (by decide)]
    rfl

section
variable [NumPy]

/-- The executor takes the component of the tuple that holds `None`. -/
theorem executeInstruction_jump {instr : ℕ} (h : instr = B ∨ instr = BL) (x : Word) (s : St) :
    executeInstruction instr (.val x, .none, .none) s = none := by
  rcases h with rfl | rfl
  · rfl
  · show (s.reg PC).bind (fun pctr => (s.setReg LR pctr).bind fun _ => none) = none
    simp only [Option.bind_fun_none]

/-- No step executes an assembled branch or call. -/
theorem machineStep_jump [DecidableEq L] {prog : Program L} {es : List (Encoded L)}
    {hlCode : List HlEntry} (hlen : prog.length ≤ codeSz) (hlabels : LabelsDefined prog)
    (hes : encodeProgram prog.source = some es) {i : ℕ} {e : Option L × Asm L}
    (he : prog[i]? = some e) {l : L} (hjump : e.2 = .b l ∨ e.2 = .bl l) {s : St}
    (hs : About es hlCode i s) : machineStep hlCode s = none := by
  obtain ⟨es', hes', -, hget⟩ := encodeProgram_spec hlen hlabels
  obtain rfl : es = es' := Option.some.inj (hes.symm.trans hes')
  have hi : i < prog.length := (List.getElem?_eq_some_iff.mp he).1
  have hword : e.2.isWord := by rcases hjump with h | h <;> rw [h] <;> rfl
  have hargs : e.2.args (addressAt prog i) =
      (.val (.ofNat 64 (addressAt prog i l)), .none, .none) := by
    rcases hjump with h | h <;> rw [h] <;> rfl
  have hop : e.2.toInstr.opcode = B ∨ e.2.toInstr.opcode = BL := by
    rcases hjump with h | h <;> rw [h]
    · exact .inl rfl
    · exact .inr rfl
  have hres := resolved_of_labelsDefined hlen hlabels he
  have hload : s.load (CODE + i) = some (.ofNat 64 (e.2.encode (addressAt prog i))) := by
    refine hs.word i (.word (e.2.encode (addressAt prog i))) ?_
    rw [hget i e he, if_pos hword]
    rfl
  have hpc : (BitVec.ofNat 64 (CODE + i)).toNat = CODE + i := toNat_code (by omega)
  have hne := e.2.toNat_encode_ne_HLI hres hword
  obtain ⟨t, ht⟩ := St.exists_setReg hs.pc (.ofNat 64 (CODE + i) + 1)
  rw [← hpc] at hload
  rw [machineStep_of_word hs.scr hs.pc hload hne ht (e.2.decodeInstruction_encode hres hword),
    hargs, executeInstruction_jump hop]

/-- **Jumps, calls and returns work** in the programs without any, and in no others. -/
theorem jumpsWork_iff [DecidableEq L] {prog : SrcProgram L} (hlen : prog.length ≤ codeSz)
    (hlabels : BackwardLabels prog) : JumpsWork prog ↔ ∀ e ∈ prog, ¬ e.2.isJump := by
  constructor
  · rintro ⟨es, hes, hwork⟩ e he hjump
    have hnobx : ∀ e ∈ prog, ∀ r, e.2 ≠ .bx r := by
      intro e' he' r hbx
      rw [encodeProgram_eq_none he' hbx] at hes
      cases hes
    obtain ⟨prog', rfl⟩ := exists_asm hnobx
    rw [source_ofAsm] at hes
    have hlen' : prog'.length ≤ codeSz := by rwa [SrcProgram.ofAsm, List.length_map] at hlen
    have hdefined := labelsDefined_of_backwardLabels hlabels
    obtain ⟨i, he⟩ := List.mem_iff_getElem?.mp he
    rw [getElem?_ofAsm, Option.map_eq_some_iff] at he
    obtain ⟨⟨label, a⟩, ha, rfl⟩ := he
    have hat : instrAt (SrcProgram.ofAsm prog') i = some (.asm a) := by
      rw [instrAt, getElem?_ofAsm, ha]
      rfl
    have hi : i < prog'.length := (List.getElem?_eq_some_iff.mp ha).1
    have hs := about_aboutSt es i
    cases a with
    | b l =>
        obtain ⟨d, hd, hdl⟩ := hdefined i hi _ ha l rfl
        rw [← labelAt_ofAsm] at hdl
        obtain ⟨d', hlatest⟩ := exists_latestDef hd hdl
        obtain ⟨hbranch, -⟩ := hwork (aboutHlCode es) i l d' hlatest
        obtain ⟨t, ht, -⟩ := hbranch hat _ hs
        rw [machineStep_jump hlen' hdefined hes ha (.inl rfl) hs] at ht
        cases ht
    | bl l =>
        obtain ⟨d, hd, hdl⟩ := hdefined i hi _ ha l rfl
        rw [← labelAt_ofAsm] at hdl
        obtain ⟨d', hlatest⟩ := exists_latestDef hd hdl
        obtain ⟨-, hcall⟩ := hwork (aboutHlCode es) i l d' hlatest
        obtain ⟨t, ht, -⟩ := (hcall hat).1 _ hs
        rw [machineStep_jump hlen' hdefined hes ha (.inr rfl) hs] at ht
        cases ht
    | _ => cases hjump
  · intro hnone
    have hnobx : ∀ e ∈ prog, ∀ r, e.2 ≠ .bx r := by
      intro e he r hbx
      exact hnone e he (by rw [hbx]; rfl)
    obtain ⟨prog', rfl⟩ := exists_asm hnobx
    have hlen' : prog'.length ≤ codeSz := by rwa [SrcProgram.ofAsm, List.length_map] at hlen
    obtain ⟨es, hes, -⟩ := encodeProgram_spec hlen' (labelsDefined_of_backwardLabels hlabels)
    refine ⟨es, by rw [source_ofAsm, hes], ?_⟩
    intro hlCode i l d _
    have hat : ∀ src, instrAt (SrcProgram.ofAsm prog') i = some src → ¬ src.isJump := by
      intro src hsrc
      obtain ⟨e, he, rfl⟩ := Option.map_eq_some_iff.mp hsrc
      exact hnone e (List.mem_of_getElem? he)
    exact ⟨fun hb => absurd rfl (hat _ hb), fun hbl => absurd rfl (hat _ hbl)⟩

end

section
attribute [local instance] exactDivision

/-- A call to a subroutine of one instruction, defined before it. -/
def callBack : SrcProgram ℕ :=
  [(some 0, .asm (.cbz 1 0)), (some 1, .asm (.set 1 7)), (none, .bx ⟨LR, by decide⟩),
    (none, .asm (.bl 1))]

theorem jumpsWork_iff_callBack : JumpsWork callBack ↔ ∀ e ∈ callBack, ¬ e.2.isJump :=
  jumpsWork_iff (by decide) (by decide)

/-- A program that consists of one branch, to itself. -/
def spin : SrcProgram ℕ := [(some 0, .asm (.b 0))]

theorem spin_does_not_branch :
    ¬ ∀ prog : SrcProgram ℕ, prog.length ≤ codeSz → BackwardLabels prog → JumpsWork prog := by
  intro hclaim
  obtain ⟨es, hes, hwork⟩ := hclaim spin (by decide) (by decide)
  have hlatest : LatestDef spin 0 0 0 := ⟨le_rfl, rfl, fun e he he' => absurd he (by omega)⟩
  obtain ⟨t, ht, -⟩ := (hwork (aboutHlCode es) 0 0 0 hlatest).1 rfl _ (about_aboutSt es 0)
  have hspin : spin = SrcProgram.ofAsm [(some 0, .b 0)] := rfl
  rw [hspin, source_ofAsm] at hes
  have hnone := machineStep_jump (by decide) (by decide) hes (i := 0) rfl (.inl rfl)
    (about_aboutSt es 0)
  rw [hnone] at ht
  cases ht

end
end Osh.Advanced
