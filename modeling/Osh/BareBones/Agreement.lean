import Osh.Advanced.Interpreter
import Osh.BareBones.Processor

/-!
# The bare-bones processor against the advanced one

The bare-bones state is read off the advanced one: every word as the integer it stands for,
and the first 16 registers. Fetch, decode and the operators are the same in both as long as
results are words. `LDR` raises in the bare-bones model, and its `CBZ` branches on a value
that is not zero.

## Main definitions

* `memory`, `registers`: the bare-bones state.
* `Executes s u pc w`: an instruction that both models are to execute alike.
* `Agrees`: the step of the bare-bones processor is that of the advanced one.
-/
namespace Osh.BareBones
open Advanced (St Word NumPy)

/-! ## Words as integers -/

section
variable [PyFloat]

/-- The list of the integers that the words stand for. -/
def words (a : NdArray Word) : Seq := .list (a.toList.map fun w => .int w.toNat)

def memory (s : St) : Seq := words s.systemState

/-- The first 16 registers. -/
def registers (s : St) : Seq := words (s.registers.slice 0 16)

variable {a : NdArray Word} {s t : St} {i r : ℕ} {v : Word}

theorem getItem_words (h : a.get? i = some v) :
    (words a).getItem (.int i) = some (.int v.toNat) := by
  have hi : (0 : ℤ) ≤ i := by omega
  simp only [Seq.getItem, words, Seq.items, Advanced.pyIndex, if_pos hi, Int.toNat_natCast,
    List.getElem?_map, NdArray.getElem?_toList, h, Option.map_some]

theorem setItem_words (h : i < a.size) (x : Value) :
    (words a).setItem (.int i) x = some (.list ((a.toList.map fun w => .int w.toNat).set i x)) := by
  have hi : (0 : ℤ) ≤ i := by omega
  have hlt : (i : ℤ) < a.size := by omega
  simp only [Seq.setItem, words, List.length_map, NdArray.length_toList, if_pos hi, if_pos hlt,
    Int.toNat_natCast]

theorem setItem_words_word (h : i < a.size) (v : Word) :
    (words a).setItem (.int i) (.int v.toNat) = some (words (a.update i v)) := by
  rw [setItem_words h, words, NdArray.toList_update, List.map_set]

theorem getItem_registers (hr : r < 16) (h : s.reg r = some v) :
    (registers s).getItem (.int r) = some (.int v.toNat) := by
  refine getItem_words ?_
  rw [NdArray.get?_slice, if_pos (by omega), Nat.zero_add]
  exact h

omit [PyFloat] in
theorem lt_size_slice (hr : r < 16) (h : s.setReg r v = some t) :
    r < (s.registers.slice 0 16).size := by
  obtain ⟨hlt, -⟩ := St.setReg_eq_some_iff.mp h
  rw [NdArray.size_slice]
  omega

theorem setItem_registers (hr : r < 16) (h : s.setReg r v = some t) :
    (registers s).setItem (.int r) (.int v.toNat) = some (registers t) := by
  obtain ⟨-, rfl⟩ := St.setReg_eq_some_iff.mp h
  rw [registers, setItem_words_word (lt_size_slice hr h), registers, NdArray.slice_zero_update]

theorem memory_of_setReg (h : s.setReg r v = some t) : memory t = memory s := by
  rw [memory, memory, St.systemState_of_setReg h]

end

/-! ## Decode -/

section
variable (w : Word)

theorem decodeInstr_word : decodeInstr w.toNat = (Advanced.decodeInstr w).toNat := by
  rw [Advanced.decodeInstr, BitVec.toNat_and]
  rfl

theorem field_word (k : ℕ) : Int.land ((w.toNat : ℤ) >>> k) 0xFF = (w >>> k &&& 0xFF).toNat := by
  rw [BitVec.toNat_and, BitVec.toNat_ushiftRight]
  rfl

theorem shift_word (k : ℕ) : (w.toNat : ℤ) >>> k = (w >>> k).toNat := by
  rw [BitVec.toNat_ushiftRight]
  rfl

variable [PyFloat]

theorem decodeRegAddrArgs_word : decodeRegAddrArgs w.toNat =
    .tuple (.int (w >>> 8 &&& 0xFF).toNat) (.int (w >>> 16).toNat) .none := by
  rw [decodeRegAddrArgs, field_word, shift_word]

theorem decode3regArgs_word : decode3regArgs w.toNat =
    .tuple (.int (w >>> 8 &&& 0xFF).toNat) (.int (w >>> 16 &&& 0xFF).toNat)
      (.int (w >>> 24 &&& 0xFF).toNat) := by
  rw [decode3regArgs, field_word, field_word, field_word]

end

/-! ## Operators -/

/-- The operators that have an integer for a result. -/
def operators : List ℕ :=
  [Advanced.ADD, Advanced.SUB, Advanced.MUL, Advanced.AND, Advanced.ORR, Advanced.EOR,
    Advanced.ASR, Advanced.ASL]

section
variable [PyFloat] {x y : Word} {instr : ℕ}

/-- Both models decode an operator and three registers. -/
theorem decodeArgs_operator (hinstr : instr ∈ operators) (w : Word) :
    Advanced.decodeArgs instr w = Advanced.decode3regArgs w ∧
      decodeArgs instr w.toNat = decode3regArgs w.toNat := by
  simp only [operators, List.mem_cons, List.not_mem_nil, or_false] at hinstr
  rcases hinstr with rfl | rfl | rfl | rfl | rfl | rfl | rfl | rfl <;> exact ⟨rfl, rfl⟩

/-- The result of the operator, as the bare-bones model computes it, is a word. -/
def ResultIsWord (instr : ℕ) (x y : Word) : Prop :=
  ∀ op ∈ Advanced.pyIndex alu instr, ∀ z : ℤ, op (.int x.toNat) (.int y.toNat) = some (.int z) →
    0 ≤ z ∧ z < 2 ^ 64

/-- Both tables compute the same result when it is a word. -/
theorem alu_agrees [NumPy] (hinstr : instr ∈ operators) (hresult : ResultIsWord instr x y) :
    ∃ op aop, Advanced.alu[instr]? = some aop ∧ Advanced.pyIndex alu instr = some op ∧
      op (.int x.toNat) (.int y.toNat) = some (.int (aop x y).toNat) := by
  simp only [operators, List.mem_cons, List.not_mem_nil, or_false] at hinstr
  rcases hinstr with rfl | rfl | rfl | rfl | rfl | rfl | rfl | rfl
  · -- addition
    have hlt : (x.toNat : ℤ) + y.toNat < 2 ^ 64 := (hresult _ rfl _ rfl).2
    refine ⟨_, _, rfl, rfl, ?_⟩
    have h : (x + y).toNat = x.toNat + y.toNat := BitVec.toNat_add_of_lt (by omega)
    simp only [add, arithmetic, h, Nat.cast_add]
  · -- subtraction
    have hge : (0 : ℤ) ≤ x.toNat - y.toNat := (hresult _ rfl _ rfl).1
    refine ⟨_, _, rfl, rfl, ?_⟩
    have hle : y.toNat ≤ x.toNat := by omega
    have h : (x - y).toNat = x.toNat - y.toNat := BitVec.toNat_sub_of_le hle
    simp only [arithmetic, h, Nat.cast_sub hle]
  · -- multiplication
    have hlt : (x.toNat : ℤ) * y.toNat < 2 ^ 64 := (hresult _ rfl _ rfl).2
    refine ⟨_, _, rfl, rfl, ?_⟩
    have h : (x * y).toNat = x.toNat * y.toNat := by
      rw [BitVec.toNat_mul, Nat.mod_eq_of_lt (by exact_mod_cast hlt)]
    simp only [arithmetic, h, Nat.cast_mul]
  · refine ⟨_, _, rfl, rfl, ?_⟩
    rw [BitVec.toNat_and]
    rfl
  · refine ⟨_, _, rfl, rfl, ?_⟩
    rw [BitVec.toNat_or]
    rfl
  · refine ⟨_, _, rfl, rfl, ?_⟩
    rw [BitVec.toNat_xor]
    rfl
  · -- right shift
    refine ⟨_, _, rfl, rfl, ?_⟩
    have hy : (0 : ℤ) ≤ y.toNat := by omega
    simp only [bitwise, rshift, if_pos hy, Int.toNat_natCast, BitVec.toNat_ushiftRight,
      Option.map_some]
    rfl
  · -- left shift
    have hy : (0 : ℤ) ≤ y.toNat := by omega
    have hop : bitwise lshift (.int x.toNat) (.int y.toNat) =
        some (.int (x.toNat * 2 ^ y.toNat)) := by
      simp only [bitwise, lshift, if_pos hy, Int.toNat_natCast, Option.map_some]
    have hlt : x.toNat * 2 ^ y.toNat < 2 ^ 64 := by exact_mod_cast (hresult _ rfl _ hop).2
    refine ⟨_, _, rfl, rfl, ?_⟩
    have h : (x <<< y.toNat).toNat = x.toNat * 2 ^ y.toNat := by
      rw [BitVec.toNat_shiftLeft, Nat.shiftLeft_eq, Nat.mod_eq_of_lt hlt]
    rw [hop, h, Nat.cast_mul, Nat.cast_pow, Nat.cast_ofNat]

end

/-! ## A step of the processors -/

/-- The registers that the instruction names. -/
def namedRegisters (w : Word) : List ℕ :=
  let opcode := (Advanced.decodeInstr w).toNat
  if opcode = Advanced.LDR ∨ opcode = Advanced.CBZ then [(w >>> 8 &&& 0xFF).toNat]
  else [(w >>> 8 &&& 0xFF).toNat, (w >>> 16 &&& 0xFF).toNat, (w >>> 24 &&& 0xFF).toNat]

section
variable [PyFloat]

/-- The state `s` is about to execute the word `w` at `pc`, and `u` is the state with PC
advanced. The instruction is `LDR`, `CBZ` or one of the operators, it names registers below
16, and its result is a word. -/
structure Executes (s u : St) (pc w : Word) : Prop where
  size_registers : s.registers.size = Advanced.NREGS
  scr : s.reg Advanced.SCR = some 0
  fetched : s.reg Advanced.PC = some pc
  word : s.load pc.toNat = some w
  next : s.setReg Advanced.PC (pc + 1) = some u
  next_lt : pc.toNat + 1 < 2 ^ 64
  opcode : (Advanced.decodeInstr w).toNat ∈ Advanced.LDR :: Advanced.CBZ :: operators
  named : ∀ r ∈ namedRegisters w, r < 16
  result : ∀ x ∈ u.reg (w >>> 16 &&& 0xFF).toNat, ∀ y ∈ u.reg (w >>> 24 &&& 0xFF).toNat,
    ResultIsWord (Advanced.decodeInstr w).toNat x y

/-- The bare-bones processor does not raise, and leaves R0..R15 and the memory as the
advanced one does. -/
def Agrees [NumPy] (hlCode : List Advanced.HlEntry) (s : St) : Prop :=
  ∃ t, Advanced.machineStep hlCode s = some t ∧
    processorAction (memory s) (registers s) = some (memory t, registers t)

variable {s t u : St} {pc w x : Word} {r : ℕ} {hlCode : List Advanced.HlEntry}

namespace Executes
variable (h : Executes s u pc w)
include h

theorem reg_next (hr : r < 16) : ∃ v, u.reg r = some v := by
  refine NdArray.exists_get? ?_
  obtain ⟨-, rfl⟩ := St.setReg_eq_some_iff.mp h.next
  have hsize := h.size_registers
  simp only [Advanced.NREGS] at hsize
  simp only [NdArray.size_update, hsize]
  omega

theorem pc_next : u.reg Advanced.PC = some (pc + 1) := by
  rw [St.reg_of_setReg h.next, if_pos rfl]

theorem machineStep_eq [NumPy] : Advanced.machineStep hlCode s =
    Advanced.executeInstruction (Advanced.decodeInstr w).toNat
      (Advanced.decodeArgs (Advanced.decodeInstr w).toNat w) u := by
  refine Advanced.machineStep_of_word h.scr h.fetched h.word ?_ h.next rfl
  intro hli
  obtain rfl : w = .ofNat 64 Advanced.HLI := BitVec.eq_of_toNat_eq hli
  have hnot : (Advanced.decodeInstr (.ofNat 64 Advanced.HLI)).toNat ∉
      Advanced.LDR :: Advanced.CBZ :: operators := by decide
  exact hnot h.opcode

theorem fetchInstruction_eq :
    fetchInstruction (registers s) (memory s) = some (.int w.toNat, registers u) := by
  have hPC : Advanced.PC < 16 := by decide
  have hpc : (registers s).getItem (.int PC) = some (.int pc.toNat) :=
    getItem_registers hPC h.fetched
  have hw : (memory s).getItem (.int pc.toNat) = some (.int w.toNat) := getItem_words h.word
  have hnext : (pc + 1).toNat = pc.toNat + 1 := BitVec.toNat_add_of_lt h.next_lt
  have hu : (registers s).setItem (.int PC) (.int (pc.toNat + 1)) = some (registers u) := by
    have hset := setItem_registers hPC h.next
    rw [hnext, Nat.cast_add, Nat.cast_one] at hset
    exact hset
  have hadd : add (.int pc.toNat) (.int 1) = some (.int (pc.toNat + 1)) := rfl
  simp only [fetchInstruction, hpc, hw, hadd, hu, Option.bind_eq_bind, Option.bind_some,
    Option.pure_def]

theorem processorAction_eq : processorAction (memory s) (registers s) =
    (executeInstruction (Advanced.decodeInstr w).toNat
      (decodeArgs (Advanced.decodeInstr w).toNat w.toNat) (registers u) (memory u)).map
      Prod.swap := by
  rw [processorAction, h.fetchInstruction_eq, memory_of_setReg h.next]
  simp only [decodeInstruction, decodeInstr_word, Option.bind_eq_bind, Option.bind_some]
  cases executeInstruction _ _ _ _ <;> rfl

end Executes

/-- A load raises. -/
theorem not_agrees_LDR [NumPy] (h : Executes s u pc w)
    (hop : (Advanced.decodeInstr w).toNat = Advanced.LDR) : ¬ Agrees hlCode s := by
  rintro ⟨t, -, ht⟩
  have hargs : decodeArgs LDR w.toNat = decodeRegAddrArgs w.toNat := rfl
  rw [h.processorAction_eq, hop, show ((Advanced.LDR : ℕ) : ℤ) = LDR from rfl, hargs,
    decodeRegAddrArgs_word, executeInstruction_LDR] at ht
  cases ht

/-- What `CBZ` does in the advanced model. -/
theorem machineStep_CBZ [NumPy] (h : Executes s u pc w)
    (hop : (Advanced.decodeInstr w).toNat = Advanced.CBZ)
    (hx : u.reg (w >>> 8 &&& 0xFF).toNat = some x) :
    Advanced.machineStep hlCode s =
      if x = 0 then u.setReg Advanced.PC (w >>> 16) else some u := by
  have hargs : Advanced.decodeArgs Advanced.CBZ w =
    (.val (w >>> 8 &&& 0xFF), .val (w >>> 16), .none) := rfl
  rw [h.machineStep_eq, hop, hargs, Advanced.executeInstruction_CBZ, hx]
  rfl

/-- What `CBZ` does in the bare-bones model: PC is lost when the tested value is zero. -/
theorem processorAction_CBZ (h : Executes s u pc w)
    (hop : (Advanced.decodeInstr w).toNat = Advanced.CBZ)
    (hr : (w >>> 8 &&& 0xFF).toNat < 16) (hx : u.reg (w >>> 8 &&& 0xFF).toNat = some x) :
    processorAction (memory s) (registers s) =
      ((registers u).setItem (.int PC) (if x = 0 then .none else .int (w >>> 16).toNat)).map
        fun t => (memory u, t) := by
  have hargs : decodeArgs CBZ w.toNat = decodeRegAddrArgs w.toNat := rfl
  have htruth : (Value.int x.toNat).truth = decide (x ≠ 0) := by
    have hzero : (x.toNat : ℤ) = 0 ↔ x = 0 := by
      rw [Nat.cast_eq_zero, ← BitVec.toNat_inj]
      rfl
    simp only [Value.truth, ne_eq, hzero]
  rw [h.processorAction_eq, hop, show ((Advanced.CBZ : ℕ) : ℤ) = CBZ from rfl, hargs,
    decodeRegAddrArgs_word, executeInstruction_CBZ, getItem_registers hr hx]
  simp only [Option.bind_eq_bind, Option.bind_some, htruth, decide_eq_true_eq, ite_not]
  cases (registers u).setItem (.int PC) (if x = 0 then .none else .int (w >>> 16).toNat) <;> rfl

/-- `CBZ` is the same in both only where it goes to the next instruction. -/
theorem agrees_CBZ_iff [NumPy] (h : Executes s u pc w)
    (hop : (Advanced.decodeInstr w).toNat = Advanced.CBZ) :
    Agrees hlCode s ↔
      u.reg (w >>> 8 &&& 0xFF).toNat ≠ some 0 ∧ w >>> 16 = pc + 1 := by
  have hPC : Advanced.PC < 16 := by decide
  have hr : (w >>> 8 &&& 0xFF).toNat < 16 := by
    refine h.named _ ?_
    simp only [namedRegisters, if_pos (Or.inr hop), List.mem_singleton]
  obtain ⟨x, hx⟩ := h.reg_next hr
  rw [Agrees, machineStep_CBZ h hop hx, processorAction_CBZ h hop hr hx, hx]
  constructor
  · rintro ⟨t, ht, hbare⟩
    obtain ⟨q, hset, hq⟩ := Option.map_eq_some_iff.mp hbare
    obtain rfl : q = registers t := congrArg Prod.snd hq
    -- compare what the two models hold in PC
    have hget := Seq.getItem_setItem (i := Advanced.PC) hset
    by_cases hzero : x = 0
    · rw [if_pos hzero] at ht hget
      rw [getItem_registers hPC (by rw [St.reg_of_setReg ht, if_pos rfl])] at hget
      cases hget
    · rw [if_neg hzero] at ht hget
      obtain rfl : u = t := Option.some.inj ht
      rw [getItem_registers hPC h.pc_next] at hget
      have hpc : (pc + 1).toNat = (w >>> 16).toNat := by
        simpa only [Option.some.injEq, Value.int.injEq, Nat.cast_inj] using hget
      exact ⟨fun hx0 => hzero (Option.some.inj hx0), BitVec.eq_of_toNat_eq hpc.symm⟩
  · rintro ⟨hne, hnext⟩
    have hzero : x ≠ 0 := fun hx0 => hne (congrArg some hx0)
    rw [if_neg hzero, if_neg hzero, hnext]
    obtain ⟨t, ht⟩ := St.exists_setReg h.pc_next (pc + 1)
    obtain rfl : t = u := by
      obtain ⟨-, rfl⟩ := St.setReg_eq_some_iff.mp ht
      rw [NdArray.update_of_get? h.pc_next]
    refine ⟨t, rfl, ?_⟩
    rw [show (PC : ℤ) = (Advanced.PC : ℕ) from rfl, setItem_registers hPC ht]
    rfl

/-- An operator is the same in both. -/
theorem agrees_operator [NumPy] (h : Executes s u pc w)
    (hop : (Advanced.decodeInstr w).toNat ∈ operators) : Agrees hlCode s := by
  have hPC : Advanced.PC < 16 := by decide
  have hle : ∀ i ∈ operators, i ≤ 8 := by decide
  have hown : ∀ i ∈ operators, i ≠ Advanced.LDR ∧ i ≠ Advanced.CBZ := by decide
  have hnamed := h.named
  simp only [namedRegisters, (hown _ hop).1, (hown _ hop).2, or_self, if_false, List.mem_cons,
    List.not_mem_nil, or_false, forall_eq_or_imp, forall_eq] at hnamed
  obtain ⟨hr1, hr2, hr3⟩ := hnamed
  obtain ⟨v, hv⟩ := h.reg_next hr1
  obtain ⟨x, hx⟩ := h.reg_next hr2
  obtain ⟨y, hy⟩ := h.reg_next hr3
  obtain ⟨op, aop, haop, hget, hresult⟩ := alu_agrees hop (h.result x hx y hy)
  obtain ⟨t, ht⟩ := St.exists_setReg hv (aop x y)
  refine ⟨t, ?_, ?_⟩
  · rw [h.machineStep_eq, (decodeArgs_operator hop w).1, Advanced.decode3regArgs,
      Advanced.executeInstruction_alu _ _ _ _ (hle _ hop), haop, hx, hy]
    exact ht
  · rw [h.processorAction_eq, (decodeArgs_operator hop w).2, decode3regArgs_word,
      executeInstruction_alu _ _ _ _ _ (hle _ hop), hget, getItem_registers hr2 hx,
      getItem_registers hr3 hy]
    simp only [Option.bind_eq_bind, Option.bind_some, hresult, setItem_registers hr1 ht,
      Option.pure_def, Option.map_some, Prod.swap_prod_mk, memory_of_setReg ht]

/-- **The bare-bones processor agrees with the advanced one** on the operators, on no load,
and on `CBZ` where the tested value is not zero and the address is that of the next
instruction. -/
theorem agrees_iff [NumPy] (h : Executes s u pc w) :
    Agrees hlCode s ↔ (Advanced.decodeInstr w).toNat ≠ Advanced.LDR ∧
      ((Advanced.decodeInstr w).toNat = Advanced.CBZ →
        u.reg (w >>> 8 &&& 0xFF).toNat ≠ some 0 ∧ w >>> 16 = pc + 1) := by
  rcases List.mem_cons.mp h.opcode with hldr | hother
  · -- LDR
    exact iff_of_false (not_agrees_LDR h hldr) fun hne => hne.1 hldr
  rcases List.mem_cons.mp hother with hcbz | hoperator
  · -- CBZ
    rw [agrees_CBZ_iff h hcbz]
    constructor
    · intro hnext
      exact ⟨by rw [hcbz]; decide, fun _ => hnext⟩
    · intro hnext
      exact hnext.2 hcbz
  · -- an operator
    have hown : ∀ i ∈ operators, i ≠ Advanced.LDR ∧ i ≠ Advanced.CBZ := by decide
    obtain ⟨hldr, hcbz⟩ := hown _ hoperator
    exact iff_of_true (agrees_operator h hoperator) ⟨hldr, fun h => absurd h hcbz⟩

end

/-! The shipped program `[MUL,R3,R1,R2]` of 6 and 7, and the load `[LDR,R1,100]`. -/
section

/-- Exact arithmetic in place of floats. -/
@[reducible] def exactFloat : PyFloat where
  Float := ℚ
  ofInt n := some n
  add := (· + ·)
  sub := (· - ·)
  mul := (· * ·)
  truediv a b := if b = 0 then none else some (a / b)
  truedivInt m n := if n = 0 then none else some (m / n)
  truth x := x ≠ 0

attribute [local instance] exactFloat
attribute [local instance] Advanced.exactDivision

/-- One instruction at the start of the code, with 6 in R1 and 7 in R2. -/
def start (w : Word) : St :=
  ⟨(NdArray.fill Advanced.STATETOP 0).update Advanced.CODE w,
    (Advanced.startRegisters.update 1 6).update 2 7⟩

/-- The state with PC advanced. -/
def started (w : Word) : St :=
  { start w with
    registers := (start w).registers.update Advanced.PC (.ofNat 64 (Advanced.CODE + 1)) }

theorem executes_start {w : Word}
    (hop : (Advanced.decodeInstr w).toNat ∈ Advanced.LDR :: Advanced.CBZ :: operators)
    (hnamed : ∀ r ∈ namedRegisters w, r < 16)
    (hresult : ∀ x ∈ (started w).reg (w >>> 16 &&& 0xFF).toNat,
      ∀ y ∈ (started w).reg (w >>> 24 &&& 0xFF).toNat,
        ResultIsWord (Advanced.decodeInstr w).toNat x y) :
    Executes (start w) (started w) (.ofNat 64 Advanced.CODE) w := by
  have hpc : (BitVec.ofNat 64 Advanced.CODE).toNat = Advanced.CODE := by decide
  have hPC : Advanced.PC < Advanced.NREGS := by decide
  refine ⟨rfl, rfl, rfl, ?_, St.setReg_eq_some_iff.mpr ⟨hPC, rfl⟩, by decide, hop, hnamed,
    hresult⟩
  rw [hpc]
  exact NdArray.get?_update_self (by decide) _

theorem agrees_iff_mul : Agrees [] (start 0x02010302) := by
  refine (agrees_iff (executes_start (by decide) (by decide) ?_)).mpr (by decide)
  rintro x hx y hy op hop z hz
  cases hx
  cases hy
  cases hop
  cases hz
  decide

theorem load_not_agrees :
    Executes (start 0x00640110) (started 0x00640110) (.ofNat 64 Advanced.CODE) 0x00640110 ∧
      ¬ Agrees [] (start 0x00640110) := by
  have h := executes_start (w := 0x00640110) (by decide) (by decide) (by
    rintro x - y - op hop
    cases hop)
  exact ⟨h, not_agrees_LDR h rfl⟩

end
end Osh.BareBones
