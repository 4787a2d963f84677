import Mathlib.Data.BitVec
import Mathlib.Tactic.IntervalCases
import Osh.Lib.NdArray
import Osh.Advanced.Constants

/-!
# The processor of the advanced system model

Fetch, decode, execute and interrupt check, as `processorAction` and the
functions it calls compute them. A Python exception is `none`. Register files
and memories are NumPy arrays of `uint64`, with the arithmetic of NumPy 2: a
`uint64` combined with a Python integer stays a `uint64` and wraps around, an
index outside an array raises, and so does the assignment of `None`.

The quotient `operator.truediv` passes through a double and back into a `uint64`
array. That conversion is NumPy's, so it is a parameter of the model.
-/
namespace Osh.Advanced

/-- The part of NumPy that the model does not compute. -/
class NumPy where
  /-- `truediv` of two words, as stored back into an array of words. -/
  truediv : Word → Word → Word

/-- Truncated division, which is what `truediv` stores for words below `2 ^ 53` and a
nonzero divisor. -/
@[reducible] def exactDivision : NumPy := ⟨fun a b => .ofNat 64 (a.toNat / b.toNat)⟩

/-- Assignment of a Python integer to an entry of a word array; out of bounds it raises. -/
def pyInt (n : ℤ) : Option Word := if 0 ≤ n ∧ n < 2 ^ 64 then some (.ofInt 64 n) else none

theorem pyInt_of_lt {n : ℕ} (h : n < 2 ^ 64) : pyInt n = some (.ofNat 64 n) := by
  rw [pyInt, if_pos (by omega), BitVec.ofInt_natCast]

/-- The two arrays that the processor reads and writes. -/
structure St where
  systemState : NdArray Word
  registers : NdArray Word

namespace St

/-- `registers[r]` -/
def reg (s : St) (r : ℕ) : Option Word := s.registers.get? r

/-- `systemState[a]` -/
def load (s : St) (a : ℕ) : Option Word := s.systemState.get? a

/-- `registers[r] = v` -/
def setReg (s : St) (r : ℕ) (v : Word) : Option St :=
  (s.registers.set? r v).map fun registers => { s with registers }

/-- `systemState[a] = v` -/
def store (s : St) (a : ℕ) (v : Word) : Option St :=
  (s.systemState.set? a v).map fun systemState => { s with systemState }

variable {s t : St} {r a : ℕ} {v : Word}

theorem setReg_eq_some_iff :
    s.setReg r v = some t ↔
      r < s.registers.size ∧ t = { s with registers := s.registers.update r v } := by
  simp only [setReg, Option.map_eq_some_iff, NdArray.set?_eq_some_iff]
  constructor
  · rintro ⟨_, ⟨hr, rfl⟩, rfl⟩; exact ⟨hr, rfl⟩
  · rintro ⟨hr, rfl⟩; exact ⟨_, ⟨hr, rfl⟩, rfl⟩

theorem store_eq_some_iff :
    s.store a v = some t ↔
      a < s.systemState.size ∧ t = { s with systemState := s.systemState.update a v } := by
  simp only [store, Option.map_eq_some_iff, NdArray.set?_eq_some_iff]
  constructor
  · rintro ⟨_, ⟨ha, rfl⟩, rfl⟩; exact ⟨ha, rfl⟩
  · rintro ⟨ha, rfl⟩; exact ⟨_, ⟨ha, rfl⟩, rfl⟩

/-- A register that can be read can be assigned. -/
theorem exists_setReg (h : s.reg r = some v) (w : Word) : ∃ t, s.setReg r w = some t :=
  ⟨_, setReg_eq_some_iff.mpr ⟨NdArray.lt_size_of_get? h, rfl⟩⟩

theorem reg_of_setReg (h : s.setReg r v = some t) (q : ℕ) :
    t.reg q = if q = r then some v else s.reg q := by
  obtain ⟨hr, rfl⟩ := setReg_eq_some_iff.mp h
  simp only [reg, NdArray.get?_update, hr, and_true]

theorem systemState_of_setReg (h : s.setReg r v = some t) : t.systemState = s.systemState := by
  obtain ⟨-, rfl⟩ := setReg_eq_some_iff.mp h
  rfl

theorem load_of_setReg (h : s.setReg r v = some t) (b : ℕ) : t.load b = s.load b := by
  rw [load, load, systemState_of_setReg h]

theorem load_of_store (h : s.store a v = some t) (b : ℕ) :
    t.load b = if b = a then some v else s.load b := by
  obtain ⟨ha, rfl⟩ := store_eq_some_iff.mp h
  simp only [load, NdArray.get?_update, ha, and_true]

theorem reg_of_store (h : s.store a v = some t) (q : ℕ) : t.reg q = s.reg q := by
  obtain ⟨-, rfl⟩ := store_eq_some_iff.mp h
  rfl

end St

/-- A high-level instruction: a Python function that updates the two arrays, and may raise. -/
abbrev HlFn := St → Option St

/-- An entry of the side table `hlCode`: the no-op function it is filled with, or
an instruction `[HLI, f]`, where `f` is `none` when item 1 is missing or not a function. -/
inductive HlEntry where
  | lambda
  | list (f : Option HlFn)

/-- The configuration tuple `(PERIPHERALS, HL, hlCode)`. -/
structure Cfg where
  PERIPHERALS : Bool
  HL : Bool
  hlCode : List HlEntry

/-- What `fetchInstruction` returns: a word, an entry of `hlCode`, or the function in it. -/
inductive Ir where
  | word (w : Word)
  | entry (e : HlEntry)
  | fn (f : HlFn)

/-- One component of a decoded argument tuple. -/
inductive Arg where
  | none
  | val (w : Word)
  | fn (f : HlFn)

/-- The component as a number; using `None` or a function as one raises. -/
def Arg.val? : Arg → Option Word
  | .val w => some w
  | _ => Option.none

/-! ## Fetch -/

/-- Indexing a Python list by an integer, which counts from the end when negative. -/
def pyIndex {α : Type} (l : List α) (i : ℤ) : Option α :=
  if 0 ≤ i then l[i.toNat]? else if 0 ≤ i + l.length then l[(i + l.length).toNat]? else none

/-- The instruction that a fetched word `w` at address `pcr` stands for. -/
def lookupInstruction (cfg : Cfg) (pcr w : Word) : Option Ir :=
  if cfg.HL then
    match cfg.hlCode[w.toNat]? with
    | some (.list (some f)) => some (.fn f)
    | _ => none
  else if w.toNat = HLI then (pyIndex cfg.hlCode ((pcr.toNat : ℤ) - CODE)).map .entry
  else some (.word w)

def fetchInstruction (cfg : Cfg) (s : St) : Option (Ir × St) := do
  let pcr ← s.reg PC
  let ir ← lookupInstruction cfg pcr (← s.load pcr.toNat)
  let s ← s.setReg PC (pcr + 1)
  return (ir, s)

/-- What a successful fetch did. -/
theorem fetchInstruction_eq_some_iff {cfg : Cfg} {s t : St} {ir : Ir} :
    fetchInstruction cfg s = some (ir, t) ↔ ∃ pcr w, s.reg PC = some pcr ∧
      s.load pcr.toNat = some w ∧ lookupInstruction cfg pcr w = some ir ∧
      s.setReg PC (pcr + 1) = some t := by
  simp only [fetchInstruction, Option.bind_eq_bind, Option.bind_eq_some_iff, Option.pure_def,
    Option.some.injEq, Prod.mk.injEq]
  constructor
  · rintro ⟨pcr, hpc, w, hw, _, hir, _, ht, rfl, rfl⟩
    exact ⟨pcr, w, hpc, hw, hir, ht⟩
  · rintro ⟨pcr, w, hpc, hw, hir, ht⟩
    exact ⟨pcr, hpc, w, hw, ir, hir, t, ht, rfl, rfl⟩

/-! ## Decode -/

/-- The instruction code is the first byte. -/
def decodeInstr (ir : Word) : Word := ir &&& 0xFF

def decodeAddrArg (ir : Word) : Arg × Arg × Arg := (.val (ir >>> 8), .none, .none)

def decodeRegAddrArgs (ir : Word) : Arg × Arg × Arg :=
  (.val (ir >>> 8 &&& 0xFF), .val (ir >>> 16), .none)

def decode3regArgs (ir : Word) : Arg × Arg × Arg :=
  (.val (ir >>> 8 &&& 0xFF), .val (ir >>> 16 &&& 0xFF), .val (ir >>> 24 &&& 0xFF))

/-- The argument tuple of a word with the given instruction code. -/
def decodeArgs (instr : ℕ) (ir : Word) : Arg × Arg × Arg :=
  if instr = LDR ∨ instr = STR ∨ instr = MOV ∨ instr = SET ∨ instr = CBZ ∨ instr = CBNZ then
    decodeRegAddrArgs ir
  else if instr = B ∨ instr = BL ∨ instr = BX then decodeAddrArg ir
  else if instr = NOP ∨ instr = WFI then (.none, .none, .none)
  else decode3regArgs ir

/-- An entry of `hlCode` that is not a list cannot be converted to a word. -/
def decodeInstruction : Ir → Option (ℕ × Arg × Arg × Arg)
  | .entry (.list f) => f.map fun f => (HLI, .fn f, .none, .none)
  | .word ir => some ((decodeInstr ir).toNat, decodeArgs (decodeInstr ir).toNat ir)
  | _ => none

/-! ## Execute -/

section
variable [NumPy]

/-- The table of arithmetic operators, indexed by opcode. -/
def alu : List (Word → Word → Word) :=
  [(· + ·), (· - ·), (· * ·), NumPy.truediv, (· &&& ·), (· ||| ·), (· ^^^ ·),
    (fun a b => a >>> b.toNat), (fun a b => a <<< b.toNat)]

/-- The effect of one decoded instruction. `B` and `BL` unpack the second
component of the tuple, which the decoder leaves empty; the second `WFI` branch is
never reached. -/
def executeInstruction (instr : ℕ) (args : Arg × Arg × Arg) (s : St) : Option St :=
  if instr = LDR then do
    let r1 ← args.1.val?
    let addr ← args.2.1.val?
    s.setReg r1.toNat (← s.load addr.toNat)
  else if instr = STR then do
    let r1 ← args.1.val?
    let r2 ← args.2.1.val?
    let addr2 ← s.reg r2.toNat
    s.store addr2.toNat (← s.reg r1.toNat)
  else if instr = PUSH then do
    let sptr ← s.reg SP
    let r1 ← args.1.val?
    let s ← s.store sptr.toNat (← s.reg r1.toNat)
    s.setReg SP ((← s.reg SP) + 1)
  else if instr = POP then do
    let sptr ← s.reg SP
    let r1 ← args.1.val?
    let s ← s.setReg r1.toNat (← s.load sptr.toNat)
    s.setReg SP ((← s.reg SP) - 1)
  else if instr = CBNZ then do
    let r1 ← args.1.val?
    let addr := args.2.1
    if (← s.reg r1.toNat) ≠ 0 then s.setReg PC (← addr.val?) else some s
  else if instr = CBZ then do
    let r1 ← args.1.val?
    let addr := args.2.1
    if (← s.reg r1.toNat) = 0 then s.setReg PC (← addr.val?) else some s
  else if instr = B then do
    let sraddr := args.2.1
    s.setReg PC (← sraddr.val?)
  else if instr = BL then do
    let pctr ← s.reg PC
    let sraddr := args.2.1
    let s ← s.setReg LR pctr
    s.setReg PC (← sraddr.val?)
  else if instr = BX then do
    let r1 ← args.1.val?
    let lreg ← s.reg r1.toNat
    s.setReg PC lreg
  else if instr = MOV then do
    let r1 ← args.1.val?
    let r2 ← args.2.1.val?
    s.setReg r1.toNat (← s.reg r2.toNat)
  else if instr = SET then do
    let r1 ← args.1.val?
    let v2 ← args.2.1.val?
    s.setReg r1.toNat v2
  else if instr = NOP ∨ instr = WFI then some s
  else if instr = WFI then s.setReg SCR 1
  else if instr = HLI then
    match args.1 with
    | .fn hlInstr => hlInstr s
    | _ => none
  else do
    let r3 ← args.1.val?
    let r1 ← args.2.1.val?
    let r2 ← args.2.2.val?
    let op ← alu[instr]?
    s.setReg r3.toNat (op (← s.reg r1.toNat) (← s.reg r2.toNat))

/-! The effect of each opcode, on operands as the decoder delivers them. -/

variable (a1 a2 a3 : Word) (x y : Arg) (s : St)

theorem executeInstruction_LDR :
    executeInstruction LDR (.val a1, .val a2, x) s =
      (do s.setReg a1.toNat (← s.load a2.toNat)) := rfl

theorem executeInstruction_STR :
    executeInstruction STR (.val a1, .val a2, x) s =
      (do s.store (← s.reg a2.toNat).toNat (← s.reg a1.toNat)) := rfl

theorem executeInstruction_PUSH :
    executeInstruction PUSH (.val a1, x, y) s =
      (do
        let sptr ← s.reg SP
        let t ← s.store sptr.toNat (← s.reg a1.toNat)
        t.setReg SP ((← t.reg SP) + 1)) := rfl

theorem executeInstruction_POP :
    executeInstruction POP (.val a1, x, y) s =
      (do
        let sptr ← s.reg SP
        let t ← s.setReg a1.toNat (← s.load sptr.toNat)
        t.setReg SP ((← t.reg SP) - 1)) := rfl

theorem executeInstruction_CBNZ :
    executeInstruction CBNZ (.val a1, .val a2, x) s =
      (do if (← s.reg a1.toNat) ≠ 0 then s.setReg PC a2 else some s) := rfl

theorem executeInstruction_CBZ :
    executeInstruction CBZ (.val a1, .val a2, x) s =
      (do if (← s.reg a1.toNat) = 0 then s.setReg PC a2 else some s) := rfl

theorem executeInstruction_MOV :
    executeInstruction MOV (.val a1, .val a2, x) s =
      (do s.setReg a1.toNat (← s.reg a2.toNat)) := rfl

theorem executeInstruction_SET :
    executeInstruction SET (.val a1, .val a2, x) s = s.setReg a1.toNat a2 := rfl

theorem executeInstruction_nop {instr : ℕ} (h : instr = NOP ∨ instr = WFI)
    (args : Arg × Arg × Arg) : executeInstruction instr args s = some s := by
  rcases h with rfl | rfl <;> rfl

theorem executeInstruction_HLI (f : HlFn) : executeInstruction HLI (.fn f, x, y) s = f s := rfl

/-- Every opcode without a branch of its own is an index into `alu`. -/
theorem executeInstruction_alu {instr : ℕ} (h : instr ≤ 8) :
    executeInstruction instr (.val a1, .val a2, .val a3) s =
      (do
        let op ← alu[instr]?
        s.setReg a1.toNat (op (← s.reg a2.toNat) (← s.reg a3.toNat))) := by
  interval_cases instr <;> rfl

end

/-! ## Interrupt check -/

/-- The assignments of `checkIrqs` for the request at index `idx`: PC is saved and
the service routine entered. -/
def enterRoutine (ivt : NdArray Word) (idx : ℕ) (registers : NdArray Word) :
    Option (NdArray Word) := do
  let registers ← registers.set? SCR 0
  let registers ← registers.set? LR (← registers.get? PC)
  registers.set? PC (← ivt.get? idx)

/-- The loop of `checkIrqs` from index `idx` on: the first raised request is
dispatched and cleared, and the loop is left. -/
def checkIrqsFrom (ivt : NdArray Word) (idx : ℕ) (registers : NdArray Word) :
    List Bool → Option (NdArray Word × List Bool)
  | [] => some (registers, [])
  | true :: irqs => do
      let registers ← enterRoutine ivt idx registers
      return (registers, false :: irqs)
  | false :: irqs => do
      let (registers, irqs) ← checkIrqsFrom ivt (idx + 1) registers irqs
      return (registers, false :: irqs)

def checkIrqs (registers ivt : NdArray Word) (irqs : List Bool) :
    Option (NdArray Word × List Bool) :=
  checkIrqsFrom ivt 0 registers irqs

/-- The part of `processorAction` before the fetch. -/
def interruptCheck (cfg : Cfg) (irqs : List Bool) (s : St) : Option (List Bool × St) :=
  if cfg.PERIPHERALS then do
    let ivt := s.systemState.slice IVT IVTsz
    let (registers, irqs) ← checkIrqs s.registers ivt irqs
    return (irqs, { s with registers })
  else some (irqs, s)

/-! ## Processor action -/

section
variable [NumPy]

/-- The part of `processorAction` after the interrupt check. -/
def fetchDecodeExecute (cfg : Cfg) (s : St) : Option St := do
  let (ir, s) ← fetchInstruction cfg s
  if (← s.reg SCR) = 0 then
    if cfg.HL then
      match ir with
      | .fn f => f s
      | _ => none
    else do
      let (instr, tup) ← decodeInstruction ir
      executeInstruction instr tup s
  else some s

/-- With SCR at zero the fetched instruction is decoded and executed. -/
theorem fetchDecodeExecute_awake {cfg : Cfg} {s t : St} {ir : Ir} {instr : ℕ}
    {tup : Arg × Arg × Arg} (hHL : cfg.HL = false) (hfetch : fetchInstruction cfg s = some (ir, t))
    (hscr : t.reg SCR = some 0) (hdecode : decodeInstruction ir = some (instr, tup)) :
    fetchDecodeExecute cfg s = executeInstruction instr tup t := by
  simp only [fetchDecodeExecute, hfetch, hscr, hHL, hdecode, Option.bind_eq_bind, Option.bind_some]
  rfl

/-- With SCR set nothing is done after the fetch. -/
theorem fetchDecodeExecute_asleep {cfg : Cfg} {s t : St} {ir : Ir} {v : Word}
    (hfetch : fetchInstruction cfg s = some (ir, t)) (hscr : t.reg SCR = some v) (hv : v ≠ 0) :
    fetchDecodeExecute cfg s = some t := by
  simp only [fetchDecodeExecute, hfetch, hscr, hv, Option.bind_eq_bind, Option.bind_some]
  rfl

def processorAction (cfg : Cfg) (irqs : List Bool) (s : St) : Option (List Bool × St) := do
  let (irqs, s) ← interruptCheck cfg irqs s
  let s ← fetchDecodeExecute cfg s
  return (irqs, s)

theorem processorAction_eq_some_iff {cfg : Cfg} {irqs irqs' : List Bool} {s t : St} :
    processorAction cfg irqs s = some (irqs', t) ↔
      ∃ u, interruptCheck cfg irqs s = some (irqs', u) ∧ fetchDecodeExecute cfg u = some t := by
  simp only [processorAction, Option.bind_eq_bind, Option.bind_eq_some_iff, Option.pure_def,
    Option.some.injEq, Prod.mk.injEq, Prod.exists]
  constructor
  · rintro ⟨_, u, hcheck, _, hexec, rfl, rfl⟩
    exact ⟨u, hcheck, hexec⟩
  · rintro ⟨u, hcheck, hexec⟩
    exact ⟨irqs', u, hcheck, t, hexec, rfl, rfl⟩

end
end Osh.Advanced
