import Osh.Advanced.Processor
import Osh.Cpp.Constants

/-!
# The processor of the C++ system model

Fetch, decode and execute, as `processorAction` and the functions it calls compute them
when built without `PERIPHERALS`. All values are `uint64_t`. What C++ leaves undefined is
`none`: an access outside a vector or the operator table, a division by zero, and a shift
by 64 or more.
-/
namespace Osh.Cpp
open Advanced (St Word)

/-! ## Fetch -/

def fetchInstruction (s : St) : Option (Word × St) := do
  let pcr ← s.reg PC
  let ir ← s.load pcr.toNat
  let s ← s.setReg PC ((← s.reg PC) + 1)
  return (ir, s)

/-! ## Decode -/

/-- The instruction code is the first byte. -/
def decodeInstr (ir : Word) : Word := ir &&& 0xFF

def decodeAddrArg (ir : Word) : Word × Word × Word := (ir >>> 8, 0, 0)

def decodeRegAddrArgs (ir : Word) : Word × Word × Word := (ir >>> 8 &&& 0xFF, ir >>> 16, 0)

def decode3regArgs (ir : Word) : Word × Word × Word :=
  (ir >>> 8 &&& 0xFF, ir >>> 16 &&& 0xFF, ir >>> 24 &&& 0xFF)

/-- The argument tuple of a word with the given instruction code. -/
def decodeArgs (instr : ℕ) (ir : Word) : Word × Word × Word :=
  if instr = LDR ∨ instr = STR ∨ instr = MOV ∨ instr = SET ∨ instr = CBZ ∨ instr = CBNZ then
    decodeRegAddrArgs ir
  else if instr = B ∨ instr = BL ∨ instr = BX then decodeAddrArg ir
  else if instr = NOP ∨ instr = WFI then (0, 0, 0)
  else decode3regArgs ir

def decodeInstruction (ir : Word) : ℕ × Word × Word × Word :=
  ((decodeInstr ir).toNat, decodeArgs (decodeInstr ir).toNat ir)

/-! ## Execute -/

/-- The table of operators. The logical ones treat a word as a truth value. -/
def alu : List (Word → Word → Option Word) :=
  [fun x y => some (x + y), fun x y => some (x - y), fun x y => some (x * y),
    fun x y => if y = 0 then none else some (x / y),
    fun x y => some (if x ≠ 0 ∧ y ≠ 0 then 1 else 0),
    fun x y => some (if x ≠ 0 ∨ y ≠ 0 then 1 else 0),
    fun x y => some (if decide (x = 0) ≠ decide (y = 0) then 1 else 0),
    fun x y => if y.toNat < 64 then some (x >>> y.toNat) else none,
    fun x y => if y.toNat < 64 then some (x <<< y.toNat) else none]

def executeInstruction (instr : ℕ) (args : Word × Word × Word) (s : St) : Option St :=
  if instr = LDR then do
    let (r1, addr, _) := args
    s.setReg r1.toNat (← s.load addr.toNat)
  else if instr = STR then do
    let (r1, r2, _) := args
    let addr2 ← s.reg r2.toNat
    s.store addr2.toNat (← s.reg r1.toNat)
  else if instr = PUSH then do
    let sptr ← s.reg SP
    let (r1, _, _) := args
    let s ← s.store sptr.toNat (← s.reg r1.toNat)
    s.setReg SP ((← s.reg SP) + 1)
  else if instr = POP then do
    let sptr ← s.reg SP
    let (r1, _, _) := args
    let s ← s.setReg r1.toNat (← s.load sptr.toNat)
    s.setReg SP ((← s.reg SP) - 1)
  else if instr = CBNZ then do
    let (r1, addr, _) := args
    if (← s.reg r1.toNat) ≠ 0 then s.setReg PC addr else some s
  else if instr = CBZ then do
    let (r1, addr, _) := args
    if (← s.reg r1.toNat) = 0 then s.setReg PC addr else some s
  else if instr = BL then do
    let pctr ← s.reg PC
    let (_, sraddr, _) := args
    let s ← s.setReg LR pctr
    s.setReg PC sraddr
  else if instr = BX then do
    let (r1, _, _) := args
    let lreg ← s.reg r1.toNat
    s.setReg PC lreg
  else if instr = MOV then do
    let (r1, r2, _) := args
    s.setReg r1.toNat (← s.reg r2.toNat)
  else if instr = SET then do
    let (r1, v2, _) := args
    s.setReg r1.toNat v2
  else if instr = NOP ∨ instr = WFI then some s
  else do
    let (r3, r1, r2) := args
    let v1 ← s.reg r1.toNat
    let v2 ← s.reg r2.toNat
    let op ← alu[instr]?
    s.setReg r3.toNat (← op v1 v2)

/-! ## Processor action -/

/-- `processorAction`, which hands the list of requests on as it is. -/
def processorAction (s : St) : Option St := do
  let (ir, s) ← fetchInstruction s
  let (instr, tup) := decodeInstruction ir
  executeInstruction instr tup s

end Osh.Cpp
