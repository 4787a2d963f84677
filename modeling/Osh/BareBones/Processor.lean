import Mathlib.Data.Int.Bitwise
import Osh.Advanced.Processor

/-!
# The processor of the bare-bones system model

Fetch, decode and execute of the model without NumPy. Registers and memory are Python lists
whose items change their type: an integer of any size, a float after a division, `None` after
a branch. Nothing checks which argument is which, so a function takes any sequences. A
Python exception is `none`.

## Main definitions

* `Value`, `Seq`: items, and lists and tuples of them.
* `alu`: the operators, indexed by opcode.
* `executeInstruction`, `processorAction`: one instruction.
-/
namespace Osh.BareBones

/-! ## Constants -/

@[simp] def LDR : ℤ := 16
@[simp] def STR : ℤ := 17
@[simp] def BL : ℤ := 18
@[simp] def BX : ℤ := 19
@[simp] def MOV : ℤ := 22
@[simp] def SET : ℤ := 23
@[simp] def NOP : ℤ := 24
@[simp] def CBZ : ℤ := 25
@[simp] def CBNZ : ℤ := 26
@[simp] def B : ℤ := 27
@[simp] def WFI : ℤ := 29
@[simp] def PC : ℤ := 15

/-! ## Values -/

/-- The floats of Python, which the model does not compute. A conversion or a quotient
that raises is `none`. -/
class PyFloat where
  Float : Type
  ofInt : ℤ → Option Float
  add : Float → Float → Float
  sub : Float → Float → Float
  mul : Float → Float → Float
  truediv : Float → Float → Option Float
  truedivInt : ℤ → ℤ → Option Float
  truth : Float → Bool

section
variable [PyFloat]

inductive Value where
  | none
  | int (n : ℤ)
  | float (x : PyFloat.Float)

/-- `bool(v)` -/
def Value.truth : Value → Bool
  | .none => false
  | .int n => n ≠ 0
  | .float x => PyFloat.truth x

/-- The value as an operand of float arithmetic. -/
def Value.float? : Value → Option PyFloat.Float
  | .none => Option.none
  | .int n => PyFloat.ofInt n
  | .float x => some x

/-- A list, or the tuple of three that the decoder makes. -/
inductive Seq where
  | list (items : List Value)
  | tuple (a b c : Value)

namespace Seq

def items : Seq → List Value
  | list items => items
  | tuple a b c => [a, b, c]

/-- `q[i]` -/
def getItem (q : Seq) : Value → Option Value
  | .int i => Advanced.pyIndex q.items i
  | _ => none

/-- `q[i] = v`; a tuple takes no assignment. -/
def setItem : Seq → Value → Value → Option Seq
  | list l, .int i, v =>
      if 0 ≤ i then if i < l.length then some (list (l.set i.toNat v)) else none
      else if 0 ≤ i + l.length then some (list (l.set (i + l.length).toNat v)) else none
  | _, _, _ => none

/-- `(a,b,c)=q` -/
def unpack (q : Seq) : Option (Value × Value × Value) :=
  match q.items with
  | [a, b, c] => some (a, b, c)
  | _ => none

/-- The item that has just been assigned. -/
theorem getItem_setItem {q q' : Seq} {i : ℕ} {x : Value} (h : q.setItem (.int i) x = some q') :
    q'.getItem (.int i) = some x := by
  have hi : (0 : ℤ) ≤ i := by omega
  cases q with
  | tuple => cases h
  | list l =>
      simp only [setItem, if_pos hi, Int.toNat_natCast, Option.ite_none_right_eq_some,
        Option.some.injEq] at h
      obtain ⟨hlt, rfl⟩ := h
      have hlt' : i < l.length := by omega
      simp only [getItem, items, Advanced.pyIndex, if_pos hi, Int.toNat_natCast,
        List.getElem?_set_self hlt']

end Seq

/-! ## Operators -/

/-- An operator on integers, or on floats if one operand is a float. -/
def arithmetic (onInt : ℤ → ℤ → ℤ) (onFloat : PyFloat.Float → PyFloat.Float → PyFloat.Float) :
    Value → Value → Option Value
  | .int m, .int n => some (.int (onInt m n))
  | a, b => do return .float (onFloat (← a.float?) (← b.float?))

def add : Value → Value → Option Value := arithmetic (· + ·) PyFloat.add

def truediv : Value → Value → Option Value
  | .int m, .int n => (PyFloat.truedivInt m n).map .float
  | a, b => do return .float (← PyFloat.truediv (← a.float?) (← b.float?))

/-- An operator on integers only. -/
def bitwise (onInt : ℤ → ℤ → Option ℤ) : Value → Value → Option Value
  | .int m, .int n => (onInt m n).map .int
  | _, _ => none

/-- A negative shift count raises. -/
def rshift (m n : ℤ) : Option ℤ := if 0 ≤ n then some (m >>> n.toNat) else none

def lshift (m n : ℤ) : Option ℤ := if 0 ≤ n then some (m * 2 ^ n.toNat) else none

/-- The table of arithmetic operators, indexed by opcode. -/
def alu : List (Value → Value → Option Value) :=
  [add, arithmetic (· - ·) PyFloat.sub, arithmetic (· * ·) PyFloat.mul, truediv,
    bitwise fun m n => some (Int.land m n), bitwise fun m n => some (Int.lor m n),
    bitwise fun m n => some (Int.xor m n), bitwise rshift, bitwise lshift]

/-! ## Fetch -/

def fetchInstruction (registers systemState : Seq) : Option (Value × Seq) := do
  let pcr ← registers.getItem (.int PC)
  let ir ← systemState.getItem pcr
  let registers ← registers.setItem (.int PC) (← add (← registers.getItem (.int PC)) (.int 1))
  return (ir, registers)

/-! ## Decode -/

/-- The instruction code is the first byte. -/
def decodeInstr (ir : ℤ) : ℤ := Int.land ir 0xFF

def decodeAddrArg (ir : ℤ) : Seq := .tuple (.int (ir >>> (8 : ℕ))) .none .none

def decodeRegAddrArgs (ir : ℤ) : Seq :=
  .tuple (.int (Int.land (ir >>> (8 : ℕ)) 0xFF)) (.int (ir >>> (16 : ℕ))) .none

def decode3regArgs (ir : ℤ) : Seq :=
  .tuple (.int (Int.land (ir >>> (8 : ℕ)) 0xFF)) (.int (Int.land (ir >>> (16 : ℕ)) 0xFF))
    (.int (Int.land (ir >>> (24 : ℕ)) 0xFF))

/-- The argument tuple of a word with the given instruction code. -/
def decodeArgs (instr ir : ℤ) : Seq :=
  if instr = LDR ∨ instr = STR ∨ instr = MOV ∨ instr = SET ∨ instr = CBZ ∨ instr = CBNZ then
    decodeRegAddrArgs ir
  else if instr = B ∨ instr = BL ∨ instr = BX then decodeAddrArg ir
  else if instr = NOP ∨ instr = WFI then .tuple .none .none .none
  else decode3regArgs ir

/-- Only an integer has bits to decode. -/
def decodeInstruction : Value → Option (ℤ × Seq)
  | .int ir => some (decodeInstr ir, decodeArgs (decodeInstr ir) ir)
  | _ => none

/-! ## Execute -/

def doLDR (registers systemState args : Seq) : Option (Seq × Seq) := do
  let (r1, addr, _) ← args.unpack
  let registers ← registers.setItem r1 (← systemState.getItem addr)
  return (registers, systemState)

def doSTR (registers systemState args : Seq) : Option (Seq × Seq) := do
  let (r1, addr, _) ← args.unpack
  let systemState ← systemState.setItem addr (← registers.getItem r1)
  return (registers, systemState)

def doB (registers args : Seq) : Option Seq := do
  let (_, addr, _) ← args.unpack
  registers.setItem (.int PC) addr

/-- Branches on a value that is not zero; else PC becomes the third component, which the
decoder leaves empty. -/
def doCBZ (registers args : Seq) : Option Seq := do
  let (r1, addr1, addr2) ← args.unpack
  if (← registers.getItem r1).truth then registers.setItem (.int PC) addr1
  else registers.setItem (.int PC) addr2

def doALU (instr : ℤ) (registers args : Seq) : Option Seq := do
  let (r1, r2, r3) ← args.unpack
  let op ← Advanced.pyIndex alu instr
  registers.setItem r1 (← op (← registers.getItem r2) (← registers.getItem r3))

/-- The effect of one decoded instruction. `doLDR` gets the argument tuple for the registers,
the registers for the memory and the memory for the argument tuple. -/
def executeInstruction (instr : ℤ) (args registers systemState : Seq) : Option (Seq × Seq) :=
  if instr = LDR then doLDR args registers systemState
  else if instr = STR then doSTR registers systemState args
  else if instr = B then do return (← doB registers args, systemState)
  else if instr = CBZ then do return (← doCBZ registers args, systemState)
  else do return (← doALU instr registers args, systemState)

/-- One instruction; the result is `(systemState,registers)`. -/
def processorAction (systemState registers : Seq) : Option (Seq × Seq) := do
  let (ir, registers) ← fetchInstruction registers systemState
  let (instr, args) ← decodeInstruction ir
  let (registers, systemState) ← executeInstruction instr args registers systemState
  return (systemState, registers)

/-! ## What an instruction does -/

/-- The assignment to an item of the argument tuple raises, whatever the memory holds. -/
theorem doLDR_args (a b c : Value) (registers systemState : Seq) :
    doLDR (.tuple a b c) registers systemState = none := by
  unfold doLDR
  cases h : systemState.unpack with
  | none => rfl
  | some p =>
      obtain ⟨r1, addr, rest⟩ := p
      cases hload : registers.getItem addr <;> simp [Seq.setItem]

variable (r1 r2 r3 : Value) (registers systemState : Seq)

theorem executeInstruction_LDR :
    executeInstruction LDR (.tuple r1 r2 r3) registers systemState = none :=
  doLDR_args r1 r2 r3 registers systemState

theorem executeInstruction_CBZ :
    executeInstruction CBZ (.tuple r1 r2 r3) registers systemState =
      (do
        let v ← registers.getItem r1
        return (← registers.setItem (.int PC) (if v.truth then r2 else r3), systemState)) := by
  have h : executeInstruction CBZ (.tuple r1 r2 r3) registers systemState =
      (doCBZ registers (.tuple r1 r2 r3)).bind fun registers => some (registers, systemState) := rfl
  rw [h, doCBZ]
  cases hv : registers.getItem r1 with
  | none => simp [Seq.unpack, Seq.items, hv]
  | some v => cases htruth : v.truth <;> simp [Seq.unpack, Seq.items, hv, htruth]

/-- Every opcode up to 8 is an index into `alu`. -/
theorem executeInstruction_alu {instr : ℕ} (h : instr ≤ 8) :
    executeInstruction instr (.tuple r1 r2 r3) registers systemState =
      (do
        let op ← Advanced.pyIndex alu instr
        let v ← op (← registers.getItem r2) (← registers.getItem r3)
        return (← registers.setItem r1 v, systemState)) := by
  have hinstr : executeInstruction instr (.tuple r1 r2 r3) registers systemState =
      (doALU instr registers (.tuple r1 r2 r3)).bind fun registers =>
        some (registers, systemState) := by
    interval_cases instr <;> rfl
  simp only [hinstr, doALU, Seq.unpack, Seq.items, Option.bind_eq_bind, Option.bind_some,
    Option.bind_assoc, Option.pure_def]

end
end Osh.BareBones
