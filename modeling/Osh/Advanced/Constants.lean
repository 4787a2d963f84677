import Mathlib.Logic.Basic
import Mathlib.Tactic.Common

/-!
# Constants of the advanced system model

Array sizes, opcodes, register numbers, DMA registers and the memory map, under
the names and with the defining expressions of `abstract_system_constants.py`.
Opcodes, sizes and register numbers unfold in `simp`; the addresses of the memory
map stay symbolic, and the lemmas `CODE_eq` and so on hand `omega` their values.
-/
namespace Osh.Advanced

/-- A `np.uint64` entry of a register file or memory. -/
abbrev Word := BitVec 64

/-! ## Array sizes -/

@[simp] def timerStateSz : ℕ := 0x10
@[simp] def kbdStateSz : ℕ := 0x100
@[simp] def nicStateSz : ℕ := 0x1000
@[simp] def ssdStateSz : ℕ := 0x100000
@[simp] def gpuStateSz : ℕ := 0x80000
@[simp] def ramStateSz : ℕ := 0xE00000
@[simp] def dmaStateSz : ℕ := 0x10
@[simp] def hlCodeSz : ℕ := 0x1000
@[simp] def IVTsz : ℕ := 16
@[simp] def heapSz : ℕ := 0x800000
@[simp] def stackSz : ℕ := 0x400000
@[simp] def codeSz : ℕ := 0x200000

/-! ## Opcodes -/

@[simp] def ADD : ℕ := 0
@[simp] def SUB : ℕ := 1
@[simp] def MUL : ℕ := 2
@[simp] def DIV : ℕ := 3
@[simp] def AND : ℕ := 4
@[simp] def ORR : ℕ := 5
@[simp] def EOR : ℕ := 6
@[simp] def ASR : ℕ := 7
@[simp] def ASL : ℕ := 8
@[simp] def LDR : ℕ := 16
@[simp] def STR : ℕ := 17
@[simp] def BL : ℕ := 18
@[simp] def BX : ℕ := 19
@[simp] def PUSH : ℕ := 20
@[simp] def POP : ℕ := 21
@[simp] def MOV : ℕ := 22
@[simp] def SET : ℕ := 23
@[simp] def NOP : ℕ := 24
@[simp] def CBZ : ℕ := 25
@[simp] def CBNZ : ℕ := 26
@[simp] def B : ℕ := 27
@[simp] def ADR : ℕ := 28
@[simp] def WFI : ℕ := 29
@[simp] def HLI : ℕ := 30

/-! ## Registers -/

@[simp] def NREGS : ℕ := 24
@[simp] def SP : ℕ := 13
@[simp] def LR : ℕ := 14
@[simp] def PC : ℕ := 15
@[simp] def MSP : ℕ := 21
@[simp] def SCR : ℕ := 23

/-! ## DMA registers -/

@[simp] def DSR : ℕ := 0
@[simp] def DDR : ℕ := 1
@[simp] def DCO : ℕ := 2
@[simp] def DCR : ℕ := 3

/-! ## Memory map -/

def IVT : ℕ := 0
def HEAP : ℕ := IVT + IVTsz
def STACK : ℕ := HEAP + heapSz - IVTsz
def CODE : ℕ := STACK + stackSz
def MEMTOP : ℕ := CODE + codeSz
def TIMER : ℕ := MEMTOP
def KBD : ℕ := TIMER + timerStateSz
def NIC : ℕ := KBD + kbdStateSz
def SSD : ℕ := NIC + nicStateSz
def GPU : ℕ := SSD + ssdStateSz
def DMA : ℕ := GPU + gpuStateSz
def STATETOP : ℕ := DMA + dmaStateSz

theorem CODE_eq : CODE = 12582912 := rfl
theorem MEMTOP_eq : MEMTOP = 14680064 := rfl
theorem TIMER_eq : TIMER = 14680064 := rfl
theorem KBD_eq : KBD = 14680080 := rfl
theorem DMA_eq : DMA = 16257296 := rfl
theorem STATETOP_eq : STATETOP = 16257312 := rfl

end Osh.Advanced
