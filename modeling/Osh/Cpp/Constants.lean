import Mathlib.Logic.Basic
import Mathlib.Tactic.Common

/-!
# Constants of the C++ system model

Opcodes, register numbers and the memory map, under the names and with the defining
expressions of `abstract_system_constants.h`. The opcodes are those of the Python model, up
to the names of four of them. The stack region does not make up for the interrupt vector
table here, so the code region begins `IVTsz` words higher.
-/
namespace Osh.Cpp

/-! ## Opcodes -/

@[simp] def ADD : ℕ := 0
@[simp] def SUB : ℕ := 1
@[simp] def MUL : ℕ := 2
@[simp] def DIV : ℕ := 3
@[simp] def AND : ℕ := 4
@[simp] def OR : ℕ := 5
@[simp] def EOR : ℕ := 6
@[simp] def ARS : ℕ := 7
@[simp] def ALS : ℕ := 8
@[simp] def LDR : ℕ := 16
@[simp] def STR : ℕ := 17
@[simp] def BL : ℕ := 18
@[simp] def BX : ℕ := 19
@[simp] def PUSH : ℕ := 20
@[simp] def POP : ℕ := 21
@[simp] def MOV : ℕ := 22
@[simp] def SET : ℕ := 23
@[simp] def NOP : ℕ := 24
@[simp] def CBZ : ℕ := 25
@[simp] def CBNZ : ℕ := 26
@[simp] def B : ℕ := 27
@[simp] def ADR : ℕ := 28
@[simp] def WFI : ℕ := 29

/-! ## Registers -/

@[simp] def NREGS : ℕ := 16
@[simp] def SP : ℕ := 13
@[simp] def LR : ℕ := 14
@[simp] def PC : ℕ := 15

/-! ## Memory map -/

@[simp] def IVTsz : ℕ := 16
@[simp] def heapSz : ℕ := 0x800000
@[simp] def stackSz : ℕ := 0x400000
@[simp] def codeSz : ℕ := 0x200000
@[simp] def timerStateSz : ℕ := 0x10
@[simp] def kbdStateSz : ℕ := 0x100
@[simp] def nicStateSz : ℕ := 0x1000
@[simp] def ssdStateSz : ℕ := 0x100000
@[simp] def gpuStateSz : ℕ := 0x80000
@[simp] def ramStateSz : ℕ := 0xE00000

def IVT : ℕ := 0
def HEAP : ℕ := IVT + IVTsz
def STACK : ℕ := HEAP + heapSz
def CODE : ℕ := STACK + stackSz
def MEMTOP : ℕ := CODE + codeSz
def TIMER : ℕ := MEMTOP
def KBD : ℕ := TIMER + timerStateSz
def NIC : ℕ := KBD + kbdStateSz
def SSD : ℕ := NIC + nicStateSz
def GPU : ℕ := SSD + ssdStateSz
def STATETOP : ℕ := GPU + gpuStateSz

theorem CODE_eq : CODE = 12582928 := rfl
theorem MEMTOP_eq : MEMTOP = 14680080 := rfl
theorem STATETOP_eq : STATETOP = 16257312 := rfl

end Osh.Cpp
