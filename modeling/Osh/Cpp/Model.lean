import Osh.Cpp.Processor
import Osh.Lib.PartialRun

/-!
# The main loop of the C++ system model

`PERIPHERALS` is a macro, so there are two builds. With it the devices act in every cycle
and `processorAction` checks their requests. The timer and the other devices keep vectors of
their own: `systemState` gets a copy before the first cycle, and is not built again. What
`load_code` returns is a parameter. The result of `main` is what it prints with
`PRINT_CYCLES` off, one pair for each line of the table.

## Main definitions

* `timerAction`, `checkIrqs`, `action`: the devices, and `processorAction` in either build.
* `Loop`, `start`, `cycle`, `main`: the variables, the loop and what is printed.
-/
namespace Osh.Cpp
open Advanced (St Word)
open PartialRun

/-! ## Peripherals -/

/-- A device that does nothing. -/
def idleAction (state : NdArray Word) : NdArray Word × Word := (state, 0)

def kbdAction (kbdState : NdArray Word) : NdArray Word × Word := idleAction kbdState

def nicAction (nicState : NdArray Word) : NdArray Word × Word := idleAction nicState

def ssdAction (ssdState : NdArray Word) : NdArray Word × Word := idleAction ssdState

def gpuAction (gpuState : NdArray Word) : NdArray Word × Word := idleAction gpuState

/-- The first statement of `timerAction`. -/
def timerCountDown (timerState : NdArray Word) : Option (NdArray Word) := do
  let count ← timerState.get? 0
  if count > 0 then timerState.set? 0 (count - 1) else some timerState

def timerAction (timerState : NdArray Word) : Option (NdArray Word × Word) := do
  let timerState ← timerCountDown timerState
  if (← timerState.get? 0) = 0 then
    return (← timerState.set? 0 (← timerState.get? 1), 1)
  else return (timerState, 0)

/-! ## Interrupts -/

/-- The loop of `checkIrqs` over the requests, from number `idx` on. -/
def checkIrqsFrom (ivt : NdArray Word) (idx : ℕ) (registers : NdArray Word) :
    List Word → Option (NdArray Word × List Word)
  | [] => some (registers, [])
  | irq :: irqs =>
      if irq ≠ 0 then do
        let registers ← registers.set? LR (← registers.get? PC)
        let registers ← registers.set? PC (← ivt.get? idx)
        return (registers, 0 :: irqs)
      else do
        let (registers, irqs) ← checkIrqsFrom ivt (idx + 1) registers irqs
        return (registers, irq :: irqs)

def checkIrqs (registers ivt : NdArray Word) (irqs : List Word) :
    Option (NdArray Word × List Word) :=
  checkIrqsFrom ivt 0 registers irqs

/-- `processorAction` in either build. The copy of the vector table needs as many words. -/
def action (PERIPHERALS : Bool) (irqs : List Word) (s : St) : Option (List Word × St) := do
  let (registers, irqs) ←
    if PERIPHERALS then
      if IVT + IVTsz ≤ s.systemState.size then
        checkIrqs s.registers (s.systemState.slice IVT (IVT + IVTsz)) irqs
      else none
    else some (s.registers, irqs)
  let s ← processorAction { s with registers }
  return (irqs, s)

/-! ## The main loop -/

/-- The variables of the main loop. -/
structure Loop where
  st : St
  timerState : NdArray Word
  kbdState : NdArray Word
  nicState : NdArray Word
  ssdState : NdArray Word
  gpuState : NdArray Word
  irqs : List Word

/-- The variables before the first cycle, for the RAM that `load_code` returns. -/
def start (MAX_NCYCLES : ℕ) (ramState : NdArray Word) : Option Loop := do
  let timerState ← (NdArray.fill timerStateSz 0).set? 0 (.ofNat 64 (MAX_NCYCLES + 1))
  let timerState ← timerState.set? 1 (.ofNat 64 (MAX_NCYCLES + 1))
  let kbdState := NdArray.fill kbdStateSz 0
  let nicState := NdArray.fill nicStateSz 0
  let ssdState := NdArray.fill ssdStateSz 0
  let gpuState := NdArray.fill gpuStateSz 0
  let registers ← (NdArray.fill NREGS 0).set? PC (.ofNat 64 CODE)
  let systemState := ramState ++ timerState ++ kbdState ++ nicState ++ ssdState ++ gpuState
  return {
    st := ⟨systemState, registers⟩, timerState, kbdState, nicState, ssdState, gpuState,
    irqs := [] }

/-- The statements of a cycle under `#ifdef PERIPHERALS`. The copy of RAM is not used. -/
def devices (L : Loop) : Option Loop := do
  let (kbdState, kbdIrq) := kbdAction L.kbdState
  let (nicState, nicIrq) := nicAction L.nicState
  let (ssdState, ssdIrq) := ssdAction L.ssdState
  let (gpuState, gpuIrq) := gpuAction L.gpuState
  let (timerState, timerIrq) ← timerAction L.timerState
  if MEMTOP ≤ L.st.systemState.size then
    return {
      st := L.st, timerState, kbdState, nicState, ssdState, gpuState,
      irqs := [kbdIrq, nicIrq, ssdIrq, gpuIrq, timerIrq] }
  else none

/-- One iteration of the main loop. -/
def cycle (PERIPHERALS : Bool) (L : Loop) : Option Loop := do
  let L ← if PERIPHERALS then devices L else some { L with irqs := [] }
  let (irqs, st) ← action PERIPHERALS L.irqs L.st
  return { L with irqs, st }

/-- The lines of the table that is printed at the end. -/
def printed (FIB_MAX : ℕ) (s : St) : Option (List (ℕ × Word)) :=
  (List.range' (IVT + IVTsz) FIB_MAX).mapM fun idx => (s.load idx).map fun v => (idx, v)

/-- What `main` prints. -/
def main (PERIPHERALS : Bool) (MAX_NCYCLES FIB_MAX : ℕ) (ramState : NdArray Word) :
    Option (List (ℕ × Word)) := do
  let L ← start MAX_NCYCLES ramState
  let L ← iter (cycle PERIPHERALS) MAX_NCYCLES L
  printed FIB_MAX L.st

end Osh.Cpp
