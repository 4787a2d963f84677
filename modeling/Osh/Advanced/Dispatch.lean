import Mathlib.Order.Bounds.Defs
import Osh.Advanced.Interrupts
import Osh.Lib.Lists

/-!
# Dispatch by priority

The loop of `checkIrqs` as Python runs it: the iterator reads the list that the body
assigns, `idx` is counted beside the iterator, and `break` leaves the loop. The position of
a request in the list is its priority: of the raised ones the first is dispatched, and the
others wait.

## Main definitions

* `checkIrqsLoop`, `checkIrqsInPlace`: the loop on the list that it changes.
* `Served`: what the dispatch of a request does to the registers and the requests.

## Main results

* `checkIrqsInPlace_eq`: the loop computes what `checkIrqs` does by recursion.
* `dispatches_first`: the first raised request is dispatched.
-/
namespace Osh.Advanced
variable {ivt registers : NdArray Word} {irqs : List Bool} {pos idx : ℕ}

/-! ## The loop in place -/

/-- `irqs[idx] = False`, which raises where the list ends. -/
def clearIrq (irqs : List Bool) (idx : ℕ) : Option (List Bool) :=
  if idx < irqs.length then some (irqs.set idx false) else none

/-- The loop of `checkIrqs`, with the iterator at `pos`. -/
def checkIrqsLoop (ivt : NdArray Word) (pos idx : ℕ) (registers : NdArray Word)
    (irqs : List Bool) : Option (NdArray Word × List Bool) :=
  match h : irqs[pos]? with
  | none => some (registers, irqs)
  | some irq =>
      if irq then do
        let registers ← enterRoutine ivt idx registers
        let irqs ← clearIrq irqs idx
        return (registers, irqs)
      else checkIrqsLoop ivt (pos + 1) (idx + 1) registers irqs
termination_by irqs.length - pos
decreasing_by
  have hpos := (List.getElem?_eq_some_iff.mp h).1
  omega

def checkIrqsInPlace (registers ivt : NdArray Word) (irqs : List Bool) :
    Option (NdArray Word × List Bool) :=
  checkIrqsLoop ivt 0 0 registers irqs

theorem checkIrqsLoop_end (h : irqs[pos]? = none) :
    checkIrqsLoop ivt pos idx registers irqs = some (registers, irqs) := by
  rw [checkIrqsLoop]
  split
  · rfl
  next hsome => cases h.symm.trans hsome

theorem checkIrqsLoop_raised (h : irqs[pos]? = some true) :
    checkIrqsLoop ivt pos idx registers irqs =
      (enterRoutine ivt idx registers).bind fun registers =>
        (clearIrq irqs idx).map fun irqs => (registers, irqs) := by
  rw [checkIrqsLoop]
  split
  next hnone => cases h.symm.trans hnone
  next irq hsome =>
    obtain rfl : true = irq := Option.some.inj (h.symm.trans hsome)
    rw [if_pos rfl]
    cases clearIrq irqs idx <;> rfl

theorem checkIrqsLoop_quiet (h : irqs[pos]? = some false) :
    checkIrqsLoop ivt pos idx registers irqs =
      checkIrqsLoop ivt (pos + 1) (idx + 1) registers irqs := by
  rw [checkIrqsLoop]
  split
  next hnone => cases h.symm.trans hnone
  next irq hsome =>
    obtain rfl : false = irq := Option.some.inj (h.symm.trans hsome)
    rfl

theorem clearIrq_append (before after : List Bool) :
    clearIrq (before ++ true :: after) before.length = some (before ++ false :: after) := by
  rw [clearIrq, if_pos (by simp), set_append_cons]

/-- After the requests in `before` have been passed, the loop in place is the recursion on
the rest: the iterator and `idx` have counted the same requests, and none was assigned. -/
theorem checkIrqsLoop_eq (before rest : List Bool) :
    checkIrqsLoop ivt before.length before.length registers (before ++ rest) =
      (checkIrqsFrom ivt before.length registers rest).map fun (registers, irqs) =>
        (registers, before ++ irqs) := by
  induction rest generalizing before with
  | nil =>
      rw [checkIrqsLoop_end (by simp)]
      rfl
  | cons irq rest ih =>
      have hget : (before ++ irq :: rest)[before.length]? = some irq := by simp
      cases irq with
      | true =>
          rw [checkIrqsLoop_raised hget, clearIrq_append, checkIrqsFrom]
          cases enterRoutine ivt before.length registers <;> rfl
      | false =>
          have hpassed := ih (before ++ [false])
          rw [List.length_append, List.length_singleton, List.append_assoc,
            List.singleton_append] at hpassed
          rw [checkIrqsLoop_quiet hget, hpassed, checkIrqsFrom]
          cases checkIrqsFrom ivt (before.length + 1) registers rest with
          | none => rfl
          | some result =>
              simp only [Option.map_some, Option.bind_eq_bind, Option.bind_some,
                Option.pure_def, List.append_assoc, List.singleton_append]

theorem checkIrqsInPlace_eq (registers ivt : NdArray Word) (irqs : List Bool) :
    checkIrqsInPlace registers ivt irqs = checkIrqs registers ivt irqs := by
  calc checkIrqsInPlace registers ivt irqs
      = (checkIrqsFrom ivt 0 registers irqs).map fun (registers, irqs) => (registers, [] ++ irqs) :=
        checkIrqsLoop_eq [] irqs
    _ = checkIrqs registers ivt irqs := Option.map_id'

/-! ## The dispatch -/

/-- Request `j` has been served: its routine is entered and the request is cleared. -/
structure Served (ivt : NdArray Word) (j : ℕ) (registers registers' : NdArray Word)
    (irqs irqs' : List Bool) : Prop where
  lr : registers'.get? LR = registers.get? PC
  pc : registers'.get? PC = ivt.get? j
  scr : registers'.get? SCR = some 0
  otherRegisters : ∀ r, r ≠ LR → r ≠ PC → r ≠ SCR → registers'.get? r = registers.get? r
  cleared : irqs'[j]? = some false
  otherRequests : ∀ i, i ≠ j → irqs'[i]? = irqs[i]?

/-- A request is served by entering its routine and clearing it. -/
theorem served_of_entered {m registers' : NdArray Word} {before : List Bool} {v : Word}
    (after : List Bool) (hv : ivt.get? before.length = some v)
    (h : Entered v ⟨m, registers⟩ ⟨m, registers'⟩) :
    Served ivt before.length registers registers' (before ++ true :: after)
      (before ++ false :: after) where
  lr := h.lr
  pc := h.pc.trans hv.symm
  scr := h.scr
  otherRegisters := fun r hLR hPC hSCR => h.other r hPC hLR hSCR
  cleared := by simp
  otherRequests := by
    intro i hi
    rw [← set_append_cons before true false after, List.getElem?_set_ne hi.symm]

/-- The first raised request is dispatched; without one, nothing happens. -/
theorem dispatches_first (hsize : registers.size = NREGS) (hivt : irqs.length ≤ ivt.size) :
    (true ∉ irqs → checkIrqsInPlace registers ivt irqs = some (registers, irqs)) ∧
      (true ∈ irqs → ∃ j, IsLeast {i | irqs[i]? = some true} j ∧ ∃ registers' irqs',
        checkIrqsInPlace registers ivt irqs = some (registers', irqs') ∧
          Served ivt j registers registers' irqs irqs') := by
  rw [checkIrqsInPlace_eq, checkIrqs]
  constructor
  · intro hquiet
    exact checkIrqsFrom_idle ivt 0 registers hquiet
  · intro hraised
    obtain ⟨before, after, rfl, hbefore⟩ := List.eq_append_cons_of_mem hraised
    refine ⟨before.length, isLeast_getElem? after hbefore, ?_⟩
    have hlt : before.length < ivt.size := by
      rw [List.length_append, List.length_cons] at hivt
      omega
    obtain ⟨v, hv⟩ := NdArray.exists_get? hlt
    obtain ⟨registers', henter⟩ := exists_enterRoutine hsize hv
    -- no memory takes part, so any array stands for it
    obtain ⟨v', hv', hentered⟩ := enterRoutine_eq_some ivt henter
    refine ⟨registers', before ++ false :: after, ?_, served_of_entered after hv' hentered⟩
    rw [checkIrqsFrom_raised _ _ _ _ hbefore, Nat.zero_add, henter, Option.map_some]

/-- Two of three requests are raised. -/
theorem dispatches_first_twoRaised :
    ∃ j, IsLeast {i | [false, true, true][i]? = some true} j ∧ ∃ registers' irqs',
      checkIrqsInPlace (.fill NREGS 7) (.fill 3 100) [false, true, true] =
          some (registers', irqs') ∧
        Served (.fill 3 100) j (.fill NREGS 7) registers' [false, true, true] irqs' :=
  (dispatches_first rfl (by decide)).2 (by decide)

end Osh.Advanced
