import Osh.Advanced.Interrupts

/-!
# Returning to the interrupted program

A run of `processorAction` calls under a schedule of interrupt requests, watched by
counters for the routines entered. When no request arrives while a routine is
running, the first interrupted address is in PC again as soon as the routines
entered account for all cycles. A request that does arrive then overwrites LR, and
the outer routine never finds back.

## Main definitions

* `Watched`, `watchStep`: the processor together with the counters, and one call.
* `Installed`: the routine of every request of the schedule is in place.
-/
namespace Osh.Advanced
open PartialRun

/-- The processor, and what an observer counts along the run. -/
structure Watched where
  st : St
  /-- Instructions of the running routine still to be executed. -/
  left : ℕ
  /-- Where the program was first interrupted. -/
  first : Option Word
  /-- Cycles since then. -/
  cycles : ℕ
  /-- Total length of the routines entered. -/
  total : ℕ

/-- Nothing has been interrupted yet. -/
def Watched.start (s : St) : Watched := ⟨s, 0, none, 0, 0⟩

section
variable [NumPy]

/-- One call of `processorAction`, with `len j` for the length of the routine of request `j`. -/
def watchStep (cfg : Cfg) (len : ℕ → ℕ) (x : Watched) (irqs : List Bool) : Option Watched := do
  let (_, st) ← processorAction cfg irqs x.st
  match irqs.findIdx? id with
  | some j =>
    return ⟨st, len j - 1, x.first.or (x.st.reg PC), x.cycles + 1, x.total + len j⟩
  | none =>
    return ⟨st, x.left - 1, x.first, if x.first.isSome then x.cycles + 1 else 0, x.total⟩

/-- The vector of every request that the schedule raises holds the address of its routine. -/
def Installed (cfg : Cfg) (addr : ℕ → Word) (len : ℕ → ℕ) (schedule : List (List Bool))
    (s : St) : Prop :=
  ∀ j, (∃ irqs ∈ schedule, irqs[j]? = some true) →
    s.load (IVT + j) = some (addr j) ∧ RoutineAt cfg s (addr j) (len j)

/-- What holds between calls: a running routine will return to where it interrupted
the program, which is the first address unless the program has run in between. -/
structure Returning (schedule : List (List Bool)) (addr : ℕ → Word) (len : ℕ → ℕ)
    (x : Watched) : Prop where
  running : 0 < x.left → ∃ j, (∃ irqs ∈ schedule, irqs[j]? = some true) ∧ x.left < len j ∧
    x.st.reg PC = some (addr j + .ofNat 64 (len j - x.left)) ∧ x.st.reg SCR = some 0
  fresh : x.first = none → x.left = 0 ∧ x.cycles = 0 ∧ x.total = 0
  back : ∀ pc, x.first = some pc → x.total < x.cycles + x.left ∨
    x.total = x.cycles + x.left ∧ x.st.reg (if x.left = 0 then PC else LR) = some pc

omit [NumPy] in
theorem returning_start (schedule : List (List Bool)) (addr : ℕ → Word) (len : ℕ → ℕ) (s : St) :
    Returning schedule addr len (.start s) := by
  refine ⟨fun h => absurd h (Nat.lt_irrefl 0), fun _ => ⟨rfl, rfl, rfl⟩, ?_⟩
  intro pc h
  cases h

variable {cfg : Cfg} {addr : ℕ → Word} {len : ℕ → ℕ} {schedule : List (List Bool)} {x y : Watched}
  {irqs : List Bool}

omit [NumPy] in
/-- Either no request is raised, or there is a first one. -/
theorem exists_first_raised (irqs : List Bool) :
    true ∉ irqs ∧ irqs.findIdx? id = none ∨
      ∃ before after, irqs = before ++ true :: after ∧ true ∉ before ∧
        irqs.findIdx? id = some before.length := by
  by_cases h : true ∈ irqs
  · right
    obtain ⟨before, after, rfl, hbefore⟩ := List.eq_append_cons_of_mem h
    refine ⟨before, after, rfl, hbefore, ?_⟩
    rw [List.findIdx?_append, List.findIdx?_eq_none_iff.mpr]
    · simp [List.findIdx?_cons]
    · intro b hb
      cases b with
      | false => rfl
      | true => exact absurd hb hbefore
  · left
    refine ⟨h, List.findIdx?_eq_none_iff.mpr ?_⟩
    intro b hb
    cases b with
    | false => rfl
    | true => exact absurd hb h

/-- One call either continues, or enters the routine of the first raised request. -/
theorem watchStep_cases (hP : cfg.PERIPHERALS = true) (h : watchStep cfg len x irqs = some y) :
    ∃ u, fetchDecodeExecute cfg u = some y.st ∧
      (true ∉ irqs ∧ u = x.st ∧ y.left = x.left - 1 ∧ y.first = x.first ∧
          y.cycles = (if x.first.isSome then x.cycles + 1 else 0) ∧ y.total = x.total ∨
        ∃ j v, irqs[j]? = some true ∧ x.st.load (IVT + j) = some v ∧ Entered v x.st u ∧
          y.left = len j - 1 ∧ y.first = x.first.or (x.st.reg PC) ∧ y.cycles = x.cycles + 1 ∧
          y.total = x.total + len j) := by
  obtain ⟨⟨irqs', st⟩, haction, h⟩ := Option.bind_eq_some_iff.mp h
  obtain ⟨u, hcheck, hexec⟩ := processorAction_eq_some_iff.mp haction
  rcases exists_first_raised irqs with ⟨hidle, hfind⟩ | ⟨before, after, rfl, hbefore, hfind⟩
  · rw [hfind] at h
    cases h
    rw [interruptCheck_idle hidle] at hcheck
    cases hcheck
    exact ⟨x.st, hexec, .inl ⟨hidle, rfl, rfl, rfl, rfl, rfl⟩⟩
  · rw [hfind] at h
    cases h
    obtain ⟨-, -, v, hv, hentered⟩ := interruptCheck_raised hP hbefore hcheck
    exact ⟨u, hexec, .inr ⟨before.length, v, by simp, hv, hentered, rfl, rfl, rfl, rfl⟩⟩

omit [NumPy] in
/-- The program itself runs on: from then on the cycles outnumber the routines' instructions. -/
theorem Returning.program (hx : Returning schedule addr len x) (hzero : x.left = 0)
    (hleft : y.left = x.left - 1) (hfirst : y.first = x.first)
    (hcycles : y.cycles = if x.first.isSome then x.cycles + 1 else 0) (htotal : y.total = x.total) :
    Returning schedule addr len y := by
  constructor
  · omega
  · intro hnone
    rw [hfirst] at hnone
    obtain ⟨-, -, htot⟩ := hx.fresh hnone
    rw [hnone] at hcycles
    exact ⟨by omega, hcycles, by omega⟩
  · intro pc hpc
    rw [hfirst] at hpc
    rw [hpc, Option.isSome_some, if_pos rfl] at hcycles
    have := hx.back pc hpc
    omega

/-- A running routine takes its next instruction. -/
theorem Returning.routine (hHL : cfg.HL = false) (hinst : Installed cfg addr len schedule x.st)
    (hx : Returning schedule addr len x) (hpos : 0 < x.left)
    (hexec : fetchDecodeExecute cfg x.st = some y.st) (hleft : y.left = x.left - 1)
    (hfirst : y.first = x.first)
    (hcycles : y.cycles = if x.first.isSome then x.cycles + 1 else 0) (htotal : y.total = x.total) :
    Returning schedule addr len y := by
  obtain ⟨j, hj, hlt, hpc, hscr⟩ := hx.running hpos
  have hstep := (hinst j hj).2.step hHL (by omega) hpc hscr hexec
  have hsome : x.first ≠ none := by
    intro hnone
    have := (hx.fresh hnone).1
    omega
  constructor
  · intro hypos
    rw [if_pos (by omega)] at hstep
    refine ⟨j, hj, by omega, ?_, hstep.2.2⟩
    rw [hstep.1, show len j - x.left + 1 = len j - y.left by omega]
  · intro hnone
    exact absurd (hfirst.symm.trans hnone) hsome
  · intro pc hpc
    rw [hfirst] at hpc
    rw [hpc, Option.isSome_some, if_pos rfl] at hcycles
    rcases hx.back pc hpc with hgap | ⟨htot, hlr⟩
    · exact .inl (by omega)
    · rw [if_neg (by omega)] at hlr
      refine .inr ⟨by omega, ?_⟩
      by_cases hzero : y.left = 0
      · rw [if_neg (by omega)] at hstep
        rw [if_pos hzero, hstep, hlr]
      · rw [if_pos (by omega)] at hstep
        rw [if_neg hzero, hstep.2.1, hlr]

/-- A routine is entered, and takes its first instruction. -/
theorem Returning.enter (hHL : cfg.HL = false) (hinst : Installed cfg addr len schedule x.st)
    (hx : Returning schedule addr len x) (hzero : x.left = 0) {u : St} {j : ℕ} {v : Word}
    (hj : ∃ irqs ∈ schedule, irqs[j]? = some true) (hv : x.st.load (IVT + j) = some v)
    (hentered : Entered v x.st u) (hexec : fetchDecodeExecute cfg u = some y.st)
    (hleft : y.left = len j - 1) (hfirst : y.first = x.first.or (x.st.reg PC))
    (hcycles : y.cycles = x.cycles + 1) (htotal : y.total = x.total + len j) :
    Returning schedule addr len y := by
  obtain ⟨haddr, hroutine⟩ := hinst j hj
  obtain rfl : v = addr j := Option.some.inj (hv.symm.trans haddr)
  have hpos := hroutine.pos
  have hpc : u.reg PC = some (addr j + .ofNat 64 0) := by
    rw [hentered.pc, BitVec.add_zero]
  have hstep := (hroutine.congr hentered.systemState).step hHL hpos hpc hentered.scr hexec
  rw [hentered.lr] at hstep
  constructor
  · intro hypos
    rw [if_pos (by omega)] at hstep
    refine ⟨j, hj, by omega, ?_, hstep.2.2⟩
    rw [hstep.1, show len j - y.left = 0 + 1 by omega]
  · intro hnone
    rw [hfirst, Option.or_eq_none_iff] at hnone
    have hlt : PC < x.st.registers.size := hentered.size ▸ NdArray.lt_size_of_get? hentered.pc
    exact absurd hlt (Nat.not_lt.mpr (NdArray.get?_eq_none_iff.mp hnone.2))
  · intro pc hpc'
    -- the routine returns to the first address, unless the program has run since
    have hback : x.total < x.cycles ∨ x.total = x.cycles ∧ x.st.reg PC = some pc := by
      cases hxfirst : x.first with
      | none =>
          obtain ⟨-, hcyc, htot⟩ := hx.fresh hxfirst
          rw [hfirst, hxfirst, Option.none_or] at hpc'
          exact .inr ⟨by omega, hpc'⟩
      | some pc₁ =>
          rw [hfirst, hxfirst, Option.some_or] at hpc'
          have h := hx.back pc (hxfirst.trans hpc')
          rw [if_pos hzero] at h
          exact h.imp (by omega) (And.imp_left (by omega))
    rcases hback with hgap | ⟨htot, hreturn⟩
    · exact .inl (by omega)
    · refine .inr ⟨by omega, ?_⟩
      by_cases hone : y.left = 0
      · rw [if_neg (by omega)] at hstep
        rw [if_pos hone, hstep, hreturn]
      · rw [if_pos (by omega)] at hstep
        rw [if_neg hone, hstep.2.1, hreturn]

/-- A call during which nothing interrupts a running routine keeps the invariant. -/
theorem returning_step (hP : cfg.PERIPHERALS = true) (hHL : cfg.HL = false)
    (hmem : irqs ∈ schedule) (hinst : Installed cfg addr len schedule x.st)
    (hnest : 0 < x.left → true ∉ irqs) (hx : Returning schedule addr len x)
    (h : watchStep cfg len x irqs = some y) : Returning schedule addr len y := by
  obtain ⟨u, hexec, ⟨hidle, rfl, hleft, hfirst, hcycles, htotal⟩ |
    ⟨j, v, hj, hv, hentered, hleft, hfirst, hcycles, htotal⟩⟩ := watchStep_cases hP h
  · rcases Nat.eq_zero_or_pos x.left with hzero | hpos
    · exact hx.program hzero hleft hfirst hcycles htotal
    · exact hx.routine hHL hinst hpos hexec hleft hfirst hcycles htotal
  · have hzero : x.left = 0 := by
      by_contra hpos
      exact hnest (by omega) (List.mem_of_getElem? hj)
    exact hx.enter hHL hinst hzero ⟨irqs, hmem, hj⟩ hv hentered hexec hleft hfirst hcycles htotal

/-- **Interrupts return to the interrupted program.** Under a schedule that raises
no request while a routine is running, whenever no routine is running and the
cycles since the first interrupt are as many as the routines entered have
instructions, PC is the address at which the program was first interrupted. -/
theorem returns_to_first_interrupted (hP : cfg.PERIPHERALS = true) (hHL : cfg.HL = false) {s : St}
    (hok : Along (fun x irqs => Installed cfg addr len schedule x.st ∧ (0 < x.left → true ∉ irqs))
      (watchStep cfg len) schedule (.start s))
    (hrun : exec (watchStep cfg len) schedule (.start s) = some x) {pc : Word}
    (hfirst : x.first = some pc) (hleft : x.left = 0) (hcycles : x.cycles = x.total) :
    x.st.reg PC = some pc := by
  have hx : Returning schedule addr len x := by
    refine exec_induction (Returning schedule addr len) ?_ (returning_start schedule addr len s)
      (hok.mono fun x irqs hmem h => And.intro hmem h) hrun
    rintro x irqs y hx ⟨hmem, hinst, hnest⟩ hstep
    exact returning_step hP hHL hmem hinst hnest hx hstep
  rcases hx.back pc hfirst with hgap | ⟨-, hreturn⟩
  · omega
  · rwa [if_pos hleft] at hreturn

end

/-! Two routines, of three and of two words, entered one after the other and nested. -/
section
attribute [local instance] exactDivision

/-- Memory full of `NOP`, with a routine at 100 for request 0 and one at 200 for request 1. -/
def twoRoutines : St :=
  let words := [(IVT, 100), (IVT + 1, 200), (102, bxLR), (201, bxLR)]
  ⟨words.foldl (fun m w => m.update w.1 w.2) (.fill STATETOP (.ofNat 64 NOP)), startRegisters⟩

def twoAddr (j : ℕ) : Word := if j = 0 then 100 else 200

def twoLen (j : ℕ) : ℕ := if j = 0 then 3 else 2

/-- Both routines are in place. -/
def TwoInstalled (s : St) : Prop :=
  (s.load IVT = some 100 ∧ RoutineCheck s 100 3) ∧
    s.load (IVT + 1) = some 200 ∧ RoutineCheck s 200 2

instance (s : St) : Decidable (TwoInstalled s) := inferInstanceAs (Decidable ((_ ∧ _) ∧ _ ∧ _))

theorem installed_two {schedule : List (List Bool)} (hlen : ∀ irqs ∈ schedule, irqs.length = 2)
    {s : St} (h : TwoInstalled s) : Installed (mainCfg true) twoAddr twoLen schedule s := by
  rintro j ⟨irqs, hmem, hj⟩
  have hlt : j < 2 := hlen irqs hmem ▸ (List.getElem?_eq_some_iff.mp hj).1
  obtain rfl | rfl : j = 0 ∨ j = 1 := by omega
  · exact ⟨h.1.1, routineAt_of_check h.1.2⟩
  · exact ⟨h.2.1, routineAt_of_check h.2.2⟩

/-- One routine after the other: five cycles, five instructions. -/
def successive : List (List Bool) :=
  [[true, false], [false, false], [false, false], [false, true], [false, false]]

theorem returns_to_first_interrupted_successive :
    ∃ x, exec (watchStep (mainCfg true) twoLen) successive (.start twoRoutines) = some x ∧
      x.st.reg PC = some (.ofNat 64 CODE) := by
  have hok : Along (fun x irqs => Installed (mainCfg true) twoAddr twoLen successive x.st ∧
      (0 < x.left → true ∉ irqs)) (watchStep (mainCfg true) twoLen) successive
      (.start twoRoutines) := by
    have h : Along (fun x irqs => TwoInstalled x.st ∧ (0 < x.left → true ∉ irqs))
        (watchStep (mainCfg true) twoLen) successive (.start twoRoutines) := by decide +kernel
    exact h.mono fun x irqs _ hx => ⟨installed_two (by decide) hx.1, hx.2⟩
  have hcount : (exec (watchStep (mainCfg true) twoLen) successive (.start twoRoutines)).map
      (fun x => (x.first, x.left, x.cycles, x.total)) =
        some (some (.ofNat 64 CODE), 0, 5, 5) := by decide +kernel
  obtain ⟨x, hx, heq⟩ := Option.map_eq_some_iff.mp hcount
  simp only [Prod.mk.injEq] at heq
  obtain ⟨hfirst, hleft, hcycles, htotal⟩ := heq
  exact ⟨x, hx, returns_to_first_interrupted rfl rfl hok hx hfirst hleft
    (hcycles.trans htotal.symm)⟩

/-- The second request arrives in the second cycle of the first routine. -/
def nested : List (List Bool) :=
  [[true, false], [false, true], [false, false], [false, false], [false, false]]

/-- With nested requests five cycles and five instructions end inside the outer
routine: its own address was saved over that of the program. -/
theorem nested_interrupt_not_returned :
    ¬ ∀ (addr : ℕ → Word) (len : ℕ → ℕ) (schedule : List (List Bool)) (s : St) (x : Watched)
      (pc : Word), Along (fun x _ => Installed (mainCfg true) addr len schedule x.st)
        (watchStep (mainCfg true) len) schedule (.start s) →
      exec (watchStep (mainCfg true) len) schedule (.start s) = some x →
      (∀ irqs ∈ schedule.getLast?, true ∉ irqs) → x.first = some pc → x.cycles = x.total →
      x.st.reg PC = some pc := by
  intro hclaim
  have hok : Along (fun x _ => Installed (mainCfg true) twoAddr twoLen nested x.st)
      (watchStep (mainCfg true) twoLen) nested (.start twoRoutines) := by
    have h : Along (fun x _ => TwoInstalled x.st) (watchStep (mainCfg true) twoLen) nested
        (.start twoRoutines) := by decide +kernel
    exact h.mono fun x irqs _ hx => installed_two (by decide) hx
  have hrun : (exec (watchStep (mainCfg true) twoLen) nested (.start twoRoutines)).map
      (fun x => (x.first, x.cycles, x.total, x.st.reg PC)) =
        some (some (.ofNat 64 CODE), 5, 5, some 101) := by decide +kernel
  obtain ⟨x, hx, heq⟩ := Option.map_eq_some_iff.mp hrun
  simp only [Prod.mk.injEq] at heq
  obtain ⟨hfirst, hcycles, htotal, hpc⟩ := heq
  have h := hclaim twoAddr twoLen nested twoRoutines x _ hok hx (by decide) hfirst
    (hcycles.trans htotal.symm)
  rw [hpc] at h
  exact absurd h (by decide)

end
end Osh.Advanced
