import Osh.Advanced.Interrupts

/-!
# Waiting for an interrupt

SCR marks a sleeping processor: `processorAction` executes nothing while it is set, and
entering a service routine clears it. Two things go wrong around it. `executeInstruction`
treats `WFI` together with `NOP`, so that SCR is never set by it. And the fetch comes
before the test of SCR, so that a sleeping processor counts PC up in every cycle.

## Main definitions

* `call`: one call of `processorAction` with the given requests.
* `Suspended`: calls that execute nothing.
* `SleepsAndResumes`: calls that leave a sleeping processor where it is, until one wakes it up.
-/
namespace Osh.Advanced
open PartialRun

section
variable [NumPy] {cfg : Cfg} {s t u : St} {irqs last : List Bool}
  {schedule quiet : List (List Bool)}

/-- One call of `processorAction`. -/
def call (cfg : Cfg) (s : St) (irqs : List Bool) : Option St :=
  (processorAction cfg irqs s).map Prod.snd

theorem call_eq_some_iff : call cfg s irqs = some t ↔
    ∃ irqs' u, interruptCheck cfg irqs s = some (irqs', u) ∧ fetchDecodeExecute cfg u = some t := by
  simp only [call, Option.map_eq_some_iff, Prod.exists, exists_eq_right,
    processorAction_eq_some_iff]

/-- Without a raised request there is only the fetch and what follows it. -/
theorem call_idle (h : true ∉ irqs) : call cfg s irqs = fetchDecodeExecute cfg s := by
  ext t
  rw [call_eq_some_iff, interruptCheck_idle h]
  constructor
  · rintro ⟨_, _, hcheck, ht⟩
    cases hcheck
    exact ht
  · intro ht
    exact ⟨irqs, s, rfl, ht⟩

/-- The call gets past the test of SCR, to an instruction. -/
def Executes (cfg : Cfg) (irqs : List Bool) (s : St) : Prop :=
  ∃ irqs' u ir t, interruptCheck cfg irqs s = some (irqs', u) ∧
    fetchInstruction cfg u = some (ir, t) ∧ t.reg SCR = some 0

/-- The instruction that the call fetches is `WFI`. -/
def FetchesWfi (cfg : Cfg) (irqs : List Bool) (s : St) : Prop :=
  ∃ irqs' u ir t args, interruptCheck cfg irqs s = some (irqs', u) ∧
    fetchInstruction cfg u = some (ir, t) ∧ decodeInstruction ir = some (WFI, args)

/-- None of the calls executes an instruction, and registers other than PC and memory stay
as they were before the first of them. -/
def Suspended (cfg : Cfg) (schedule : List (List Bool)) (s : St) : Prop :=
  Along (fun u irqs => ¬ Executes cfg irqs u) (call cfg) schedule s ∧
    ∀ k ≤ schedule.length, ∀ u ∈ exec (call cfg) (schedule.take k) s, Frame {PC} ∅ s u

omit [NumPy] in
/-- A fetch changes PC only. -/
theorem fetchInstruction_frame {ir : Ir} (h : fetchInstruction cfg s = some (ir, t)) :
    Frame {PC} ∅ s t := by
  obtain ⟨pcr, w, -, -, -, ht⟩ := fetchInstruction_eq_some_iff.mp h
  exact Frame.of_setReg ht (Set.mem_singleton PC)

/-! ## `WFI` -/

omit [NumPy] in
/-- A processor that is awake stays awake in the interrupt check. -/
theorem reg_SCR_of_interruptCheck {irqs' : List Bool} (hP : cfg.PERIPHERALS = true)
    (hscr : s.reg SCR = some 0) (h : interruptCheck cfg irqs s = some (irqs', u)) :
    u.reg SCR = some 0 := by
  by_cases hraised : true ∈ irqs
  · obtain ⟨before, after, rfl, hbefore⟩ := List.eq_append_cons_of_mem hraised
    obtain ⟨-, -, v, -, hentered⟩ := interruptCheck_raised hP hbefore h
    exact hentered.scr
  · rw [interruptCheck_idle hraised] at h
    cases h
    exact hscr

omit [NumPy] in
/-- In high-level mode the fetch returns a function, which is not decoded. -/
theorem not_HL_of_decode {ir : Ir} {instr : ℕ × Arg × Arg × Arg}
    (hfetch : fetchInstruction cfg s = some (ir, t)) (hdecode : decodeInstruction ir = some instr) :
    cfg.HL = false := by
  obtain ⟨pcr, w, -, -, hir, -⟩ := fetchInstruction_eq_some_iff.mp hfetch
  by_contra hHL
  rw [lookupInstruction, if_pos (by simpa using hHL)] at hir
  split at hir
  · cases hir
    cases hdecode
  · cases hir

/-- `WFI` is executed without setting SCR. -/
theorem reg_SCR_of_fetchesWfi (hP : cfg.PERIPHERALS = true) (hscr : s.reg SCR = some 0)
    (hwfi : FetchesWfi cfg irqs s) (ht : call cfg s irqs = some t) : t.reg SCR = some 0 := by
  obtain ⟨irqs', u, ir, u', args, hcheck, hfetch, hdecode⟩ := hwfi
  have hHL : cfg.HL = false := not_HL_of_decode hfetch hdecode
  obtain ⟨_, _, hcheck', hexec⟩ := call_eq_some_iff.mp ht
  cases hcheck.symm.trans hcheck'
  have hu : u.reg SCR = some 0 := reg_SCR_of_interruptCheck hP hscr hcheck
  have hu' : u'.reg SCR = some 0 := by
    rw [← (fetchInstruction_frame hfetch).reg SCR (by decide), hu]
  rw [fetchDecodeExecute_awake hHL hfetch hu' hdecode, executeInstruction_nop _ (.inr rfl)] at hexec
  cases hexec
  exact hu'

/-- **`WFI` never suspends execution**: the first call after it executes an instruction,
unless its fetch raises. -/
theorem wfi_suspends_iff (hP : cfg.PERIPHERALS = true) (hscr : s.reg SCR = some 0)
    (hwfi : FetchesWfi cfg irqs s) (ht : call cfg s irqs = some t)
    (hquiet : ∀ irqs ∈ schedule, true ∉ irqs) :
    Suspended cfg schedule t ↔ schedule = [] ∨ fetchInstruction cfg t = none := by
  have hawake : t.reg SCR = some 0 := reg_SCR_of_fetchesWfi hP hscr hwfi ht
  cases schedule with
  | nil =>
      refine iff_of_true ⟨trivial, ?_⟩ (.inl rfl)
      intro k _ u hu
      rw [List.take_nil] at hu
      cases hu
      exact Frame.refl t
  | cons irqs' schedule =>
      have hidle : true ∉ irqs' := hquiet irqs' (List.mem_cons_self ..)
      constructor
      · rintro ⟨hnone, -⟩
        right
        by_contra hsome
        obtain ⟨⟨ir, u⟩, hfetch⟩ := Option.ne_none_iff_exists'.mp hsome
        refine hnone.1 ⟨irqs', t, ir, u, interruptCheck_idle hidle _, hfetch, ?_⟩
        rw [← (fetchInstruction_frame hfetch).reg SCR (by decide), hawake]
      · rintro (hnil | hraises)
        · cases hnil
        have hcall : call cfg t irqs' = none := by
          rw [call_idle hidle, fetchDecodeExecute, hraises]
          rfl
        refine ⟨⟨?_, ?_⟩, ?_⟩
        · rintro ⟨_, _, _, _, hcheck, hfetch, -⟩
          rw [interruptCheck_idle hidle] at hcheck
          cases hcheck
          rw [hraises] at hfetch
          cases hfetch
        · intro u hu
          rw [hcall] at hu
          cases hu
        · intro k _ u hu
          cases k with
          | zero =>
              cases hu
              exact Frame.refl t
          | succ k =>
              obtain ⟨u', hu', -⟩ := exec_cons_eq_some_iff.mp hu
              rw [hcall] at hu'
              cases hu'

end

section
attribute [local instance] exactDivision

/-- `WFI` and `SET R1,1` at the start of the code region. -/
def wfiThenSet : St :=
  ⟨((NdArray.fill STATETOP 0).update CODE (.ofNat 64 WFI)).update (CODE + 1) 0x10117,
    startRegisters⟩

theorem fetchesWfi_wfiThenSet : FetchesWfi (mainCfg true) [false] wfiThenSet := by
  obtain ⟨t, ht⟩ := St.exists_setReg (s := wfiThenSet) (r := PC) (v := .ofNat 64 CODE)
    (by decide +kernel) (.ofNat 64 CODE + 1)
  refine ⟨[false], wfiThenSet, .word (.ofNat 64 WFI), t, (.none, .none, .none),
    interruptCheck_idle (by decide) _, ?_, by rfl⟩
  exact fetchInstruction_eq_some_iff.mpr
    ⟨.ofNat 64 CODE, .ofNat 64 WFI, by decide +kernel, by decide +kernel, rfl, ht⟩

theorem wfi_suspends_iff_wfiThenSet : ∃ t, call (mainCfg true) wfiThenSet [false] = some t ∧
    (Suspended (mainCfg true) [[false]] t ↔
      [[false]] = [] ∨ fetchInstruction (mainCfg true) t = none) := by
  have hcall : (call (mainCfg true) wfiThenSet [false]).isSome := by decide +kernel
  obtain ⟨t, ht⟩ := Option.isSome_iff_exists.mp hcall
  exact ⟨t, ht, wfi_suspends_iff rfl (by decide +kernel) fetchesWfi_wfiThenSet ht (by decide)⟩

/-- The instruction after the `WFI` is executed in the next call. -/
theorem set_executed_after_wfi :
    ¬ ∀ (cfg : Cfg) (irqs : List Bool) (schedule : List (List Bool)) (s t : St),
      cfg.PERIPHERALS = true → s.reg SCR = some 0 → FetchesWfi cfg irqs s →
      call cfg s irqs = some t → (∀ irqs ∈ schedule, true ∉ irqs) → Suspended cfg schedule t := by
  intro hclaim
  have hset : ∃ t ∈ call (mainCfg true) wfiThenSet [false],
      ∃ u ∈ exec (call (mainCfg true)) [[false]] t, t.reg 1 = some 0 ∧ u.reg 1 = some 1 := by
    decide +kernel
  obtain ⟨t, ht, u, hu, h0, h1⟩ := hset
  obtain ⟨-, hframe⟩ := hclaim (mainCfg true) [false] [[false]] wfiThenSet t rfl
    (by decide +kernel) fetchesWfi_wfiThenSet ht (by decide)
  have hsame : t.reg 1 = u.reg 1 := (hframe 1 le_rfl u hu).reg 1 (by decide)
  rw [h0, h1] at hsame
  exact absurd hsame (by decide)

end

section
variable [NumPy] {cfg : Cfg} {s t u : St} {irqs last : List Bool} {quiet : List (List Bool)}

/-! ## Asleep -/

/-- A sleeping processor is left where it is by the quiet calls, and the last one enters a
routine that will return there. -/
def SleepsAndResumes (cfg : Cfg) (quiet : List (List Bool)) (last : List Bool) (s : St) : Prop :=
  (∀ k ≤ quiet.length, ∃ u, exec (call cfg) (quiet.take k) s = some u ∧ Frame ∅ ∅ s u) ∧
    ∃ t irqs u v, exec (call cfg) quiet s = some t ∧
      interruptCheck cfg last t = some (irqs, u) ∧ Entered v t u ∧ u.reg LR = s.reg PC

/-- A call on a sleeping processor, without a request: the fetch advances PC, and nothing
else happens. -/
theorem call_asleep {a v : Word} (hquiet : true ∉ irqs) (ha : s.reg PC = some a)
    (hscr : s.reg SCR = some v) (hv : v ≠ 0) (h : call cfg s irqs = some t) :
    Frame {PC} ∅ s t ∧ t.reg PC = some (a + 1) := by
  rw [call_idle hquiet] at h
  obtain ⟨⟨ir, u⟩, hfetch, -⟩ := Option.bind_eq_some_iff.mp h
  have hframe : Frame {PC} ∅ s u := fetchInstruction_frame hfetch
  rw [fetchDecodeExecute_asleep hfetch (by rw [← hframe.reg SCR (by decide), hscr]) hv] at h
  cases h
  obtain ⟨pcr, w, hpc, -, -, hu⟩ := fetchInstruction_eq_some_iff.mp hfetch
  obtain rfl : a = pcr := Option.some.inj (ha.symm.trans hpc)
  exact ⟨hframe, by rw [St.reg_of_setReg hu, if_pos rfl]⟩

/-- **A sleeping processor resumes where it slept** only when it is woken up at once: every
quiet call before that moves PC. -/
theorem resumes_iff (hP : cfg.PERIPHERALS = true) (hregs : s.registers.size = NREGS)
    (hmem : IVT + IVTsz ≤ s.systemState.size) {a v : Word} (ha : s.reg PC = some a)
    (hscr : s.reg SCR = some v) (hv : v ≠ 0) (hquiet : ∀ irqs ∈ quiet, true ∉ irqs)
    (hlast : true ∈ last) (hlen : last.length ≤ IVTsz) :
    SleepsAndResumes cfg quiet last s ↔ quiet = [] := by
  constructor
  · rintro ⟨hstay, -⟩
    cases quiet with
    | nil => rfl
    | cons irqs quiet =>
        obtain ⟨u, hone, hframe⟩ := hstay 1 (Nat.succ_le_succ (Nat.zero_le _))
        obtain ⟨u', hu, hnil⟩ := exec_cons_eq_some_iff.mp hone
        obtain rfl : u' = u := Option.some.inj hnil
        obtain ⟨-, hpc⟩ := call_asleep (hquiet irqs (List.mem_cons_self ..)) ha hscr hv hu
        have hsame : s.reg PC = u'.reg PC := hframe.reg PC id
        rw [ha, hpc] at hsame
        have hne : a ≠ a + 1 := by bv_omega
        exact absurd (Option.some.inj hsame) hne
  · rintro rfl
    refine ⟨?_, ?_⟩
    · intro k _
      exact ⟨s, by rw [List.take_nil, exec_nil], Frame.refl s⟩
    · obtain ⟨before, after, rfl, hbefore⟩ := List.eq_append_cons_of_mem hlast
      have hlt : before.length < IVTsz := by
        rw [List.length_append, List.length_cons] at hlen
        omega
      obtain ⟨w, hw⟩ := NdArray.exists_get? (a := s.systemState) (i := IVT + before.length)
        (by omega)
      obtain ⟨u, hcheck⟩ := exists_interruptCheck hP after hbefore hregs hlt hw
      obtain ⟨-, -, v', -, hentered⟩ := interruptCheck_raised hP hbefore hcheck
      exact ⟨s, _, u, v', rfl, hcheck, hentered, hentered.lr⟩

end

section
attribute [local instance] exactDivision

/-- Asleep at the start of the code region, in a memory of zeros. -/
def asleep : St := ⟨NdArray.fill STATETOP 0, startRegisters.update SCR 1⟩

theorem resumes_iff_asleep :
    SleepsAndResumes (mainCfg true) [[false]] [true] asleep ↔ [[false]] = [] :=
  resumes_iff rfl (a := .ofNat 64 CODE) (v := 1) rfl (by decide) (by decide +kernel)
    (by decide +kernel) (by decide) (by decide) (by decide) (by decide)

/-- After one call asleep, the routine is entered with LR one too high. -/
theorem resumes_too_far :
    ¬ ∀ (cfg : Cfg) (quiet : List (List Bool)) (last : List Bool) (s : St) (a v : Word),
      cfg.PERIPHERALS = true → cfg.HL = false → s.registers.size = NREGS →
      IVT + IVTsz ≤ s.systemState.size → s.reg PC = some a → s.reg SCR = some v → v ≠ 0 →
      (∀ irqs ∈ quiet, true ∉ irqs) → true ∈ last → last.length ≤ IVTsz →
      SleepsAndResumes cfg quiet last s := by
  intro hclaim
  have hcall : ∃ t ∈ exec (call (mainCfg true)) [[false]] asleep,
      ∃ p ∈ interruptCheck (mainCfg true) [true] t, p.2.reg LR = some (.ofNat 64 CODE + 1) := by
    decide +kernel
  obtain ⟨t, ht, ⟨irqs, u⟩, hcheck, hlr⟩ := hcall
  obtain ⟨-, t', irqs', u', v, ht', hcheck', -, hlr'⟩ := hclaim (mainCfg true) [[false]] [true]
    asleep (.ofNat 64 CODE) 1 rfl rfl rfl (by decide) (by decide +kernel) (by decide +kernel)
    (by decide) (by decide) (by decide) (by decide)
  cases (Option.mem_def.mp ht).symm.trans ht'
  cases (Option.mem_def.mp hcheck).symm.trans hcheck'
  have hpc : asleep.reg PC = some (.ofNat 64 CODE) := by decide +kernel
  rw [hlr, hpc] at hlr'
  exact absurd (Option.some.inj hlr') (by decide)

end
end Osh.Advanced
