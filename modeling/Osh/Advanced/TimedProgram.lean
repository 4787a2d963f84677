import Osh.Advanced.MainProgram

/-!
# The program with peripherals

The first instructions of the Fibonacci program start the timer with a count and a period of
10. Its request comes before the first number has been stored, and the routine of every
vector is the word behind `WFI`, from which nothing leads back: the processor goes on to the
zero words behind the program, and ten cycles later it is interrupted again. With
peripherals `main` therefore runs for any number of cycles, and the memory it prints in the end
is zero.

## Main definitions

* `Awake`: the timer, the processor and RAM at the start of a cycle.
* `countAt`, `periodAt`, `positionAt`: the same over a run.
* `requestsBy`: the number of requests.

## Main results

* `main_prints_zeros`: what is printed.
-/
namespace Osh.Advanced
open PartialRun

section
variable [NumPy] {FIB_MAX : Imm} {hlCode : List HlEntry} {base : ℕ → Option Word} {c p c' p' : Word}
  {i j n N : ℕ} {R R' : ℕ → Word} {L D : Loop} {s t : St}

/-! ## Sizes -/

/-- A step at a program word keeps the sizes of the arrays. -/
theorem Running.frame_of_word {M : ℕ → Option Word} {w : Word}
    (h : Running (fibProg FIB_MAX) hlCode i R M s) (hi : i ≤ codeSz) (hw : M (CODE + i) = some w)
    (hne : w.toNat ≠ HLI) (ht : machineStep hlCode s = some t) :
    Frame Set.univ Set.univ s t := by
  have hword : ∀ pc w', s.reg PC = some pc → s.load pc.toNat = some w' → w'.toNat ≠ HLI := by
    intro pc w' hpc hw'
    obtain rfl : BitVec.ofNat 64 (CODE + i) = pc := Option.some.inj (h.pc.symm.trans hpc)
    rw [toNat_code hi, h.load, hw] at hw'
    exact Option.some.inj hw' ▸ hne
  obtain ⟨pc, w', u, -, -, hu, hexec⟩ := exists_word_of_machineStep h.scr hword ht
  exact (Frame.of_setReg hu (Set.mem_univ PC)).trans
    (executeInstruction_frame ⟨fun _ _ => trivial, fun _ _ => trivial⟩ hexec)

theorem Running.frame_of_entry {M : ℕ → Option Word} {label : Option ℕ} {a : Asm ℕ}
    (h : Running (fibProg FIB_MAX) hlCode i R M s)
    (hentry : (fibProg FIB_MAX)[i]? = some (label, a)) (hisWord : a.isWord)
    (ht : machineStep hlCode s = some t) : Frame Set.univ Set.univ s t := by
  have hprog := assembles_fibProg FIB_MAX
  have hlen : (fibProg FIB_MAX).length ≤ codeSz := of_decide_eq_true rfl
  have hi : i < (fibProg FIB_MAX).length := (List.getElem?_eq_some_iff.mp hentry).1
  have hres := resolved_of_labelsDefined hlen hprog.defined hentry
  refine h.frame_of_word (Nat.le_of_lt (Nat.lt_of_lt_of_le hi hlen)) ?_
    (a.toNat_encode_ne_HLI hres hisWord) ht
  rw [← h.load]
  exact h.loaded.word i _ hentry hisWord

theorem Running.frame_of_timerIRS {M : ℕ → Option Word}
    (h : Running (fibProg FIB_MAX) hlCode 18 R M s) (ht : machineStep hlCode s = some t) :
    Frame Set.univ Set.univ s t := by
  have hprog := assembles_fibProg FIB_MAX
  have hentry : (fibProg FIB_MAX)[18]? = some (none, .hli timerIRS) := rfl
  obtain ⟨u, hu⟩ := St.exists_setReg h.pc (.ofNat 64 (CODE + 18) + 1)
  have hexec := machineStep_of_entry hprog.length hprog.defined hprog.distinct h.loaded h.scr h.pc
    (toNat_code (by decide)) hentry rfl hu
  obtain rfl : u = t := Option.some.inj (hexec.symm.trans ht)
  exact Frame.of_setReg hu (Set.mem_univ PC)

/-! ## One cycle -/

/-- At the start of a cycle: the timer has the given count and period and the DMA engine is
idle, the processor is about to execute word `i` of the code region, and RAM is as it was. -/
structure Awake (FIB_MAX : Imm) (hlCode : List HlEntry) (base : ℕ → Option Word) (c p : Word)
    (i : ℕ) (R : ℕ → Word) (L : Loop) : Prop extends Quiet c p L where
  running : Running (fibProg FIB_MAX) hlCode i R L.st.load L.st
  ram : ∀ a < MEMTOP, L.st.load a = base a

/-- The configuration with the option `-P`. -/
def timedCfg (hlCode : List HlEntry) : Cfg := ⟨true, false, hlCode⟩

omit [NumPy] in
/-- The device actions tick the timer and change neither registers nor RAM. -/
theorem Awake.devices (h : Awake FIB_MAX hlCode base c p i R L) :
    ∃ D, devices L = some D ∧ D.timerState = .view ∧
      D.irqs = [false, false, false, false, decide (c ≤ 1), false] ∧
      Awake FIB_MAX hlCode base (tick c p) p i R D := by
  obtain ⟨D, hD, hquiet, hview, hirqs, hregisters, hram⟩ := devices_quiet h.toQuiet
  have hreg : ∀ r, D.st.reg r = L.st.reg r := fun r => by rw [St.reg, hregisters, St.reg]
  have hlen : (fibProg FIB_MAX).length = 19 := rfl
  refine ⟨D, hD, hview, hirqs, hquiet, ⟨?_, ?_, ?_, fun _ => rfl, ?_⟩, ?_⟩
  · rw [hreg, h.running.pc]
  · rw [hreg, h.running.scr]
  · exact fun r hr => (hreg r).trans (h.running.reg r hr)
  · refine h.running.loaded.congr fun k hk => hram _ ?_
    have hMEMTOP := MEMTOP_eq
    have hCODE := CODE_eq
    omega
  · exact fun a ha => (hram a ha).trans (h.ram a ha)

omit [NumPy] in
/-- What the processor does to the devices decides about the next cycle. -/
theorem Awake.of_running (h : Awake FIB_MAX hlCode base c p i R D) (hview : D.timerState = .view)
    (hframe : Frame Set.univ Set.univ D.st t) {M : ℕ → Option Word}
    (hrunning : Running (fibProg FIB_MAX) hlCode j R' M t)
    (hram : ∀ a < MEMTOP, M a = D.st.load a) (hcount : M TIMER = some c')
    (hperiod : M (TIMER + 1) = some p') (hcontrol : M (DMA + DCR) = D.st.load (DMA + DCR))
    (irqs : List Bool) :
    Awake FIB_MAX hlCode base c' p' j R' { D with irqs, st := t } := by
  have hentry : ∀ k, k < 2 → ({ D with irqs, st := t } : Loop).timer.get? k = M (TIMER + k) := by
    intro k hk
    have hview' : ({ D with irqs, st := t } : Loop).timerState = .view := hview
    rw [timer_of_view hview' (by simp only [timerStateSz]; omega)]
    exact hrunning.load _
  constructor
  · constructor
    · refine ⟨h.kbd, h.nic, h.ssd, h.gpu, h.dma, ?_, ?_⟩
      · exact hframe.size_registers.trans h.registers
      · show _ ∨ _ ∧ STATETOP - 1 ≤ t.systemState.size ∧ t.systemState.size ≤ STATETOP
        rw [hframe.size_systemState]
        exact h.systemState
    · exact (hentry 0 (by decide)).trans hcount
    · exact (hentry 1 (by decide)).trans hperiod
    · show t.load (DMA + DCR) = some 0
      rw [hrunning.load, hcontrol, h.control]
  · exact ⟨hrunning.pc, hrunning.scr, hrunning.reg, fun _ => rfl, hrunning.loaded⟩
  · intro a ha
    show t.load a = base a
    rw [hrunning.load, hram a ha, h.ram a ha]

/-- A cycle without a request: the device actions, and an instruction that may set the
timer but leaves RAM alone. -/
theorem Awake.step (h : Awake FIB_MAX hlCode base c p i R L) (hc : ¬ c ≤ 1)
    (hframe : ∀ s t, Running (fibProg FIB_MAX) hlCode i R s.load s →
      (∀ a < MEMTOP, s.load a = base a) → machineStep hlCode s = some t →
      Frame Set.univ Set.univ s t)
    (hinstr : ∀ s, RunsTo (fibProg FIB_MAX) hlCode s 0 i R s.load →
      (∀ a < MEMTOP, s.load a = base a) → s.load TIMER = some (c - 1) →
      s.load (TIMER + 1) = some p → ∃ M, RunsTo (fibProg FIB_MAX) hlCode s 1 j R' M ∧
        (∀ a < MEMTOP, M a = s.load a) ∧ M TIMER = some c' ∧ M (TIMER + 1) = some p' ∧
        M (DMA + DCR) = s.load (DMA + DCR)) :
    ∃ L', cycle (timedCfg hlCode) L = some L' ∧ Awake FIB_MAX hlCode base c' p' j R' L' := by
  obtain ⟨D, hD, hview, hirqs, h'⟩ := h.devices
  have hcount : D.st.load TIMER = some (c - 1) := by
    have hticked : tick c p = c - 1 := if_neg hc
    rw [← Nat.add_zero TIMER, ← timer_of_view hview (by decide), h'.count, hticked]
  have hperiod : D.st.load (TIMER + 1) = some p := by
    rw [← timer_of_view hview (by decide), h'.period]
  obtain ⟨M, ⟨t, ht, hrunning⟩, hram, hcount', hperiod', hcontrol⟩ :=
    hinstr D.st ⟨D.st, rfl, h'.running⟩ h'.ram hcount hperiod
  have hstep : machineStep hlCode D.st = some t := ht
  have hidle : true ∉ D.irqs := by
    rw [hirqs, decide_eq_false hc]
    decide
  refine ⟨{ D with irqs := D.irqs, st := t }, ?_, ?_⟩
  · refine cycle_eq_some_iff.mpr ⟨D, D.irqs, t, hD, processorAction_eq_some_iff.mpr ?_, rfl⟩
    exact ⟨D.st, interruptCheck_idle hidle D.st,
      (fetchDecodeExecute_eq true hlCode D.st).trans hstep⟩
  · exact h'.of_running hview (hframe _ _ h'.running h'.ram hstep) hrunning hram hcount' hperiod'
      hcontrol D.irqs

/-- An instruction that only changes registers. -/
theorem Awake.plain (h : Awake FIB_MAX hlCode base c p i R L) (hc : ¬ c ≤ 1) {label : Option ℕ}
    {a : Asm ℕ} (hentry : (fibProg FIB_MAX)[i]? = some (label, a)) (hisWord : a.isWord)
    (hinstr : ∀ s, RunsTo (fibProg FIB_MAX) hlCode s 0 i R s.load →
      RunsTo (fibProg FIB_MAX) hlCode s 1 j R' s.load) :
    ∃ L', cycle (timedCfg hlCode) L = some L' ∧ Awake FIB_MAX hlCode base (c - 1) p j R' L' :=
  h.step hc (fun _ _ hs _ => hs.frame_of_entry hentry hisWord) fun s hs _ hcount hperiod =>
    ⟨s.load, hinstr s hs, fun _ _ => rfl, hcount, hperiod, rfl⟩

/-- An instruction that stores to the timer: with `k` 0 its count, with `k` 1 its period. -/
theorem Awake.str (h : Awake FIB_MAX hlCode base c p i R L) (hc : ¬ c ≤ 1) {k : ℕ} (hk : k < 2)
    {label : Option ℕ} {r1 r2 : Reg} (hentry : (fibProg FIB_MAX)[i]? = some (label, .str r1 r2))
    (hr1 : r1.val < SP) (hr2 : r2.val < SP) (haddr : R r2 = .ofNat 64 (TIMER + k)) :
    ∃ L', cycle (timedCfg hlCode) L = some L' ∧ Awake FIB_MAX hlCode base
      (if k = 0 then R r1 else c - 1) (if k = 0 then p else R r1) (i + 1) R L' := by
  have hcode : CODE + (fibProg FIB_MAX).length ≤ TIMER := of_decide_eq_true rfl
  have hTIMER := TIMER_eq
  have hDMA : TIMER + 1 < DMA + DCR := by decide
  have haddr' : (R r2).toNat = TIMER + k := by
    rw [haddr, BitVec.toNat_ofNat]
    omega
  refine h.step hc (fun _ _ hs _ => hs.frame_of_entry hentry rfl) ?_
  intro s hs _ hcount hperiod
  have hmem : s.load (TIMER + k) ≠ none := by
    have hcases : k = 0 ∨ k = 1 := by omega
    rcases hcases with rfl | rfl
    · exact hcount ▸ Option.some_ne_none _
    · exact hperiod ▸ Option.some_ne_none _
  refine ⟨_, hs.str (assembles_fibProg FIB_MAX) hentry hr1 hr2 haddr' hmem
    (.inr (Nat.le_trans hcode (Nat.le_add_right ..))), ?_, ?_, ?_, ?_⟩
  · intro a ha
    have hMEMTOP : MEMTOP = TIMER := rfl
    exact Function.update_of_ne (by omega) ..
  · rw [Function.update_apply]
    by_cases hzero : k = 0
    · rw [if_pos (by omega), if_pos hzero]
    · rw [if_neg (by omega), if_neg hzero, hcount]
  · rw [Function.update_apply]
    by_cases hzero : k = 0
    · rw [if_neg (by omega), if_pos hzero, hperiod]
    · rw [if_pos (by omega), if_neg hzero]
  · exact Function.update_of_ne (by omega) ..

omit [NumPy] in
/-- Without a request nothing is printed, unless the routine is called. -/
theorem Awake.cyclePrints (h : Awake FIB_MAX hlCode base c p i R L) (hc : ¬ c ≤ 1)
    (hi : i < codeSz) (hzero : 19 ≤ i → base (CODE + i) = some 0) :
    cyclePrints (timedCfg hlCode) L = if i = 18 then [.irsCalled] else [] := by
  obtain ⟨D, hD, -, hirqs, h'⟩ := h.devices
  have hidle : true ∉ D.irqs := by
    rw [hirqs, decide_eq_false hc]
    decide
  have hMEMTOP : CODE + i < MEMTOP := Nat.add_lt_add_left hi CODE
  have hphase : devicePhase (timedCfg hlCode) L = some D := hD
  rw [cyclePrints_of_idle hphase hidle]
  refine h'.running.callPrints true hi fun hge => ?_
  rw [h'.ram _ hMEMTOP, hzero hge]

omit [NumPy] in
/-- With the timer's request the processor enters the routine, and the count is reloaded. -/
theorem Awake.entersRoutine (h : Awake FIB_MAX hlCode base c p i R L) (hc : c ≤ 1)
    (hivt : base (IVT + 4) = some (.ofNat 64 (CODE + 18))) :
    ∃ D u, devicePhase (timedCfg hlCode) L = some D ∧ D.timerState = .view ∧
      D.irqs = [false, false, false, false] ++ true :: [false] ∧
      Awake FIB_MAX hlCode base p p i R D ∧
      interruptCheck (timedCfg hlCode) D.irqs D.st =
        some ([false, false, false, false] ++ false :: [false], u) ∧
      Frame Set.univ Set.univ D.st u ∧ Running (fibProg FIB_MAX) hlCode 18 R D.st.load u := by
  obtain ⟨D, hD, hview, hirqs, h'⟩ := h.devices
  have hticked : tick c p = p := if_pos hc
  rw [hticked] at h'
  rw [decide_eq_true hc] at hirqs
  have hMEMTOP : IVT + 4 < MEMTOP := by decide
  have hvector : D.st.load (IVT + 4) = some (.ofNat 64 (CODE + 18)) := (h'.ram _ hMEMTOP).trans hivt
  have hP : (timedCfg hlCode).PERIPHERALS = true := rfl
  have hbefore : true ∉ [false, false, false, false] := by decide
  obtain ⟨u, hcheck⟩ := exists_interruptCheck hP [false] hbefore
    h'.registers (by decide) hvector
  obtain ⟨-, -, v, hv, hentered⟩ := interruptCheck_raised hP hbefore hcheck
  obtain rfl : BitVec.ofNat 64 (CODE + 18) = v := Option.some.inj (hvector.symm.trans hv)
  have hload : ∀ a, u.load a = D.st.load a := fun a => by
    rw [St.load, hentered.systemState, St.load]
  refine ⟨D, u, hD, hview, hirqs, h', ?_,
    hentered.frame.mono (Set.subset_univ _) (Set.empty_subset _), hentered.pc, hentered.scr, ?_,
    hload, h'.running.loaded.congr fun k _ => hload _⟩
  · rw [hirqs]
    exact hcheck
  · intro r hr
    simp only [SP] at hr
    rw [hentered.other r (by simp only [PC]; omega) (by simp only [LR]; omega)
      (by simp only [SCR]; omega), h'.running.reg r hr]

/-- The routine does nothing, and is left behind. -/
theorem Awake.interrupt (h : Awake FIB_MAX hlCode base c p i R L) (hc : c ≤ 1)
    (hivt : base (IVT + 4) = some (.ofNat 64 (CODE + 18))) :
    ∃ L', cycle (timedCfg hlCode) L = some L' ∧ Awake FIB_MAX hlCode base p p 19 R L' := by
  obtain ⟨D, u, hD, hview, -, h', hcheck, hframe, hrunning⟩ := h.entersRoutine hc hivt
  have hroutine : RunsTo (fibProg FIB_MAX) hlCode u 0 18 R D.st.load := ⟨u, rfl, hrunning⟩
  obtain ⟨t, ht, hnext⟩ := hroutine.timerIRS (assembles_fibProg FIB_MAX) rfl
  have hstep : machineStep hlCode u = some t := ht
  have hcount : D.st.load TIMER = some p := by
    rw [← Nat.add_zero TIMER, ← timer_of_view hview (by decide), h'.count]
  have hperiod : D.st.load (TIMER + 1) = some p := by
    rw [← timer_of_view hview (by decide), h'.period]
  have haction : processorAction (timedCfg hlCode) D.irqs D.st =
      some ([false, false, false, false] ++ false :: [false], t) :=
    processorAction_eq_some_iff.mpr
      ⟨u, hcheck, (fetchDecodeExecute_eq true hlCode u).trans hstep⟩
  exact ⟨_, cycle_eq_some_iff.mpr ⟨D, _, t, hD, haction, rfl⟩,
    h'.of_running hview (hframe.trans (hrunning.frame_of_timerIRS hstep)) hnext (fun _ _ => rfl)
      hcount hperiod rfl _⟩

omit [NumPy] in
/-- The request and the call are printed. -/
theorem Awake.interruptPrints (h : Awake FIB_MAX hlCode base c p i R L) (hc : c ≤ 1)
    (hivt : base (IVT + 4) = some (.ofNat 64 (CODE + 18))) :
    Advanced.cyclePrints (timedCfg hlCode) L = [.irqRaised 4, .irsCalled] := by
  obtain ⟨D, u, hD, -, hirqs, -, hcheck, -, hrunning⟩ := h.entersRoutine hc hivt
  have hcalled : callPrints (timedCfg hlCode) u = [.irsCalled] :=
    hrunning.callPrints true (by decide) (fun hge => absurd hge (by decide))
  rw [Advanced.cyclePrints, hD]
  dsimp only
  rw [hcheck, hirqs, Option.map_some, Option.getD_some, hcalled]
  rfl

/-! ## A run -/

/-- The timer's count before cycle `n`, the program having set it in cycle 3. -/
def countAt (N n : ℕ) : ℕ :=
  if n ≤ 3 then N + 1 - n else if n ≤ 13 then 14 - n else 10 - (n - 14) % 10

/-- Its period, which the program sets in cycle 5. -/
def periodAt (N n : ℕ) : ℕ := if n ≤ 5 then N + 1 else 10

/-- The word of the code region that cycle `n` executes, unless it is interrupted. -/
def positionAt (n : ℕ) : ℕ := if n ≤ 13 then n else 19 + (n - 14) % 10

/-- What the instructions executed so far have put into the registers for those to come. -/
def SetUp (n : ℕ) (R : ℕ → Word) : Prop :=
  match n with
  | 1 => R 1 = 10
  | 2 => R 1 = 10 ∧ R 2 = 10
  | 3 => R 1 = 10 ∧ R 2 = 10 ∧ R 3 = .ofNat 64 TIMER
  | 4 => R 2 = 10
  | 5 => R 2 = 10 ∧ R 3 = .ofNat 64 (TIMER + 1)
  | _ => True

/-- Before cycle `n` of `N`. -/
def AwakeAt (FIB_MAX : Imm) (hlCode : List HlEntry) (base : ℕ → Option Word) (N n : ℕ)
    (L : Loop) : Prop :=
  ∃ R, Awake FIB_MAX hlCode base (.ofNat 64 (countAt N n)) (.ofNat 64 (periodAt N n))
    (positionAt n) R L ∧ SetUp n R

omit [NumPy] in
theorem ofNat_le_one_iff {x : ℕ} (hx : x < 2 ^ 64) : BitVec.ofNat 64 x ≤ 1 ↔ x ≤ 1 := by
  rw [BitVec.le_def, BitVec.toNat_ofNat, Nat.mod_eq_of_lt hx]
  rfl

omit [NumPy] in
theorem ofNat_sub_one {x : ℕ} (hx : 1 ≤ x) : BitVec.ofNat 64 x - 1 = .ofNat 64 (x - 1) := by
  obtain ⟨y, rfl⟩ : ∃ y, x = y + 1 := ⟨x - 1, by omega⟩
  rw [← ofNat_succ, BitVec.add_sub_cancel, Nat.add_sub_cancel]

/-- The first cycles run the program, which starts the timer. -/
theorem AwakeAt.setUp (h : AwakeAt FIB_MAX hlCode base N n L) (hN : N + 1 < 2 ^ 64) (hn : n < N)
    (h12 : n ≤ 12) : ∃ L', cycle (timedCfg hlCode) L = some L' ∧
      AwakeAt FIB_MAX hlCode base N (n + 1) L' := by
  have hprog := assembles_fibProg FIB_MAX
  have hcode : CODE + (fibProg FIB_MAX).length ≤ TIMER := of_decide_eq_true rfl
  obtain ⟨R, h, hR⟩ := h
  have hposition : positionAt n = n := if_pos (by omega)
  rw [hposition] at h
  have hcount : countAt N n < 2 ^ 64 ∧ 2 ≤ countAt N n := by
    rw [countAt]
    split_ifs <;> omega
  have hc : ¬ BitVec.ofNat 64 (countAt N n) ≤ 1 := by
    rw [ofNat_le_one_iff hcount.1]
    omega
  -- most instructions only change a register
  have hplain : ∀ {label : Option ℕ} {a : Asm ℕ} {R' : ℕ → Word}, n ≠ 3 → n ≠ 5 →
      (fibProg FIB_MAX)[n]? = some (label, a) → a.isWord = true →
      (∀ s, RunsTo (fibProg FIB_MAX) hlCode s 0 n R s.load →
        RunsTo (fibProg FIB_MAX) hlCode s 1 (n + 1) R' s.load) → SetUp (n + 1) R' →
      ∃ L', cycle (timedCfg hlCode) L = some L' ∧
        AwakeAt FIB_MAX hlCode base N (n + 1) L' := by
    intro label a R' h3 h5 hentry hisWord hinstr hR'
    obtain ⟨L', hL', h'⟩ := h.plain hc hentry hisWord hinstr
    refine ⟨L', hL', R', ?_, hR'⟩
    have hcount' : countAt N n - 1 = countAt N (n + 1) := by
      rw [countAt, countAt]
      split_ifs <;> omega
    have hperiod' : periodAt N n = periodAt N (n + 1) := by
      rw [periodAt, periodAt]
      split_ifs <;> omega
    have hposition' : positionAt (n + 1) = n + 1 := if_pos (by omega)
    rw [ofNat_sub_one (Nat.le_of_lt hcount.2), hcount', hperiod'] at h'
    rwa [hposition']
  interval_cases n
  · exact hplain (by decide) (by decide) rfl rfl (fun s h => h.set hprog rfl (by decide)) rfl
  · exact hplain (by decide) (by decide) rfl rfl (fun s h => h.set hprog rfl (by decide)) ⟨hR, rfl⟩
  · exact hplain (by decide) (by decide) rfl rfl (fun s h => h.set hprog rfl (by decide))
      ⟨hR.1, hR.2, rfl⟩
  · obtain ⟨L', hL', h'⟩ :=
      h.str hc (by decide : 0 < 2) rfl (by decide : (1 : Reg).val < SP) (by decide) hR.2.2
    have hR1 : R (1 : Reg).val = 10 := hR.1
    rw [if_pos rfl, if_pos rfl, hR1] at h'
    exact ⟨L', hL', R, h', hR.2.1⟩
  · exact hplain (by decide) (by decide) rfl rfl (fun s h => h.set hprog rfl (by decide)) ⟨hR, rfl⟩
  · obtain ⟨L', hL', h'⟩ :=
      h.str hc (by decide : 1 < 2) rfl (by decide : (2 : Reg).val < SP) (by decide) hR.2
    have hR2 : R (2 : Reg).val = 10 := hR.1
    rw [if_neg (by decide), if_neg (by decide), hR2, ofNat_sub_one (Nat.le_of_lt hcount.2)] at h'
    exact ⟨L', hL', R, h', trivial⟩
  · exact hplain (by decide) (by decide) rfl rfl (fun s h => h.set hprog rfl (by decide)) trivial
  · exact hplain (by decide) (by decide) rfl rfl (fun s h => h.set hprog rfl (by decide)) trivial
  · exact hplain (by decide) (by decide) rfl rfl (fun s h => h.set hprog rfl (by decide)) trivial
  · exact hplain (by decide) (by decide) rfl rfl (fun s h => h.set hprog rfl (by decide)) trivial
  · exact hplain (by decide) (by decide) rfl rfl (fun s h => h.set hprog rfl (by decide)) trivial
  · exact hplain (by decide) (by decide) rfl rfl
      (fun s h => h.alu hprog rfl (by decide) (by decide) (by decide)) trivial
  · exact hplain (by decide) (by decide) rfl rfl
      (fun s h => h.mov hprog rfl (by decide) (by decide)) trivial

/-- From cycle 13 on, the timer interrupts every tenth cycle, and the others execute zero
words. -/
theorem AwakeAt.spin (h : AwakeAt FIB_MAX hlCode base N n L) (h13 : 13 ≤ n)
    (hivt : base (IVT + 4) = some (.ofNat 64 (CODE + 18)))
    (hzero : ∀ i, 19 ≤ i → i < codeSz → base (CODE + i) = some 0) :
    ∃ L', cycle (timedCfg hlCode) L = some L' ∧
      AwakeAt FIB_MAX hlCode base N (n + 1) L' := by
  obtain ⟨R, h, -⟩ := h
  have hperiod : periodAt N n = 10 := if_neg (by omega)
  have hperiod' : periodAt N (n + 1) = 10 := if_neg (by omega)
  rw [hperiod] at h
  have hSetUp : ∀ R', SetUp (n + 1) R' := by
    intro R'
    obtain ⟨m, rfl⟩ : ∃ m, n = m + 5 := ⟨n - 5, by omega⟩
    trivial
  by_cases hdue : countAt N n = 1
  · rw [hdue] at h
    obtain ⟨L', hL', h'⟩ := h.interrupt (by decide) hivt
    have hcount' : countAt N (n + 1) = 10 := by
      rw [countAt] at hdue ⊢
      split_ifs at hdue ⊢ <;> omega
    have hposition' : positionAt (n + 1) = 19 := by
      rw [countAt] at hdue
      rw [positionAt]
      split_ifs at hdue ⊢ <;> omega
    refine ⟨L', hL', R, ?_, hSetUp R⟩
    rwa [hcount', hperiod', hposition']
  · -- not due: a zero word
    obtain ⟨hcount, hle, hposition, hcount', hposition'⟩ : 2 ≤ countAt N n ∧ countAt N n ≤ 10 ∧
        positionAt n = 19 + (10 - countAt N n) ∧ countAt N (n + 1) = countAt N n - 1 ∧
        positionAt (n + 1) = positionAt n + 1 := by
      rw [positionAt, positionAt, countAt, countAt] at *
      split_ifs at * <;> omega
    have hc : ¬ BitVec.ofNat 64 (countAt N n) ≤ 1 := by
      rw [ofNat_le_one_iff (by omega)]
      omega
    have hi : positionAt n < codeSz := by
      simp only [codeSz]
      omega
    have hMEMTOP : CODE + positionAt n < MEMTOP := Nat.add_lt_add_left hi CODE
    have hword : ∀ s : St, (∀ a < MEMTOP, s.load a = base a) →
        s.load (CODE + positionAt n) = some 0 := by
      intro s hs
      rw [hs _ hMEMTOP, hzero _ (by omega) hi]
    obtain ⟨L', hL', h'⟩ := h.step hc
      (fun s t hs hbase => hs.frame_of_word (Nat.le_of_lt hi) (hword s hbase) (by decide))
      fun s hs hbase hcnt hper =>
        ⟨s.load, hs.zero hi (hword s hbase), fun _ _ => rfl, hcnt, hper, rfl⟩
    rw [ofNat_sub_one (Nat.le_of_lt hcount), ← hcount', ← hposition', ← hperiod'] at h'
    exact ⟨L', hL', _, h', hSetUp _⟩

/-- Every cycle of `main` is as the tables say. -/
theorem awakeAt {start : Loop} (hbooted : Booted FIB_MAX N hlCode start) (hN : N + 1 < 2 ^ 64) :
    ∀ n ≤ N, ∃ L, iter (cycle (timedCfg hlCode)) n start = some L ∧
      AwakeAt FIB_MAX hlCode start.st.load N n L := by
  intro n
  induction n with
  | zero =>
      intro _
      have hregisters := hbooted.registers
      refine ⟨start, rfl, _, ⟨hbooted.quiet, running_start hbooted.loaded ?_ ?_ ?_, fun _ _ => rfl⟩,
        trivial⟩
      · rw [hregisters]
        rfl
      · rw [St.reg, hregisters]
        rfl
      · rw [St.reg, hregisters]
        rfl
  | succ n ih =>
      intro hn
      obtain ⟨L, hL, h⟩ := ih (by omega)
      have hivt : start.st.load (IVT + 4) = some (.ofNat 64 (CODE + 18)) :=
        hbooted.ivt 4 (by decide)
      obtain ⟨L', hL', h'⟩ : ∃ L', cycle (timedCfg hlCode) L = some L' ∧
          AwakeAt FIB_MAX hlCode start.st.load N (n + 1) L' := by
        rcases Nat.lt_or_ge n 13 with hlt | hge
        · exact h.setUp hN hn (by omega)
        · exact h.spin hge hivt hbooted.code
      exact ⟨L', iter_succ_eq_some_iff.mpr ⟨L, hL, hL'⟩, h'⟩

omit [NumPy] in
/-- Two lines are printed in a cycle in which the timer is due, and none in the others. -/
theorem AwakeAt.cyclePrints (h : AwakeAt FIB_MAX hlCode base N n L) (hN : N + 1 < 2 ^ 64)
    (hn : n < N) (hivt : base (IVT + 4) = some (.ofNat 64 (CODE + 18)))
    (hzero : ∀ i, 19 ≤ i → i < codeSz → base (CODE + i) = some 0) :
    cyclePrints (timedCfg hlCode) L =
      if countAt N n = 1 then [.irqRaised 4, .irsCalled] else [] := by
  obtain ⟨R, h, -⟩ := h
  by_cases hdue : countAt N n = 1
  · rw [if_pos hdue]
    rw [hdue] at h
    exact h.interruptPrints (by decide) hivt
  · have hcount : 2 ≤ countAt N n ∧ countAt N n < 2 ^ 64 := by
      rw [countAt] at hdue ⊢
      split_ifs at hdue ⊢ <;> omega
    have hposition : positionAt n < 29 ∧ positionAt n ≠ 18 := by
      rw [positionAt]
      split_ifs <;> omega
    have hc : ¬ BitVec.ofNat 64 (countAt N n) ≤ 1 := by
      rw [ofNat_le_one_iff hcount.2]
      omega
    have hi : positionAt n < codeSz := by
      simp only [codeSz]
      omega
    rw [if_neg hdue, h.cyclePrints hc hi fun hge => hzero _ hge hi, if_neg hposition.2]

/-- The number of requests in the first `N` cycles. -/
def requestsBy (N : ℕ) : ℕ := (N - 4) / 10

/-- **What is printed with peripherals**, for every `FIB_MAX` up to the start of the code region
and every number of cycles: no cycle raises, and none changes RAM, so that the memory is printed
as zeros. From cycle 13 on there are two lines for every tenth. -/
theorem main_prints_zeros {n N : ℕ} (hn : n ≤ CODE) (hN : N + 1 < 2 ^ 64) :
    main true ⟨n, fib_lt hn⟩ N = some (.timerAddress ::
      ((List.replicate (requestsBy N) [.irqRaised 4, .irsCalled]).flatten ++
        [.memory (.fill (n - (IVT + IVTsz)) 0)])) := by
  obtain ⟨ram', hlCode, start, hload, hstart, hbooted⟩ := exists_booted ⟨n, fib_lt hn⟩ hN
  have hrun := awakeAt hbooted hN
  obtain ⟨L, hL, R, h, -⟩ := hrun N le_rfl
  have hMEMTOP := MEMTOP_eq
  have hCODE := CODE_eq
  have hivt : start.st.load (IVT + 4) = some (.ofNat 64 (CODE + 18)) := hbooted.ivt 4 (by decide)
  have hprinted : outputs (cycle (timedCfg hlCode)) (cyclePrints (timedCfg hlCode)) N start =
      (List.replicate (requestsBy N) [.irqRaised 4, .irsCalled]).flatten := by
    refine outputs_eq (G := fun N =>
      (List.replicate (requestsBy N) [Printed.irqRaised 4, .irsCalled]).flatten) rfl fun k hk => ?_
    obtain ⟨L, hL, h⟩ := hrun k (Nat.le_of_lt hk)
    refine ⟨L, hL, ?_⟩
    rw [h.cyclePrints hN hk hivt hbooted.code]
    by_cases hdue : countAt N k = 1
    · have hnext : requestsBy (k + 1) = requestsBy k + 1 := by
        rw [countAt] at hdue
        rw [requestsBy, requestsBy]
        split_ifs at hdue <;> omega
      rw [if_pos hdue, hnext, List.replicate_succ', List.flatten_append, List.flatten_singleton]
    · have hnext : requestsBy (k + 1) = requestsBy k := by
        rw [countAt] at hdue
        rw [requestsBy, requestsBy]
        split_ifs at hdue <;> omega
      rw [if_neg hdue, hnext, List.append_nil]
  have hzeros : L.st.systemState.slice (IVT + IVTsz) n = .fill (n - (IVT + IVTsz)) 0 := by
    refine NdArray.ext_get? fun i => ?_
    rw [NdArray.get?_slice, NdArray.get?_fill]
    by_cases hi : i < n - (IVT + IVTsz)
    · rw [if_pos (by omega), if_pos hi]
      show L.st.load (IVT + IVTsz + i) = some 0
      rw [h.ram _ (by omega), hbooted.data _ (Nat.le_add_right ..) (by omega)]
    · rw [if_neg (by omega), if_neg hi]
  rw [main_eq hload hstart, show (⟨true, false, hlCode⟩ : Cfg) = timedCfg hlCode from rfl, hL,
    hprinted]
  show some (_ :: (_ ++ [Printed.memory (L.st.systemState.slice (IVT + IVTsz) n)])) = _
  rw [hzeros]

end

section
attribute [local instance] exactDivision

theorem main_prints_zeros_default : main true 84 512 = some (.timerAddress ::
    ((List.replicate 50 [.irqRaised 4, .irsCalled]).flatten ++ [.memory (.fill 68 0)])) := by
  have hn : 84 ≤ CODE := by decide
  exact main_prints_zeros hn (by decide)

end
end Osh.Advanced
