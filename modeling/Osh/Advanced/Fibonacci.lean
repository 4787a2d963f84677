import Mathlib.Data.Nat.Fib.Basic
import Osh.Advanced.Interpreter

/-!
# The Fibonacci program

The program that `load_code` assembles stores Fibonacci numbers downwards in memory. Its
loop is a translation of the loop of `fib_hl` to six instructions, and the proof follows
the loop: one turn of it is six steps of the machine, and the descending counter carries the
induction.

## Main definitions

* `fibProg`: the program, for any value of `FIB_MAX`.
* `fibLoop`: the variables of the loop of `fib_hl`.
* `Running`: the machine runs a loaded program and is at a given instruction.
-/
namespace Osh.Advanced
open PartialRun

/-- Prints a message. -/
def timerIRS : HlFn := fun s => some s

/-- `fib_prog`, with the label 1 of its loop. -/
def fibProg (FIB_MAX : Imm) : Program ℕ :=
  [(none, .set 1 10), (none, .set 2 10), (none, .set 3 ⟨TIMER, TIMER_lt⟩), (none, .str 1 3),
    (none, .set 3 ⟨TIMER + 1, TIMER_succ_lt⟩), (none, .str 2 3), (none, .set 1 1),
    (none, .set 2 1), (none, .set 3 0), (none, .set 4 FIB_MAX), (none, .set 5 1),
    (some 1, .alu .add 3 1 2), (none, .mov 1 2), (none, .mov 2 3), (none, .alu .sub 4 4 5),
    (none, .str 3 4), (none, .cbnz 4 1), (none, .wfi), (none, .hli timerIRS)]

/-- The loop of `fib_hl` on its variables `r1`, `r2` and `r3`, by recursion on `r4`. They
are unbounded integers. -/
def fibLoop (r1 r2 r3 : ℕ) : ℕ → ℕ × ℕ × ℕ
  | 0 => (r1, r2, r3)
  | r4 + 1 => fibLoop r2 (r1 + r2) (r1 + r2) r4

/-- The variables are Fibonacci numbers, and `r3` is the last one stored. -/
theorem fibLoop_fib (k r3 : ℕ) : ∀ m, fibLoop (Nat.fib (k + 1)) (Nat.fib (k + 2)) r3 (m + 1) =
    (Nat.fib (k + m + 2), Nat.fib (k + m + 3), Nat.fib (k + m + 3)) := by
  intro m
  have hstep : ∀ k, Nat.fib (k + 1) + Nat.fib (k + 2) = Nat.fib (k + 3) :=
    fun k => (Nat.fib_add_two).symm
  induction m generalizing k r3 with
  | zero => rw [fibLoop, hstep, fibLoop, Nat.add_zero]
  | succ m ih =>
      rw [fibLoop, hstep, ih (k + 1), show k + 1 + m = k + (m + 1) by omega]

theorem fibLoop_one (r3 m : ℕ) :
    fibLoop 1 1 r3 (m + 1) = (Nat.fib (m + 2), Nat.fib (m + 3), Nat.fib (m + 3)) := by
  refine (fibLoop_fib 0 r3 m).trans ?_
  rw [Nat.zero_add]

/-! ## Running a loaded program -/

/-- The machine is about to execute instruction `i` of a loaded program. Registers below SP
and memory have the given contents. -/
structure Running (prog : Program ℕ) (hlCode : List HlEntry) (i : ℕ) (R : ℕ → Word)
    (M : ℕ → Option Word) (s : St) : Prop where
  pc : s.reg PC = some (.ofNat 64 (CODE + i))
  scr : s.reg SCR = some 0
  reg : ∀ r < SP, s.reg r = some (R r)
  load : ∀ a, s.load a = M a
  loaded : Loaded prog s hlCode

/-- A loaded program at its start. -/
theorem running_start {prog : Program ℕ} {hlCode : List HlEntry} {s : St}
    (hloaded : Loaded prog s hlCode) (hregisters : s.registers.size = NREGS)
    (hpc : s.reg PC = some (.ofNat 64 CODE)) (hscr : s.reg SCR = some 0) :
    Running prog hlCode 0 (fun r => (s.reg r).getD 0) s.load s := by
  refine ⟨hpc, hscr, ?_, fun _ => rfl, hloaded⟩
  intro r hr
  simp only [SP] at hr
  obtain ⟨v, hv⟩ := NdArray.exists_get? (a := s.registers) (i := r)
    (by rw [hregisters]; simp only [NREGS]; omega)
  rw [show s.reg r = some v from hv]
  rfl

namespace Running
variable {prog : Program ℕ} {hlCode : List HlEntry} {i j r a : ℕ} {R : ℕ → Word}
  {M : ℕ → Option Word} {s t : St} {v : Word}

theorem setReg (h : Running prog hlCode i R M s) (hr : r < SP) (v : Word) :
    ∃ t, s.setReg r v = some t ∧ Running prog hlCode i (Function.update R r v) M t := by
  obtain ⟨t, ht⟩ := St.exists_setReg (h.reg r hr) v
  simp only [SP] at hr
  have hne : ∀ q, 13 ≤ q → t.reg q = s.reg q := by
    intro q hq
    rw [St.reg_of_setReg ht, if_neg (by omega)]
  refine ⟨t, ht, ?_, ?_, ?_, ?_, ?_⟩
  · rw [hne PC (by decide), h.pc]
  · rw [hne SCR (by decide), h.scr]
  · intro q hq
    rw [St.reg_of_setReg ht, Function.update_apply]
    split
    · rfl
    · exact h.reg q hq
  · intro b
    rw [St.load_of_setReg ht, h.load]
  · exact h.loaded.congr fun k _ => St.load_of_setReg ht _

theorem setPC (h : Running prog hlCode i R M s) (j : ℕ) :
    ∃ t, s.setReg PC (.ofNat 64 (CODE + j)) = some t ∧ Running prog hlCode j R M t := by
  obtain ⟨t, ht⟩ := St.exists_setReg h.pc (.ofNat 64 (CODE + j))
  have hne : ∀ q, q ≠ PC → t.reg q = s.reg q := by
    intro q hq
    rw [St.reg_of_setReg ht, if_neg hq]
  refine ⟨t, ht, ?_, ?_, ?_, ?_, ?_⟩
  · rw [St.reg_of_setReg ht, if_pos rfl]
  · rw [hne SCR (by decide), h.scr]
  · intro q hq
    simp only [SP] at hq
    rw [hne q (by simp only [PC]; omega), h.reg q hq]
  · intro b
    rw [St.load_of_setReg ht, h.load]
  · exact h.loaded.congr fun k _ => St.load_of_setReg ht _

theorem store (h : Running prog hlCode i R M s) (ha : M a ≠ none)
    (hcode : a < CODE ∨ CODE + prog.length ≤ a) (v : Word) :
    ∃ t, s.store a v = some t ∧ Running prog hlCode i R (Function.update M a (some v)) t := by
  obtain ⟨w, hw⟩ := Option.ne_none_iff_exists'.mp ha
  have ht := (St.store_eq_some_iff (v := v)).mpr
    ⟨NdArray.lt_size_of_get? ((h.load a).trans hw), rfl⟩
  refine ⟨_, ht, ?_, ?_, ?_, ?_, ?_⟩
  · rw [St.reg_of_store ht, h.pc]
  · rw [St.reg_of_store ht, h.scr]
  · intro q hq
    rw [St.reg_of_store ht, h.reg q hq]
  · intro b
    rw [St.load_of_store ht, Function.update_apply, h.load]
  · refine h.loaded.congr fun k hk => ?_
    rw [St.load_of_store ht, if_neg (by omega)]

end Running

/-- The program fits the side table and has backward labels only, each defined once. -/
structure Assembles (prog : Program ℕ) : Prop where
  length : prog.length ≤ hlCodeSz
  defined : LabelsDefined prog
  distinct : LabelsDistinct prog

section
variable [NumPy]

/-- `k` steps lead from `s` to instruction `i`, with the given registers and memory. -/
def RunsTo (prog : Program ℕ) (hlCode : List HlEntry) (s : St) (k i : ℕ) (R : ℕ → Word)
    (M : ℕ → Option Word) : Prop :=
  ∃ t, iter (machineStep hlCode) k s = some t ∧ Running prog hlCode i R M t

namespace RunsTo
variable {prog : Program ℕ} {hlCode : List HlEntry} {i k : ℕ} {R : ℕ → Word}
  {M : ℕ → Option Word} {s : St} {label : Option ℕ} {op : AluOp} {r1 r2 r3 : Reg} {v : Imm}
  {l : ℕ}

/-- A step begins with the fetch, which advances PC. -/
theorem step (h : RunsTo prog hlCode s k i R M) (hprog : Assembles prog) {a : Asm ℕ}
    (hentry : prog[i]? = some (label, a)) (hsim : a.simulable) :
    ∃ u, iter (machineStep hlCode) (k + 1) s = a.exec prog.address u ∧
      Running prog hlCode (i + 1) R M u := by
  obtain ⟨t, ht, h⟩ := h
  have haddr : (BitVec.ofNat 64 (CODE + i)).toNat = CODE + i := by
    have hi := (List.getElem?_eq_some_iff.mp hentry).1
    have hlen := hprog.length
    refine toNat_code ?_
    simp only [hlCodeSz, codeSz] at hlen ⊢
    omega
  obtain ⟨u, hu, hnext⟩ := h.setPC (i + 1)
  refine ⟨u, ?_, hnext⟩
  rw [iter_succ, ht, Option.bind_some]
  refine machineStep_of_entry hprog.length hprog.defined hprog.distinct h.loaded h.scr h.pc haddr
    hentry hsim ?_
  rw [← hu, ofNat_succ, Nat.add_assoc]

theorem set (h : RunsTo prog hlCode s k i R M) (hprog : Assembles prog)
    (hentry : prog[i]? = some (label, .set r1 v)) (hr : r1.val < SP) :
    RunsTo prog hlCode s (k + 1) (i + 1) (Function.update R r1 (.ofNat 64 v)) M := by
  obtain ⟨u, hu, h⟩ := h.step hprog hentry rfl
  obtain ⟨t, ht, h⟩ := h.setReg hr (.ofNat 64 v)
  exact ⟨t, hu.trans ht, h⟩

theorem mov (h : RunsTo prog hlCode s k i R M) (hprog : Assembles prog)
    (hentry : prog[i]? = some (label, .mov r1 r2)) (hr1 : r1.val < SP) (hr2 : r2.val < SP) :
    RunsTo prog hlCode s (k + 1) (i + 1) (Function.update R r1 (R r2)) M := by
  obtain ⟨u, hu, h⟩ := h.step hprog hentry rfl
  obtain ⟨t, ht, h'⟩ := h.setReg hr1 (R r2)
  exact ⟨t, hu.trans (Option.bind_eq_some_iff.mpr ⟨_, h.reg r2 hr2, ht⟩), h'⟩

theorem alu (h : RunsTo prog hlCode s k i R M) (hprog : Assembles prog)
    (hentry : prog[i]? = some (label, .alu op r3 r1 r2)) (hr3 : r3.val < SP) (hr1 : r1.val < SP)
    (hr2 : r2.val < SP) :
    RunsTo prog hlCode s (k + 1) (i + 1) (Function.update R r3 (op.eval (R r1) (R r2))) M := by
  obtain ⟨u, hu, h⟩ := h.step hprog hentry rfl
  obtain ⟨t, ht, h'⟩ := h.setReg hr3 (op.eval (R r1) (R r2))
  refine ⟨t, hu.trans ?_, h'⟩
  exact Option.bind_eq_some_iff.mpr
    ⟨_, h.reg r1 hr1, Option.bind_eq_some_iff.mpr ⟨_, h.reg r2 hr2, ht⟩⟩

theorem str (h : RunsTo prog hlCode s k i R M) (hprog : Assembles prog)
    (hentry : prog[i]? = some (label, .str r1 r2)) (hr1 : r1.val < SP) (hr2 : r2.val < SP)
    {a : ℕ} (ha : (R r2).toNat = a) (hmem : M a ≠ none)
    (hcode : a < CODE ∨ CODE + prog.length ≤ a) :
    RunsTo prog hlCode s (k + 1) (i + 1) R (Function.update M a (some (R r1))) := by
  subst ha
  obtain ⟨u, hu, h⟩ := h.step hprog hentry rfl
  obtain ⟨t, ht, h'⟩ := h.store hmem hcode (R r1)
  refine ⟨t, hu.trans ?_, h'⟩
  exact Option.bind_eq_some_iff.mpr
    ⟨_, h.reg r2 hr2, Option.bind_eq_some_iff.mpr ⟨_, h.reg r1 hr1, ht⟩⟩

/-- A branch goes to the label, whose position is `d`, or to the next instruction. -/
theorem cbnz (h : RunsTo prog hlCode s k i R M) (hprog : Assembles prog)
    (hentry : prog[i]? = some (label, .cbnz r1 l)) (hr1 : r1.val < SP) {d : ℕ}
    (hd : prog.address l = CODE + d) :
    RunsTo prog hlCode s (k + 1) (if R r1 ≠ 0 then d else i + 1) R M := by
  obtain ⟨u, hu, h⟩ := h.step hprog hentry rfl
  by_cases hzero : R r1 = 0
  · rw [if_neg (not_not.mpr hzero)]
    refine ⟨u, hu.trans (Option.bind_eq_some_iff.mpr ⟨_, h.reg r1 hr1, ?_⟩), h⟩
    rw [if_neg (not_not.mpr hzero)]
  · obtain ⟨t, ht, h'⟩ := h.setPC d
    rw [if_pos hzero]
    refine ⟨t, hu.trans (Option.bind_eq_some_iff.mpr ⟨_, h.reg r1 hr1, ?_⟩), h'⟩
    rw [if_pos hzero, hd, ht]

end RunsTo

/-! ## The program -/

omit [NumPy] in
theorem assembles_fibProg (FIB_MAX : Imm) : Assembles (fibProg FIB_MAX) :=
  ⟨of_decide_eq_true rfl, of_decide_eq_true rfl, of_decide_eq_true rfl⟩

omit [NumPy] in
theorem address_loop (FIB_MAX : Imm) : (fibProg FIB_MAX).address 1 = CODE + 11 := rfl

variable {FIB_MAX : Imm} {hlCode : List HlEntry} {s : St} {k : ℕ} {R : ℕ → Word}
  {M : ℕ → Option Word}

/-- The instructions before the loop. -/
theorem setUp (h : RunsTo (fibProg FIB_MAX) hlCode s 0 0 R M) (h0 : M TIMER ≠ none)
    (h1 : M (TIMER + 1) ≠ none) :
    ∃ R', RunsTo (fibProg FIB_MAX) hlCode s 11 11 R'
        (Function.update (Function.update M TIMER (some 10)) (TIMER + 1) (some 10)) ∧
      R' 1 = 1 ∧ R' 2 = 1 ∧ R' 4 = .ofNat 64 FIB_MAX ∧ R' 5 = 1 := by
  have hprog := assembles_fibProg FIB_MAX
  have hcode : CODE + (fibProg FIB_MAX).length ≤ TIMER := of_decide_eq_true rfl
  have h1' : Function.update M TIMER (some 10) (TIMER + 1) ≠ none := by
    rw [Function.update_of_ne (Nat.succ_ne_self TIMER)]
    exact h1
  have h := h.set hprog rfl (by decide)
  have h := h.set hprog rfl (by decide)
  have h := h.set hprog rfl (by decide)
  have h := h.str hprog rfl (by decide) (by decide) rfl h0 (.inr hcode)
  have h := h.set hprog rfl (by decide)
  have h := h.str hprog rfl (by decide) (by decide) rfl h1' (.inr (Nat.le_succ_of_le hcode))
  have h := h.set hprog rfl (by decide)
  have h := h.set hprog rfl (by decide)
  have h := h.set hprog rfl (by decide)
  have h := h.set hprog rfl (by decide)
  have h := h.set hprog rfl (by decide)
  exact ⟨_, h, rfl, rfl, rfl, rfl⟩

/-- One turn of the loop, with `m + 1` in R4. -/
theorem loopTurn {m r1 r2 : ℕ} (h : RunsTo (fibProg FIB_MAX) hlCode s k 11 R M)
    (hR1 : R 1 = .ofNat 64 r1) (hR2 : R 2 = .ofNat 64 r2) (hR4 : R 4 = .ofNat 64 (m + 1))
    (hR5 : R 5 = 1) (hm : m < CODE) (hmem : M m ≠ none) :
    ∃ R', RunsTo (fibProg FIB_MAX) hlCode s (k + 6) (if m = 0 then 17 else 11) R'
        (Function.update M m (some (.ofNat 64 (r1 + r2)))) ∧
      R' 1 = .ofNat 64 r2 ∧ R' 2 = .ofNat 64 (r1 + r2) ∧ R' 3 = .ofNat 64 (r1 + r2) ∧
      R' 4 = .ofNat 64 m ∧ R' 5 = 1 := by
  have hprog := assembles_fibProg FIB_MAX
  have hadd : R 1 + R 2 = .ofNat 64 (r1 + r2) := by rw [hR1, hR2, BitVec.ofNat_add]
  have hsub : R 4 - R 5 = .ofNat 64 m := by
    rw [hR4, hR5, ← ofNat_succ]
    exact BitVec.add_sub_cancel ..
  have haddr : (BitVec.ofNat 64 m).toNat = m := by
    rw [BitVec.toNat_ofNat]
    have := CODE_eq
    omega
  have h := h.alu hprog rfl (by decide) (by decide) (by decide)
  have h := h.mov hprog rfl (by decide) (by decide)
  have h := h.mov hprog rfl (by decide) (by decide)
  have h := h.alu hprog rfl (by decide) (by decide) (by decide)
  have h := h.str hprog rfl (by decide) (by decide) ((congrArg BitVec.toNat hsub).trans haddr) hmem
    (.inl hm)
  have h := h.cbnz hprog rfl (by decide) (address_loop FIB_MAX)
  have hbranch : (if m = 0 then 17 else 11) = if R 4 - R 5 ≠ 0 then 11 else 17 := by
    rw [hsub]
    rcases Nat.eq_zero_or_pos m with rfl | hpos
    · rfl
    · have hne : BitVec.ofNat 64 m ≠ 0 := by
        intro hzero
        rw [hzero] at haddr
        exact absurd haddr (Nat.ne_of_lt hpos)
      rw [if_neg (by omega), if_pos hne]
  rw [hbranch, ← hadd]
  exact ⟨_, h, hR2, rfl, rfl, hsub, hR5⟩

/-- **The loop of the machine follows the loop of `fib_hl`.** By induction on the counter. -/
theorem loop_spec : ∀ (m : ℕ) {r1 r2 : ℕ} (r3 : ℕ) {k : ℕ} {R : ℕ → Word} {M : ℕ → Option Word},
    RunsTo (fibProg FIB_MAX) hlCode s k 11 R M → R 1 = .ofNat 64 r1 → R 2 = .ofNat 64 r2 →
    R 4 = .ofNat 64 (m + 1) → R 5 = 1 → m < CODE → (∀ a ≤ m, M a ≠ none) →
    ∃ R' M', RunsTo (fibProg FIB_MAX) hlCode s (k + 6 * (m + 1)) 17 R' M' ∧
      R' 1 = .ofNat 64 (fibLoop r1 r2 r3 (m + 1)).1 ∧
      R' 2 = .ofNat 64 (fibLoop r1 r2 r3 (m + 1)).2.1 ∧
      R' 3 = .ofNat 64 (fibLoop r1 r2 r3 (m + 1)).2.2 ∧ R' 4 = 0 ∧
      (∀ j, 1 ≤ j → j ≤ m + 1 →
        M' (m + 1 - j) = some (.ofNat 64 (fibLoop r1 r2 r3 j).2.2)) ∧
      ∀ a, m < a → M' a = M a := by
  intro m
  induction m with
  | zero =>
      intro r1 r2 r3 k R M h hR1 hR2 hR4 hR5 hm hmem
      obtain ⟨R', h', hR1', hR2', hR3', hR4', -⟩ :=
        loopTurn h hR1 hR2 hR4 hR5 hm (hmem 0 (Nat.le_refl 0))
      refine ⟨R', _, h', hR1', hR2', hR3', hR4', ?_, ?_⟩
      · intro j hj hj'
        obtain rfl : j = 1 := by omega
        exact Function.update_self ..
      · intro a ha
        exact Function.update_of_ne (Nat.ne_of_gt ha) ..
  | succ m ih =>
      intro r1 r2 r3 k R M h hR1 hR2 hR4 hR5 hm hmem
      obtain ⟨R₁, h₁, hR1, hR2, hR3, hR4, hR5⟩ :=
        loopTurn h hR1 hR2 hR4 hR5 hm (hmem (m + 1) (Nat.le_refl _))
      rw [if_neg (Nat.succ_ne_zero m)] at h₁
      obtain ⟨R', M', h', hR1', hR2', hR3', hR4', hstored, hrest⟩ :=
        ih (r1 + r2) h₁ hR1 hR2 hR4 hR5 (Nat.lt_of_succ_lt hm) fun a ha => by
          rw [Function.update_of_ne (by omega)]
          exact hmem a (Nat.le_succ_of_le ha)
      refine ⟨R', M', ?_, hR1', hR2', hR3', hR4', ?_, ?_⟩
      · rwa [show k + 6 * (m + 1 + 1) = k + 6 + 6 * (m + 1) by omega]
      · intro j hj hj'
        rcases Nat.eq_or_lt_of_le hj with rfl | hlt
        · -- the first number is stored above those of the later turns
          rw [hrest _ (by omega), Nat.add_sub_cancel, Function.update_self]
          rfl
        · obtain ⟨j, rfl⟩ : ∃ i, j = i + 1 := ⟨j - 1, by omega⟩
          rw [show m + 1 + 1 - (j + 1) = m + 1 - j by omega, hstored j (by omega) (by omega)]
          rfl
      · intro a ha
        rw [hrest a (by omega), Function.update_of_ne (by omega)]

omit [NumPy] in
theorem fib_lt {n : ℕ} (hn : n ≤ CODE) : n < 2 ^ 48 := by
  have := CODE_eq
  omega

/-- The variables that the loop of `fib_hl` leaves. Before the loop `r3` has no value. -/
def fibHl (FIB_MAX : ℕ) : ℕ × ℕ × ℕ := fibLoop 1 1 0 FIB_MAX

/-- **The assembled Fibonacci program stores the first `n` numbers**, for every `n` up to the
start of the code region. The numbers start with 2, from `n - 1` downwards. -/
theorem fibProg_stores {n : ℕ} (hpos : 1 ≤ n) (hn : n ≤ CODE) {ramState : NdArray Word}
    (hram : ramState.size = ramStateSz) :
    ∃ ram' hlCode,
      loadCode (fibProg ⟨n, fib_lt hn⟩).source ramState = some (ram', hlCode) ∧
      ∀ devices registers : NdArray Word, 2 ≤ devices.size → registers.size = NREGS →
        registers.get? PC = some (.ofNat 64 CODE) → registers.get? SCR = some 0 →
        let s : St := ⟨ram' ++ devices, registers⟩
        ∃ t, iter (machineStep hlCode) (11 + 6 * n) s = some t ∧
          t.reg PC = some (.ofNat 64 (CODE + 17)) ∧ t.reg 4 = some 0 ∧
          (∀ j, 1 ≤ j → j ≤ n → t.load (n - j) = some (.ofNat 64 (Nat.fib (j + 2)))) ∧
          t.reg 1 = some (.ofNat 64 (fibHl n).1) ∧ t.reg 2 = some (.ofNat 64 (fibHl n).2.1) ∧
          t.reg 3 = some (.ofNat 64 (fibHl n).2.2) ∧
          ∀ a, n ≤ a → a ≠ TIMER → a ≠ TIMER + 1 → t.load a = s.load a := by
  have hprog := assembles_fibProg ⟨n, fib_lt hn⟩
  obtain ⟨ram', hlCode, hload, hloaded⟩ := loadCode_spec hprog.length hprog.defined hram
  refine ⟨ram', hlCode, hload, ?_⟩
  intro devices registers hdevices hregisters hpc hscr s
  have hsize : s.systemState.size = TIMER + devices.size := by
    rw [NdArray.size_append, size_of_loadCode hload, hram]
    rfl
  have hmem : ∀ a, a ≤ TIMER + 1 → s.load a ≠ none := by
    intro a ha
    rw [ne_eq, St.load, NdArray.get?_eq_none_iff]
    omega
  have hstart : RunsTo (fibProg ⟨n, fib_lt hn⟩) hlCode s 0 0 (fun r => (s.reg r).getD 0)
      s.load := ⟨s, rfl, running_start (hloaded devices registers) hregisters hpc hscr⟩
  obtain ⟨R, hrun, hR1, hR2, hR4, hR5⟩ := setUp hstart (hmem _ (Nat.le_succ _)) (hmem _ le_rfl)
  obtain ⟨m, rfl⟩ : ∃ m, n = m + 1 := ⟨n - 1, by omega⟩
  have hCODE : CODE < TIMER := by decide
  have hother : ∀ a, a ≠ TIMER → a ≠ TIMER + 1 →
      Function.update (Function.update s.load TIMER (some 10)) (TIMER + 1) (some 10) a =
        s.load a := by
    intro a h0 h1
    rw [Function.update_of_ne h1, Function.update_of_ne h0]
  obtain ⟨R', M', ⟨t, ht, hend⟩, hR1', hR2', hR3', hR4', hstored, hrest⟩ :=
    loop_spec m 0 hrun hR1 hR2 hR4 hR5 (by omega) fun a ha => by
      rw [hother a (by omega) (by omega)]
      exact hmem a (by omega)
  refine ⟨t, ht, hend.pc, ?_, ?_, ?_, ?_, ?_, ?_⟩
  · rw [hend.reg 4 (by decide), hR4']
  · intro j hj hj'
    rw [hend.load, hstored j hj hj']
    obtain ⟨j, rfl⟩ : ∃ i, j = i + 1 := ⟨j - 1, by omega⟩
    rw [fibLoop_one]
  · rw [hend.reg 1 (by decide), hR1']
    rfl
  · rw [hend.reg 2 (by decide), hR2']
    rfl
  · rw [hend.reg 3 (by decide), hR3']
    rfl
  · intro a ha h0 h1
    rw [hend.load, hrest a (by omega), hother a h0 h1]

end

/-! The program with the value of `FIB_MAX` that it has. -/
section
attribute [local instance] exactDivision

theorem fibProg_stores_84 :
    ∃ ram' hlCode, loadCode (fibProg 84).source (.fill ramStateSz 0) = some (ram', hlCode) ∧
      ∃ t, iter (machineStep hlCode) (11 + 6 * 84) ⟨ram' ++ .fill 16 0, startRegisters⟩ = some t ∧
        t.load 0 = some (.ofNat 64 (Nat.fib 86)) := by
  have hn : 84 ≤ CODE := by decide
  obtain ⟨ram', hlCode, hload, hrun⟩ :=
    fibProg_stores (by decide) hn (NdArray.size_fill ramStateSz 0)
  obtain ⟨t, ht, -, -, hstored, -⟩ := hrun (.fill 16 0) startRegisters (by decide) rfl rfl rfl
  exact ⟨ram', hlCode, hload, t, ht, hstored 84 (by decide) (by decide)⟩

end
end Osh.Advanced
