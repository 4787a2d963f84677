import Osh.Advanced.Interpreter
import Osh.Advanced.Sleep

/-!
# The fast path for high-level code

A program of high-level instructions alone runs in two ways. On the mixed path each
instruction is looked up in the side table by its position. The fast path takes the word
in RAM for the position, and this word is the opcode `HLI` in every place: all calls run
the entry number `HLI`, and a program without that entry raises.

## Main definitions

* `hlProgram fs`: the functions `fs` as a program.
* `LeavesCode f`: `f` does not write PC, SCR or the code region.
* `applyFn`: the effect of one function.
* `PathsAgree`: both paths apply the first functions in order.
-/
namespace Osh.Advanced
open PartialRun

/-- A program of high-level instructions. -/
def hlProgram (fs : List HlFn) : Program ℕ := fs.map fun f => (none, .hli f)

/-- The function writes neither PC nor SCR nor the code region. -/
def LeavesCode (f : HlFn) : Prop :=
  ∀ s t, f s = some t → t.reg PC = s.reg PC ∧ t.reg SCR = s.reg SCR ∧
    ∀ a, CODE ≤ a → a < MEMTOP → t.load a = s.load a

/-- Advance PC and apply a function. -/
def applyFn (s : St) (f : HlFn) : Option St := do
  let pc ← s.reg PC
  f (← s.setReg PC (pc + 1))

section
variable [NumPy]

/-- `n` calls without interrupt requests succeed on either path, and apply the first `n`
functions in order. -/
def PathsAgree (PERIPHERALS : Bool) (hlCode : List HlEntry) (fs : List HlFn) (n : ℕ) (s : St) :
    Prop :=
  ∃ t, exec applyFn (fs.take n) s = some t ∧
    iter (call ⟨PERIPHERALS, true, hlCode⟩ · []) n s = some t ∧
    iter (call ⟨PERIPHERALS, false, hlCode⟩ · []) n s = some t

end

/-- The processor is about to execute instruction `i` of `len` high-level ones. -/
structure AtHli (len i : ℕ) (s : St) : Prop where
  pc : s.reg PC = some (.ofNat 64 (CODE + i))
  scr : s.reg SCR = some 0
  word : ∀ j < len, s.load (CODE + j) = some (.ofNat 64 HLI)

section
variable {s t : St} {f : HlFn} {fs : List HlFn} {len i n : ℕ} {hlCode : List HlEntry} {P : Bool}

theorem AtHli.applyFn (h : AtHli len i s) (hlen : len ≤ codeSz) (hf : LeavesCode f)
    (ht : applyFn s f = some t) : AtHli len (i + 1) t := by
  obtain ⟨pc, hpc, ht⟩ := Option.bind_eq_some_iff.mp ht
  obtain rfl : .ofNat 64 (CODE + i) = pc := Option.some.inj (h.pc.symm.trans hpc)
  obtain ⟨u, hu, ht⟩ := Option.bind_eq_some_iff.mp ht
  obtain ⟨htpc, htscr, htload⟩ := hf u t ht
  refine ⟨?_, ?_, ?_⟩
  · rw [htpc, St.reg_of_setReg hu, if_pos rfl, ofNat_succ, Nat.add_assoc]
  · rw [htscr, St.reg_of_setReg hu, if_neg (by decide), h.scr]
  · intro j hj
    have hcode : CODE + j < MEMTOP := by
      rw [MEMTOP]
      omega
    rw [htload _ (by omega) hcode, St.load_of_setReg hu, h.word j hj]

/-- The word that the processor fetches. -/
theorem AtHli.load_pc (h : AtHli len i s) (hi : i < len) (hlen : len ≤ codeSz) :
    s.load (BitVec.ofNat 64 (CODE + i)).toNat = some (.ofNat 64 HLI) := by
  rw [toNat_code (by omega), h.word i hi]

/-- Functions that leave the code alone step through it. -/
theorem AtHli.exec (h : AtHli len 0 s) (hlen : len ≤ codeSz) (hfs : ∀ f ∈ fs, LeavesCode f)
    (ht : exec Osh.Advanced.applyFn fs s = some t) : AtHli len fs.length t := by
  induction fs using List.reverseRecOn generalizing t with
  | nil =>
      cases ht
      exact h
  | append_singleton fs f ih =>
      rw [exec_append] at ht
      obtain ⟨u, hu, ht⟩ := Option.bind_eq_some_iff.mp ht
      obtain ⟨v, hv, ht⟩ := exec_cons_eq_some_iff.mp ht
      cases ht
      rw [List.length_append, List.length_singleton]
      exact (ih (fun f hf => hfs f (List.mem_append_left _ hf)) hu).applyFn hlen
        (hfs f (List.mem_append_right _ (List.mem_singleton_self f))) hv

variable [NumPy]

/-- On the mixed path the function is found at the position of its instruction. -/
theorem call_mixed (h : AtHli len i s) (hi : i < len) (hlen : len ≤ codeSz)
    (hf : hlCode[i]? = some (.list (some f))) : call ⟨P, false, hlCode⟩ s [] = applyFn s f := by
  obtain ⟨t, ht⟩ := St.exists_setReg h.pc (.ofNat 64 (CODE + i) + 1)
  have haddr : (BitVec.ofNat 64 (CODE + i)).toNat = CODE + i := toNat_code (by omega)
  have hindex : pyIndex hlCode (((BitVec.ofNat 64 (CODE + i)).toNat : ℤ) - CODE) =
      some (.list (some f)) := by
    rw [haddr, pyIndex, if_pos (by omega), ← hf]
    congr 1
    omega
  have hfetch : fetchInstruction ⟨P, false, hlCode⟩ s = some (.entry (.list (some f)), t) := by
    refine fetchInstruction_eq_some_iff.mpr ⟨_, _, h.pc, h.load_pc hi hlen, ?_, ht⟩
    simp only [lookupInstruction, Bool.false_eq_true, if_false, hindex]
    rfl
  have hscr : t.reg SCR = some 0 := by rw [St.reg_of_setReg ht, if_neg (by decide), h.scr]
  rw [call_idle List.not_mem_nil, fetchDecodeExecute_awake rfl hfetch hscr rfl,
    executeInstruction_HLI]
  simp only [applyFn, h.pc, ht, Option.bind_eq_bind, Option.bind_some]

/-- On the fast path the entry number `HLI` is run, whatever the position. -/
theorem call_fast (h : AtHli len i s) (hi : i < len) (hlen : len ≤ codeSz)
    (hf : hlCode[HLI]? = some (.list (some f))) : call ⟨P, true, hlCode⟩ s [] = applyFn s f := by
  obtain ⟨t, ht⟩ := St.exists_setReg h.pc (.ofNat 64 (CODE + i) + 1)
  have hlookup : lookupInstruction ⟨P, true, hlCode⟩ (.ofNat 64 (CODE + i)) (.ofNat 64 HLI) =
      some (.fn f) := by
    simp only [lookupInstruction, if_true, show (BitVec.ofNat 64 HLI).toNat = HLI from rfl, hf]
  have hfetch : fetchInstruction ⟨P, true, hlCode⟩ s = some (.fn f, t) :=
    fetchInstruction_eq_some_iff.mpr ⟨_, _, h.pc, h.load_pc hi hlen, hlookup, ht⟩
  have hscr : t.reg SCR = some 0 := by rw [St.reg_of_setReg ht, if_neg (by decide), h.scr]
  rw [call_idle List.not_mem_nil]
  simp only [fetchDecodeExecute, hfetch, hscr, applyFn, h.pc, ht, Option.bind_eq_bind,
    Option.bind_some, if_true]

/-- Without that entry the fast path raises. -/
theorem call_fast_eq_none (h : AtHli len i s) (hi : i < len) (hlen : len ≤ codeSz)
    (hf : hlCode[HLI]? = some .lambda) : call ⟨P, true, hlCode⟩ s [] = none := by
  have hlookup : lookupInstruction ⟨P, true, hlCode⟩ (.ofNat 64 (CODE + i)) (.ofNat 64 HLI) =
      none := by
    simp only [lookupInstruction, if_true, show (BitVec.ofNat 64 HLI).toNat = HLI from rfl, hf]
  rw [call_idle List.not_mem_nil]
  simp only [fetchDecodeExecute, fetchInstruction, h.pc, h.load_pc hi hlen, hlookup,
    Option.bind_eq_bind, Option.bind_some, Option.bind_none]

/-! ## Runs on either path -/

/-- The mixed path applies the functions in order. -/
theorem iter_call_mixed (h : AtHli fs.length 0 s) (hlen : fs.length ≤ codeSz)
    (hfs : ∀ f ∈ fs, LeavesCode f)
    (hcode : ∀ (i : ℕ) f, fs[i]? = some f → hlCode[i]? = some (.list (some f)))
    (hn : n ≤ fs.length) :
    iter (call ⟨P, false, hlCode⟩ · []) n s = exec applyFn (fs.take n) s := by
  have htake : (fs.take n).length = n := by
    rw [List.length_take]
    omega
  have hmem : ∀ {f k}, f ∈ (fs.take n).take k → LeavesCode f :=
    fun hf => hfs _ (List.mem_of_mem_take (List.mem_of_mem_take hf))
  rw [← htake, iter_eq_exec]
  · rw [htake]
  intro i f u hf hu
  have hi : i < n := by
    have := (List.getElem?_eq_some_iff.mp hf).1
    omega
  rw [List.getElem?_take_of_lt hi] at hf
  have hat := h.exec hlen (fun f hf => hmem hf) hu
  rw [List.length_take, htake, Nat.min_eq_left (Nat.le_of_lt hi)] at hat
  exact call_mixed hat (by omega) hlen (hcode i f hf)

/-- The fast path applies one function over and over. -/
theorem iter_call_fast (h : AtHli len 0 s) (hlen : len ≤ codeSz) (hleaves : LeavesCode f)
    (hf : hlCode[HLI]? = some (.list (some f))) (hn : n ≤ len) :
    iter (call ⟨P, true, hlCode⟩ · []) n s = exec applyFn (List.replicate n f) s := by
  have hlength : (List.replicate n f).length = n := List.length_replicate
  nth_rewrite 1 [← hlength]
  rw [iter_eq_exec]
  intro i g u hg hu
  have hi : i < n := by
    have := (List.getElem?_eq_some_iff.mp hg).1
    omega
  obtain rfl : g = f := List.eq_of_mem_replicate (List.mem_of_getElem? hg)
  have hat := h.exec hlen
    (fun g hg => List.eq_of_mem_replicate (List.mem_of_mem_take hg) ▸ hleaves) hu
  rw [List.length_take, hlength, Nat.min_eq_left (Nat.le_of_lt hi)] at hat
  exact call_fast hat (by omega) hlen hf

omit [NumPy] in
/-- The side table of a loaded high-level program. -/
theorem loadCode_hlProgram (hlen : fs.length ≤ hlCodeSz) {ramState : NdArray Word}
    (hram : ramState.size = ramStateSz) :
    ∃ ram' hlCode, loadCode (hlProgram fs).source ramState = some (ram', hlCode) ∧
      (∀ (i : ℕ) f, fs[i]? = some f → hlCode[i]? = some (.list (some f))) ∧
      (∀ i, fs.length ≤ i → i < hlCodeSz → hlCode[i]? = some .lambda) ∧
      ∀ devices registers, ∀ i < fs.length,
        (⟨ram' ++ devices, registers⟩ : St).load (CODE + i) = some (.ofNat 64 HLI) := by
  have hget : ∀ i : ℕ, ∀ e ∈ (hlProgram fs)[i]?, ∃ f, fs[i]? = some f ∧ e = (none, .hli f) := by
    intro i e he
    obtain ⟨f, hf, rfl⟩ := Option.map_eq_some_iff.mp ((List.getElem?_map ..).symm.trans he)
    exact ⟨f, hf, rfl⟩
  have hlength : (hlProgram fs).length = fs.length := List.length_map ..
  have hcode : fs.length ≤ codeSz := Nat.le_trans hlen (by decide)
  have hlabels : LabelsDefined (hlProgram fs) := by
    intro i _ e he l hl
    obtain ⟨f, -, rfl⟩ := hget i e he
    cases hl
  obtain ⟨ram', hlCode, hload, hloaded⟩ := loadCode_spec (hlength ▸ hlen) hlabels hram
  obtain ⟨es, hes, heslen, -⟩ := encodeProgram_spec (hlength ▸ hcode) hlabels
  have hhli : ∀ devices registers (i : ℕ) f, fs[i]? = some f →
      (⟨ram' ++ devices, registers⟩ : St).load (CODE + i) = some (.ofNat 64 HLI) ∧
        hlCode[i]? = some (.list (some f)) := by
    intro devices registers i f hf
    refine (hloaded devices registers).hli i none f ?_
    rw [hlProgram, List.getElem?_map, hf]
    rfl
  refine ⟨ram', hlCode, hload, ?_, ?_, ?_⟩
  · intro i f hf
    exact (hhli (.fill 0 0) (.fill 0 0) i f hf).2
  · intro i hi hsz
    obtain ⟨es', hes', hfrom⟩ := Option.bind_eq_some_iff.mp hload
    obtain rfl : es = es' := Option.some.inj (hes.symm.trans hes')
    rw [(frame_of_loadFrom es 0 _ _ _ _ hfrom).2 i (by omega), initialHlCode,
      List.getElem?_replicate, if_pos hsz]
  · intro devices registers i hi
    exact (hhli devices registers i _ (List.getElem?_eq_getElem hi)).1

/-- Without an entry number `HLI` the fast path does not get past the first call. -/
theorem not_pathsAgree (h : AtHli len 0 s) (hlen : len ≤ codeSz)
    (hlambda : hlCode[HLI]? = some .lambda) (hpos : 0 < n) (hn : n ≤ len) :
    ¬ PathsAgree P hlCode fs n s := by
  rintro ⟨t, -, hfast, -⟩
  obtain ⟨u, hu⟩ := iter_prefix hfast 1 hpos
  rw [iter_succ, iter_zero, Option.bind_some, call_fast_eq_none h (by omega) hlen hlambda] at hu
  cases hu

/-- **The two paths agree only where the program has an entry number `HLI`**, and the first
functions do together what that one does alone. -/
theorem pathsAgree_iff (hlen : fs.length ≤ hlCodeSz) (hfs : ∀ f ∈ fs, LeavesCode f)
    {ramState : NdArray Word} (hram : ramState.size = ramStateSz) :
    ∃ ram' hlCode, loadCode (hlProgram fs).source ramState = some (ram', hlCode) ∧
      ∀ (PERIPHERALS : Bool) (devices registers : NdArray Word) (n : ℕ),
        registers.get? PC = some (.ofNat 64 CODE) → registers.get? SCR = some 0 →
        n ≤ fs.length →
        let s : St := ⟨ram' ++ devices, registers⟩
        (PathsAgree PERIPHERALS hlCode fs n s ↔ n = 0 ∨ ∃ f ∈ fs[HLI]?, ∃ t,
          exec applyFn (fs.take n) s = some t ∧ exec applyFn (List.replicate n f) s = some t) := by
  obtain ⟨ram', hlCode, hload, hentries, hrest, hwords⟩ := loadCode_hlProgram hlen hram
  refine ⟨ram', hlCode, hload, ?_⟩
  intro P devices registers n hpc hscr hn s
  have hcode : fs.length ≤ codeSz := Nat.le_trans hlen (by decide)
  have hat : AtHli fs.length 0 s := ⟨hpc, hscr, hwords devices registers⟩
  have hmixed := iter_call_mixed (P := P) hat hcode hfs hentries hn
  rcases Nat.eq_zero_or_pos n with rfl | hpos
  · exact iff_of_true ⟨s, rfl, rfl, rfl⟩ (.inl rfl)
  cases hf : fs[HLI]? with
  | none =>
      have hlambda := hrest HLI (List.getElem?_eq_none_iff.mp hf) (by decide)
      refine iff_of_false (not_pathsAgree hat hcode hlambda hpos hn) ?_
      rintro (rfl | ⟨f, hf', -⟩)
      · exact absurd hpos (Nat.lt_irrefl 0)
      · cases hf'
  | some f =>
      have hfast := iter_call_fast (P := P) hat hcode (hfs f (List.mem_of_getElem? hf))
        (hentries HLI f hf) hn
      rw [PathsAgree, hmixed, hfast]
      constructor
      · rintro ⟨t, ht, hreplicate, -⟩
        exact .inr ⟨f, rfl, t, ht, hreplicate⟩
      · rintro (rfl | ⟨g, hg, t, ht, hreplicate⟩)
        · exact absurd hpos (Nat.lt_irrefl 0)
        · cases hg
          exact ⟨t, ht, hreplicate, ht⟩

end

/-! Programs of one function, with and without an entry number `HLI`. -/
section
attribute [local instance] exactDivision

def setR1 : HlFn := fun s => s.setReg 1 5

theorem leavesCode_setR1 : LeavesCode setR1 := by
  intro s t ht
  refine ⟨?_, ?_, fun a _ _ => St.load_of_setReg ht a⟩
  · rw [St.reg_of_setReg ht, if_neg (by decide)]
  · rw [St.reg_of_setReg ht, if_neg (by decide)]

theorem pathsAgree_iff_setR1 :
    ∃ ram' hlCode, loadCode (hlProgram (List.replicate 31 setR1)).source (.fill ramStateSz 0) =
        some (ram', hlCode) ∧
      PathsAgree false hlCode (List.replicate 31 setR1) 2
        ⟨ram' ++ .fill 16 0, startRegisters⟩ := by
  have hlen : (List.replicate 31 setR1).length ≤ hlCodeSz := by decide
  obtain ⟨ram', hlCode, hload, hiff⟩ := pathsAgree_iff hlen
    (fun f hf => List.eq_of_mem_replicate hf ▸ leavesCode_setR1) (NdArray.size_fill ramStateSz 0)
  refine ⟨ram', hlCode, hload, ?_⟩
  exact (hiff false (.fill 16 0) startRegisters 2 rfl rfl (by decide)).mpr
    (.inr ⟨setR1, rfl, _, rfl, rfl⟩)

theorem fast_path_raises :
    ∃ ram' hlCode, loadCode (hlProgram [setR1]).source (.fill ramStateSz 0) =
        some (ram', hlCode) ∧
      LeavesCode setR1 ∧
      ¬ PathsAgree false hlCode [setR1] 1 ⟨ram' ++ .fill 16 0, startRegisters⟩ := by
  obtain ⟨ram', hlCode, hload, -, hrest, hwords⟩ := loadCode_hlProgram
    (show [setR1].length ≤ hlCodeSz by decide) (NdArray.size_fill ramStateSz 0)
  have hat : AtHli 1 0 ⟨ram' ++ .fill 16 0, startRegisters⟩ :=
    ⟨rfl, rfl, hwords (.fill 16 0) startRegisters⟩
  exact ⟨ram', hlCode, hload, leavesCode_setR1,
    not_pathsAgree hat (by decide) (hrest HLI (by decide) (by decide)) (by decide) (by decide)⟩

end
end Osh.Advanced
