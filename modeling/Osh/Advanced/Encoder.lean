import Mathlib.Logic.Function.Basic
import Osh.Advanced.Processor

/-!
# The assembler of the advanced system model

`encodeInstruction` packs one source instruction into a number, `encodeProgram`
does so for a list of optionally labelled ones while it fills the label table,
and `loadCode` is the loading loop of `load_code`. Source instructions are Python
lists, so an operand that is missing, or of the wrong kind where it is used, makes
the assembler raise.
-/
namespace Osh.Advanced
variable {L : Type}

/-- An operand of a source instruction: a number (a register, an immediate or an
address), a label, or the function of a high-level instruction. -/
inductive Operand (L : Type) where
  | num (n : ℕ)
  | label (l : L)
  | fn (f : HlFn)

/-- A source instruction `[opcode, operand, ...]`. -/
structure Instr (L : Type) where
  opcode : ℕ
  operands : List (Operand L)

/-- What `encodeInstruction` returns: a number, or the pair `(HLI, instr)`. -/
inductive Encoded (L : Type) where
  | word (iw : ℕ)
  | hli (instr : Instr L)

/-- An argument variable of `encodeInstruction` used as a number. -/
def argNum : Option (Operand L) → Option ℕ
  | some (.num n) => some n
  | _ => none

/-- An argument variable of `encodeInstruction` used as a key of the label table. -/
def argLabel : Option (Operand L) → Option L
  | some (.label l) => some l
  | _ => none

/-- Read operand `k` into an argument variable, which is left at `None` unless `c` holds. -/
def readArg (instr : Instr L) (c : Bool) (k : ℕ) : Option (Option (Operand L)) :=
  if c then instr.operands[k]?.map some else some none

def encodeInstruction (instr : Instr L) (labels : L → Option ℕ) : Option (Encoded L) :=
  let opcode := instr.opcode
  let reads1 := opcode ≠ NOP ∧ opcode ≠ WFI ∧ opcode ≠ HLI
  let reads2 := reads1 ∧ opcode ≠ BL ∧ opcode ≠ B ∧ opcode ≠ BX
  let reads3 := reads2 ∧ opcode ≠ LDR ∧ opcode ≠ STR ∧ opcode ≠ CBZ ∧ opcode ≠ CBNZ ∧
    opcode ≠ MOV ∧ opcode ≠ SET
  do
    let arg1 ← readArg instr reads1 0
    let arg2 ← readArg instr reads2 1
    let arg3 ← readArg instr reads3 2
    if opcode = BL ∨ opcode = B then do
      let arg1_ := (← labels (← argLabel arg1)) + CODE
      return .word (opcode + (arg1_ <<< 8))
    else if opcode = CBZ ∨ opcode = ADR ∨ opcode = CBNZ then do
      let arg2_ := (← labels (← argLabel arg2)) + CODE
      return .word (opcode + ((← argNum arg1) <<< 8) + (arg2_ <<< 16))
    else if opcode = MOV ∨ opcode = SET ∨ opcode = LDR ∨ opcode = STR then do
      return .word (opcode + ((← argNum arg1) <<< 8) + ((← argNum arg2) <<< 16))
    else if opcode = NOP ∨ opcode = WFI then return .word opcode
    else if opcode = HLI then return .hli instr
    else do
      return .word (opcode + ((← argNum arg1) <<< 8) + ((← argNum arg2) <<< 16) +
        ((← argNum arg3) <<< 24))

section
variable {opcode a b c : ℕ} {l : L} {operands : List (Operand L)}

/-! What is packed, format by format. -/

theorem encodeInstruction_branch (hop : opcode = BL ∨ opcode = B)
    (h0 : operands[0]? = some (.label l)) (labels : L → Option ℕ) :
    encodeInstruction ⟨opcode, operands⟩ labels =
      (labels l).map fun d => .word (opcode + ((d + CODE) <<< 8)) := by
  cases hl : labels l <;> rcases hop with rfl | rfl <;>
    simp [encodeInstruction, readArg, h0, argLabel, hl]

/-- Of the three, only `ADR` reads a third operand, which it ignores. -/
theorem encodeInstruction_compare (hop : opcode = CBZ ∨ opcode = ADR ∨ opcode = CBNZ)
    (h0 : operands[0]? = some (.num a)) (h1 : operands[1]? = some (.label l))
    (h2 : opcode = ADR → operands[2]?.isSome) (labels : L → Option ℕ) :
    encodeInstruction ⟨opcode, operands⟩ labels =
      (labels l).map fun d => .word (opcode + (a <<< 8) + ((d + CODE) <<< 16)) := by
  cases hl : labels l <;> rcases hop with rfl | rfl | rfl
  all_goals simp [encodeInstruction, readArg, h0, h1, argNum, argLabel, hl]
  all_goals
    obtain ⟨arg3, h2⟩ := Option.isSome_iff_exists.mp (h2 rfl)
    simp [h2]

theorem encodeInstruction_two (hop : opcode = MOV ∨ opcode = SET ∨ opcode = LDR ∨ opcode = STR)
    (h0 : operands[0]? = some (.num a)) (h1 : operands[1]? = some (.num b))
    (labels : L → Option ℕ) :
    encodeInstruction ⟨opcode, operands⟩ labels =
      some (.word (opcode + (a <<< 8) + (b <<< 16))) := by
  rcases hop with rfl | rfl | rfl | rfl <;>
    simp [encodeInstruction, readArg, h0, h1, argNum]

theorem encodeInstruction_none (hop : opcode = NOP ∨ opcode = WFI) (labels : L → Option ℕ) :
    encodeInstruction ⟨opcode, operands⟩ labels = some (.word opcode) := by
  rcases hop with rfl | rfl <;> simp [encodeInstruction, readArg]

theorem encodeInstruction_three
    (hop : opcode ∉ [NOP, WFI, HLI, BL, B, BX, CBZ, ADR, CBNZ, MOV, SET, LDR, STR])
    (h0 : operands[0]? = some (.num a)) (h1 : operands[1]? = some (.num b))
    (h2 : operands[2]? = some (.num c)) (labels : L → Option ℕ) :
    encodeInstruction ⟨opcode, operands⟩ labels =
      some (.word (opcode + (a <<< 8) + (b <<< 16) + (c <<< 24))) := by
  simp only [NOP, WFI, HLI, BL, B, BX, CBZ, ADR, CBNZ, MOV, SET, LDR, STR, List.mem_cons,
    List.not_mem_nil, or_false, not_or] at hop
  simp [encodeInstruction, readArg, h0, h1, h2, argNum, hop]

end

section
variable [DecidableEq L]

/-- Enter the label of the instruction at `pc`, if it has one, in the label table. -/
def defineLabel (pc : ℕ) (label : Option L) (labels : L → Option ℕ) : L → Option ℕ :=
  match label with
  | some l => Function.update labels l (some pc)
  | none => labels

/-- The loop of `encodeProgram` from `pc` on, with the label table filled so far. -/
def encodeFrom (pc : ℕ) (labels : L → Option ℕ) :
    List (Option L × Instr L) → Option (List (Encoded L))
  | [] => some []
  | (label, instr) :: instrs => do
      let labels := defineLabel pc label labels
      let encodedInstr ← encodeInstruction instr labels
      return encodedInstr :: (← encodeFrom (pc + 1) labels instrs)

def encodeProgram (instrs : List (Option L × Instr L)) : Option (List (Encoded L)) :=
  encodeFrom 0 (fun _ => none) instrs

end

/-- The side-table entry of a high-level instruction: item 1 of the list, when it is a function. -/
def hlEntry (instr : Instr L) : HlEntry :=
  match instr.operands.head? with
  | some (.fn f) => .list (some f)
  | _ => .list none

/-- The loading loop of `load_code` from `pc` on. -/
def loadFrom (pc : ℕ) : List (Encoded L) → NdArray Word → List HlEntry →
    Option (NdArray Word × List HlEntry)
  | [], ramState, hlCode => some (ramState, hlCode)
  | .word iw :: iws, ramState, hlCode => do
      let ramState ← ramState.set? (CODE + pc) (← pyInt iw)
      loadFrom (pc + 1) iws ramState hlCode
  | .hli hli :: iws, ramState, hlCode =>
      if pc < hlCode.length then do
        let hlCode := hlCode.set pc (hlEntry hli)
        let ramState ← ramState.set? (CODE + pc) (← pyInt HLI)
        loadFrom (pc + 1) iws ramState hlCode
      else none

/-- The word that the loader puts into RAM. -/
def Encoded.loaded : Encoded L → Word
  | .word iw => .ofNat 64 iw
  | .hli _ => .ofNat 64 HLI

/-- What loading does: one word per entry, a side-table entry per high-level
instruction, and no change outside the loaded range. -/
theorem loadFrom_spec :
    ∀ (es : List (Encoded L)) (pc : ℕ) (ramState : NdArray Word) (hlCode : List HlEntry),
      CODE + pc + es.length ≤ ramState.size → pc + es.length ≤ hlCode.length →
      (∀ iw, .word iw ∈ es → iw < 2 ^ 64) →
      ∃ ram' hl', loadFrom pc es ramState hlCode = some (ram', hl') ∧
        ram'.size = ramState.size ∧
        (∀ a < CODE + pc, ram'.get? a = ramState.get? a) ∧ (∀ i < pc, hl'[i]? = hlCode[i]?) ∧
        ∀ i : ℕ, ∀ e ∈ es[i]?, ram'.get? (CODE + pc + i) = some e.loaded ∧
          ∀ instr, e = .hli instr → hl'[pc + i]? = some (hlEntry instr) := by
  intro es
  induction es with
  | nil => intro pc ram hl _ _ _; exact ⟨ram, hl, rfl, rfl, by simp, by simp, by simp⟩
  | cons e es ih =>
      intro pc ram hl hram hhl hlt
      simp only [List.length_cons] at hram hhl
      have hpc : CODE + pc < ram.size := by omega
      -- one entry is stored and the rest is loaded behind it
      obtain ⟨hl₁, hl₁len, hl₁get, hl₁new, hstep⟩ : ∃ hl₁ : List HlEntry, hl₁.length = hl.length ∧
          (∀ i < pc, hl₁[i]? = hl[i]?) ∧
          (∀ instr, e = .hli instr → hl₁[pc]? = some (hlEntry instr)) ∧
          loadFrom pc (e :: es) ram hl =
            loadFrom (pc + 1) es (ram.update (CODE + pc) e.loaded) hl₁ := by
        cases e with
        | word iw =>
            have hiw : iw < 2 ^ 64 := hlt iw (by simp)
            exact ⟨hl, rfl, fun _ _ => rfl, by simp,
              by simp [loadFrom, pyInt_of_lt hiw, NdArray.set?_of_lt hpc, Encoded.loaded]⟩
        | hli instr =>
            have hpclt : pc < hl.length := by omega
            refine ⟨hl.set pc (hlEntry instr), by simp, ?_, ?_, ?_⟩
            · intro i hi
              rw [List.getElem?_set_ne (by omega)]
            · rintro instr' heq
              cases heq
              simp [hpclt]
            · have hHLI : HLI < 2 ^ 64 := by decide
              simp only [loadFrom, if_pos hpclt, pyInt_of_lt hHLI, NdArray.set?_of_lt hpc,
                Encoded.loaded, Option.bind_eq_bind, Option.bind_some]
      obtain ⟨ram', hl', hload, hsize, hbefore, hlbefore, hget⟩ :=
        ih (pc + 1) (ram.update (CODE + pc) e.loaded) hl₁ (by simpa using by omega) (by omega)
          fun iw h => hlt iw (List.mem_cons_of_mem e h)
      refine ⟨ram', hl', by rw [hstep, hload], by simpa using hsize, ?_, ?_, ?_⟩
      · intro a ha
        rw [hbefore a (by omega), NdArray.get?_update_ne _ (by omega)]
      · intro i hi
        rw [hlbefore i (by omega), hl₁get i hi]
      · intro i e' he'
        cases i with
        | zero =>
            obtain rfl : e = e' := by simpa using he'
            refine ⟨?_, ?_⟩
            · rw [Nat.add_zero, hbefore _ (by omega), NdArray.get?_update_self hpc]
            · intro instr heq
              rw [Nat.add_zero, hlbefore pc (by omega), hl₁new instr heq]
        | succ i =>
            have h := hget i e' (by simpa using he')
            rwa [show CODE + (pc + 1) + i = CODE + pc + (i + 1) by omega,
              show pc + 1 + i = pc + (i + 1) by omega] at h

/-- Loading keeps the length of RAM and the side table behind the loaded entries. -/
theorem frame_of_loadFrom :
    ∀ (es : List (Encoded L)) (pc : ℕ) (ramState ram' : NdArray Word) (hlCode hl' : List HlEntry),
      loadFrom pc es ramState hlCode = some (ram', hl') →
      ram'.size = ramState.size ∧ ∀ i, pc + es.length ≤ i → hl'[i]? = hlCode[i]? := by
  intro es
  induction es with
  | nil =>
      intro pc ram ram' hl hl' h
      cases h
      exact ⟨rfl, fun _ _ => rfl⟩
  | cons e es ih =>
      intro pc ram ram' hl hl' h
      rw [List.length_cons]
      cases e with
      | word iw =>
          simp only [loadFrom, Option.bind_eq_bind, Option.bind_eq_some_iff] at h
          obtain ⟨w, -, ram₁, hram₁, h⟩ := h
          obtain ⟨hsize, hrest⟩ := ih (pc + 1) ram₁ ram' hl hl' h
          exact ⟨hsize.trans (NdArray.size_of_set? hram₁), fun i hi => hrest i (by omega)⟩
      | hli instr =>
          rw [loadFrom] at h
          split at h
          · simp only [Option.bind_eq_bind, Option.bind_eq_some_iff] at h
            obtain ⟨w, -, ram₁, hram₁, h⟩ := h
            obtain ⟨hsize, hrest⟩ := ih (pc + 1) ram₁ ram' _ hl' h
            refine ⟨hsize.trans (NdArray.size_of_set? hram₁), ?_⟩
            intro i hi
            rw [hrest i (by omega), List.getElem?_set_ne (by omega)]
          · cases h

/-- The side table as `main` fills it before any code is loaded. -/
def initialHlCode : List HlEntry := List.replicate hlCodeSz .lambda

/-- The register file that `main` sets up. -/
def startRegisters : NdArray Word := (NdArray.fill NREGS 0).update PC (.ofNat 64 CODE)

/-- Assemble a program and load it into RAM and into the side table of `main`. -/
def loadCode [DecidableEq L] (prog : List (Option L × Instr L)) (ramState : NdArray Word) :
    Option (NdArray Word × List HlEntry) := do
  loadFrom 0 (← encodeProgram prog) ramState initialHlCode

theorem size_of_loadCode [DecidableEq L] {prog : List (Option L × Instr L)}
    {ramState ram' : NdArray Word} {hlCode : List HlEntry}
    (h : loadCode prog ramState = some (ram', hlCode)) : ram'.size = ramState.size := by
  obtain ⟨es, -, h⟩ := Option.bind_eq_some_iff.mp h
  exact (frame_of_loadFrom es 0 _ _ _ _ h).1

end Osh.Advanced
