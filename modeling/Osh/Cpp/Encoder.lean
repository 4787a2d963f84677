import Osh.Advanced.LabelResolution
import Osh.Lib.BitField
import Osh.Cpp.Processor

/-!
# The C++ assembler against the Python one

A row of the C++ program is the label of an instruction, or 0, its opcode and its operands.
The label table is a vector. It is created with an entry for every instruction and then
cleared, which leaves it without entries: defining a label, or looking one up, is an access
outside the vector. So the C++ assembler returns what the Python one does for programs
without labels, and for no other.

## Main definitions

* `encodeInstruction`, `encodeProgram`: the assembler. Accesses outside a vector are `none`.
* `row`: an entry of a Python program as a row.
-/
namespace Osh.Cpp
open Advanced (Word Instr Operand)

/-- `v.clear()` leaves no entries. -/
def clear (_ : NdArray Word) : NdArray Word := .fill 0 0

/-- Read column `k` into an argument variable, which is left at `None`, a 0, unless `c` holds. -/
def readArg (instr : List Word) (c : Bool) (k : ℕ) : Option Word :=
  if c then instr[k]? else some 0

def encodeInstruction (instr : List Word) (labels : NdArray Word) : Option Word := do
  let opcode ← instr[1]?
  let reads1 := opcode.toNat ≠ NOP ∧ opcode.toNat ≠ WFI
  let reads2 := reads1 ∧ opcode.toNat ≠ BL ∧ opcode.toNat ≠ B ∧ opcode.toNat ≠ BX
  let reads3 := reads2 ∧ opcode.toNat ≠ LDR ∧ opcode.toNat ≠ STR ∧ opcode.toNat ≠ CBZ ∧
    opcode.toNat ≠ CBNZ ∧ opcode.toNat ≠ MOV ∧ opcode.toNat ≠ SET
  let arg1 ← readArg instr reads1 2
  let arg2 ← readArg instr reads2 3
  let arg3 ← readArg instr reads3 4
  if opcode.toNat = BL ∨ opcode.toNat = B then do
    let arg1_ := (← labels.get? arg1.toNat) + .ofNat 64 CODE
    return opcode + (arg1_ <<< 8)
  else if opcode.toNat = CBZ ∨ opcode.toNat = ADR ∨ opcode.toNat = CBNZ then do
    let arg2_ := (← labels.get? arg2.toNat) + .ofNat 64 CODE
    return opcode + (arg1 <<< 8) + (arg2_ <<< 16)
  else if opcode.toNat = MOV ∨ opcode.toNat = SET ∨ opcode.toNat = LDR ∨ opcode.toNat = STR then
    return opcode + (arg1 <<< 8) + (arg2 <<< 16)
  else if opcode.toNat = NOP ∨ opcode.toNat = WFI then return opcode
  else return opcode + (arg1 <<< 8) + (arg2 <<< 16) + (arg3 <<< 24)

/-- The loop of `encodeProgram` from `pc` on. -/
def encodeFrom (pc : Word) (labels : NdArray Word) : List (List Word) → Option (List Word)
  | [] => some []
  | instr :: instrs => do
      let label ← instr[0]?
      let labels ← if label ≠ 0 then labels.set? label.toNat pc else some labels
      let encodedInstr ← encodeInstruction instr labels
      return encodedInstr :: (← encodeFrom (pc + 1) labels instrs)

def encodeProgram (instrs : List (List Word)) : Option (List Word) :=
  let labels := NdArray.fill instrs.length 0
  encodeFrom 0 (clear labels) instrs

/-- An operand as a number. There are no functions in C++. -/
def operandWord : Operand ℕ → Word
  | .num n => .ofNat 64 n
  | .label l => .ofNat 64 l
  | .fn _ => 0

/-- The row of an entry whose label, if it has one, is a positive number. -/
def row (e : Option ℕ × Instr ℕ) : List Word :=
  .ofNat 64 (e.1.getD 0) :: .ofNat 64 e.2.opcode :: e.2.operands.map operandWord

/-! ## One instruction -/

section
variable {instr : Instr ℕ} {label : Option ℕ} {w : ℕ}

theorem operand_row (e : Option ℕ × Instr ℕ) (k : ℕ) :
    (row e)[k + 2]? = e.2.operands[k]?.map operandWord := by
  rw [row, List.getElem?_cons_succ, List.getElem?_cons_succ, List.getElem?_map]

theorem argNum_eq_some_iff {L : Type} {arg : Option (Operand L)} {n : ℕ} :
    Advanced.argNum arg = some n ↔ arg = some (.num n) := by
  rcases arg with _ | _ | _ | _ <;> simp [Advanced.argNum]

/-- What the Python assembler accepts while its label table is empty. -/
theorem encodeInstruction_cases {opcode : ℕ} {operands : List (Operand ℕ)}
    (h : Advanced.encodeInstruction ⟨opcode, operands⟩ (fun _ => none) = some (.word w)) :
    ((opcode = NOP ∨ opcode = WFI) ∧ w = opcode) ∨
    ((opcode = MOV ∨ opcode = SET ∨ opcode = LDR ∨ opcode = STR) ∧ ∃ a b,
      operands[0]? = some (.num a) ∧ operands[1]? = some (.num b) ∧
      w = opcode + (a <<< 8) + (b <<< 16)) ∨
    (opcode ∉ [NOP, WFI, MOV, SET, LDR, STR, CBZ, CBNZ, ADR, B, BL, BX] ∧ ∃ a b c,
      operands[0]? = some (.num a) ∧ operands[1]? = some (.num b) ∧ operands[2]? = some (.num c) ∧
      w = opcode + (a <<< 8) + (b <<< 16) + (c <<< 24)) := by
  -- the operand of a branch is not in the table, and `BX` has none
  by_cases hjump : opcode = BL ∨ opcode = B ∨ opcode = CBZ ∨ opcode = ADR ∨ opcode = CBNZ ∨
      opcode = BX ∨ opcode = Advanced.HLI
  · rcases hjump with rfl | rfl | rfl | rfl | rfl | rfl | rfl <;>
      simp [Advanced.encodeInstruction, Advanced.readArg, Advanced.argNum] at h
  by_cases hnop : opcode = NOP ∨ opcode = WFI
  · refine .inl ⟨hnop, ?_⟩
    rw [Advanced.encodeInstruction_none hnop] at h
    cases h
    rfl
  by_cases htwo : opcode = MOV ∨ opcode = SET ∨ opcode = LDR ∨ opcode = STR
  · refine .inr (.inl ⟨htwo, ?_⟩)
    rcases htwo with rfl | rfl | rfl | rfl
    all_goals
      simp only [Advanced.encodeInstruction, Advanced.readArg] at h
      simp [Option.bind_eq_some_iff, argNum_eq_some_iff] at h
      obtain ⟨a, ha, b, hb, rfl⟩ := h
      exact ⟨a, b, ha, hb, rfl⟩
  · simp only [NOP, WFI, MOV, SET, LDR, STR, CBZ, CBNZ, ADR, B, BL, BX, Advanced.HLI,
      not_or] at hjump hnop htwo
    have hnotin : opcode ∉ [NOP, WFI, MOV, SET, LDR, STR, CBZ, CBNZ, ADR, B, BL, BX] := by
      simp [hjump, hnop, htwo]
    refine .inr (.inr ⟨hnotin, ?_⟩)
    simp [Advanced.encodeInstruction, Advanced.readArg, Option.bind_eq_some_iff,
      argNum_eq_some_iff, hjump, hnop, htwo] at h
    obtain ⟨a, ha, b, hb, c, hc, rfl⟩ := h
    exact ⟨a, b, c, ha, hb, hc, rfl⟩

section
variable {instrRow : List Word} {opcode x y z : Word} {labels : NdArray Word}

/-! The three formats without a label, in C++. -/

theorem encodeInstruction_none (hopcode : instrRow[1]? = some opcode)
    (hop : opcode.toNat = NOP ∨ opcode.toNat = WFI) :
    encodeInstruction instrRow labels = some opcode := by
  rcases hop with hop | hop <;> simp [encodeInstruction, readArg, hopcode, hop]

theorem encodeInstruction_two (hopcode : instrRow[1]? = some opcode)
    (hop : opcode.toNat = MOV ∨ opcode.toNat = SET ∨ opcode.toNat = LDR ∨ opcode.toNat = STR)
    (hx : instrRow[2]? = some x) (hy : instrRow[3]? = some y) :
    encodeInstruction instrRow labels = some (opcode + (x <<< 8) + (y <<< 16)) := by
  rcases hop with hop | hop | hop | hop <;>
    simp [encodeInstruction, readArg, hopcode, hop, hx, hy]

theorem encodeInstruction_three (hopcode : instrRow[1]? = some opcode)
    (hop : opcode.toNat ∉ [NOP, WFI, MOV, SET, LDR, STR, CBZ, CBNZ, ADR, B, BL, BX])
    (hx : instrRow[2]? = some x) (hy : instrRow[3]? = some y) (hz : instrRow[4]? = some z) :
    encodeInstruction instrRow labels =
      some (opcode + (x <<< 8) + (y <<< 16) + (z <<< 24)) := by
  simp only [NOP, WFI, MOV, SET, LDR, STR, CBZ, CBNZ, ADR, B, BL, BX, List.mem_cons,
    List.not_mem_nil, or_false, not_or] at hop
  simp [encodeInstruction, readArg, hopcode, hop, hx, hy, hz]

end

/-- Without labels the assemblers pack the same word. -/
theorem encodeInstruction_row (labels : NdArray Word)
    (h : Advanced.encodeInstruction instr (fun _ => none) = some (.word w)) (hw : w < 2 ^ 64) :
    encodeInstruction (row (label, instr)) labels = some (.ofNat 64 w) := by
  obtain ⟨opcode, operands⟩ := instr
  have hopcode : (row (label, ⟨opcode, operands⟩))[1]? = some (.ofNat 64 opcode) := rfl
  have hoperand : ∀ {k n}, operands[k]? = some (.num n) →
      (row (label, ⟨opcode, operands⟩))[k + 2]? = some (.ofNat 64 n) := by
    intro k n hk
    rw [operand_row, hk]
    rfl
  have hop : opcode < 2 ^ 64 → (BitVec.ofNat 64 opcode).toNat = opcode := by
    intro hlt
    rw [BitVec.toNat_ofNat, Nat.mod_eq_of_lt hlt]
  rcases encodeInstruction_cases h with ⟨hnop, hword⟩ | ⟨htwo, a, b, ha, hb, hword⟩ |
    ⟨hthree, a, b, c, ha, hb, hc, hword⟩
  · have hop := hop (by omega)
    rw [encodeInstruction_none hopcode (by rw [hop]; exact hnop), hword]
  · have hop := hop (by omega)
    rw [encodeInstruction_two hopcode (by rw [hop]; exact htwo) (hoperand ha) (hoperand hb), hword,
      BitField.ofNat_shiftLeft, BitField.ofNat_shiftLeft, BitVec.ofNat_add, BitVec.ofNat_add]
  · have hop := hop (by omega)
    rw [encodeInstruction_three hopcode (by rw [hop]; exact hthree) (hoperand ha) (hoperand hb)
      (hoperand hc), hword, BitField.ofNat_shiftLeft, BitField.ofNat_shiftLeft,
      BitField.ofNat_shiftLeft, BitVec.ofNat_add, BitVec.ofNat_add, BitVec.ofNat_add]

end

/-! ## Whole programs -/

section
variable {prog : List (Option ℕ × Instr ℕ)} {ws : List ℕ} {labels : NdArray Word}

/-- Programs without labels are packed alike. -/
theorem encodeFrom_rows (hnone : ∀ e ∈ prog, e.1 = none) {pc : ℕ} (pc' : Word)
    (h : Advanced.encodeFrom pc (fun _ => none) prog = some (ws.map .word))
    (hws : ∀ w ∈ ws, w < 2 ^ 64) :
    encodeFrom pc' labels (prog.map row) = some (ws.map (.ofNat 64)) := by
  induction prog generalizing pc pc' ws with
  | nil =>
      cases ws with
      | nil => rfl
      | cons w ws => cases h
  | cons e prog ih =>
      obtain ⟨label, instr⟩ := e
      obtain rfl : label = none := hnone _ (List.mem_cons_self ..)
      obtain ⟨x, hx, h⟩ := Option.bind_eq_some_iff.mp h
      obtain ⟨xs, hxs, h⟩ := Option.bind_eq_some_iff.mp h
      cases ws with
      | nil => cases h
      | cons w ws =>
          cases h
          have hrow : encodeInstruction (row (none, instr)) labels = some (.ofNat 64 w) :=
            encodeInstruction_row labels hx (hws w (List.mem_cons_self ..))
          have hrest := ih (fun e he => hnone e (List.mem_cons_of_mem _ he)) (pc' + 1) hxs
            fun w hw => hws w (List.mem_cons_of_mem _ hw)
          have hlabel : (row (none, instr))[0]? = some 0 := rfl
          simp only [List.map_cons, encodeFrom, hlabel, hrow, hrest, Option.bind_eq_bind,
            Option.bind_some]
          rfl

/-- A label cannot be entered in a table without entries. -/
theorem encodeFrom_labelled (hsize : labels.size = 0)
    (hlabels : ∀ e ∈ prog, ∀ l ∈ e.1, 0 < l ∧ l < 2 ^ 64) (hsome : ∃ e ∈ prog, e.1 ≠ none)
    (pc : Word) : encodeFrom pc labels (prog.map row) = none := by
  induction prog generalizing pc with
  | nil =>
      obtain ⟨e, he, -⟩ := hsome
      cases he
  | cons e prog ih =>
      obtain ⟨label, instr⟩ := e
      cases label with
      | some l =>
          obtain ⟨hpos, hlt⟩ := hlabels _ (List.mem_cons_self ..) l rfl
          have hne : BitVec.ofNat 64 l ≠ 0 := by
            intro hzero
            have := congrArg BitVec.toNat hzero
            rw [BitVec.toNat_ofNat, Nat.mod_eq_of_lt hlt] at this
            exact absurd this (Nat.ne_of_gt hpos)
          have hset : labels.set? (BitVec.ofNat 64 l).toNat pc = none :=
            if_neg (by omega)
          have hlabel : (row (some l, instr))[0]? = some (.ofNat 64 l) := rfl
          simp only [List.map_cons, encodeFrom, hlabel, hset, if_pos hne, Option.bind_eq_bind,
            Option.bind_some, Option.bind_none]
      | none =>
          have hrest := ih (fun e he => hlabels e (List.mem_cons_of_mem _ he)) (by
            obtain ⟨e, he, hne⟩ := hsome
            rcases List.mem_cons.mp he with rfl | he
            · exact absurd rfl hne
            · exact ⟨e, he, hne⟩) (pc + 1)
          have hlabel : (row (none, instr))[0]? = some 0 := rfl
          simp only [List.map_cons, encodeFrom, hlabel, hrest, Option.bind_eq_bind,
            Option.bind_some, Option.bind_none]
          cases encodeInstruction (row (none, instr)) labels <;> rfl

/-- **The C++ assembler agrees with the Python one on programs without labels only.** -/
theorem encodeProgram_agrees_iff (hlabels : ∀ e ∈ prog, ∀ l ∈ e.1, 0 < l ∧ l < 2 ^ 64)
    (h : Advanced.encodeProgram prog = some (ws.map .word)) (hws : ∀ w ∈ ws, w < 2 ^ 64) :
    encodeProgram (prog.map row) = some (ws.map (.ofNat 64)) ↔ ∀ e ∈ prog, e.1 = none := by
  constructor
  · intro hcpp e he
    by_contra hne
    rw [encodeProgram, encodeFrom_labelled rfl hlabels ⟨e, he, hne⟩] at hcpp
    cases hcpp
  · intro hnone
    exact encodeFrom_rows hnone 0 h hws

end

/-! A program without labels, and programs with labels. -/

def storeSum : List (Option ℕ × Instr ℕ) :=
  [(none, ⟨Advanced.SET, [.num 1, .num 10]⟩), (none, ⟨Advanced.SET, [.num 2, .num 32]⟩),
    (none, ⟨Advanced.ADD, [.num 3, .num 1, .num 2]⟩), (none, ⟨Advanced.STR, [.num 3, .num 1]⟩),
    (none, ⟨Advanced.NOP, []⟩)]

def labelledNop : List (Option ℕ × Instr ℕ) := [(some 1, ⟨Advanced.NOP, []⟩)]

theorem encodeProgram_agrees_iff_countdown :
    encodeProgram (storeSum.map row) =
        some ([655639, 2097687, 33620736, 66321, 24].map (.ofNat 64)) ∧
      encodeProgram (Advanced.countdown.source.map row) ≠
        some ([5506071, 66839, 84149249, 824633852954, 3221226011].map (.ofNat 64)) := by
  constructor
  · exact (encodeProgram_agrees_iff (by decide) rfl (by decide)).mpr (by decide)
  · rw [ne_eq, encodeProgram_agrees_iff (by decide) rfl (by decide)]
    intro hnone
    exact absurd (hnone (some 1, _) (List.mem_cons_self ..)) nofun

/-- The label is defined outside the cleared vector. -/
theorem labelledNop_differs : Advanced.encodeProgram labelledNop = some [.word 24] ∧
    encodeProgram (labelledNop.map row) = none := ⟨rfl, by decide⟩

end Osh.Cpp
