import Osh.Advanced.Assembly

/-!
# Which programs the assembler accepts

`encodeProgram` fills the label table in the loop that reads it, so a label has a value
from its definition on and none before. A program is accepted exactly when every label is
defined at or before each instruction that names it, and then the words carry the labels'
addresses. The programs are source lists, so whether their instructions have the operands
that the assembler reads is a condition of its own.

## Main definitions

* `Instr.target`, `Instr.branchWord`: the label an instruction names, and its word for
  the label's address.
* `Instr.WellFormed`: the operands are there and of the right kinds.
* `LabelsUnique`, `TargetsDefined`: conditions on the labels of a program.

## Main results

* `Instr.wellFormed_iff`: these are the operands that the assembler accepts.
* `encodeProgram_resolves`: the programs it accepts, and their words.
-/
namespace Osh.Advanced
variable {L : Type}

namespace Instr

/-- The label that an instruction looks up. -/
def target (instr : Instr L) : Option L :=
  if instr.opcode = BL ∨ instr.opcode = B then argLabel instr.operands[0]?
  else if instr.opcode = CBZ ∨ instr.opcode = ADR ∨ instr.opcode = CBNZ then
    argLabel instr.operands[1]?
  else none

/-- The word of an instruction with a label, for the address that the label stands for. -/
def branchWord (instr : Instr L) (address : ℕ) : ℕ :=
  if instr.opcode = BL ∨ instr.opcode = B then instr.opcode + (address <<< 8)
  else
    let arg1 := (argNum instr.operands[0]?).getD 0
    instr.opcode + (arg1 <<< 8) + (address <<< 16)

/-- Operand `k` is a number. -/
def HasNum (instr : Instr L) (k : ℕ) : Prop := (argNum instr.operands[k]?).isSome

/-- Operand `k` is a label. -/
def HasLabel (instr : Instr L) (k : ℕ) : Prop := (argLabel instr.operands[k]?).isSome

/-- The instruction has the operands that the assembler reads, each a number or a label as it
is used. A `BX` never has them, since of its operands only the first is read and three are used. -/
def WellFormed (instr : Instr L) : Prop :=
  if instr.opcode = BL ∨ instr.opcode = B then instr.HasLabel 0
  else if instr.opcode = CBZ ∨ instr.opcode = ADR ∨ instr.opcode = CBNZ then
    instr.HasNum 0 ∧ instr.HasLabel 1 ∧ (instr.opcode = ADR → instr.operands[2]?.isSome)
  else if instr.opcode = MOV ∨ instr.opcode = SET ∨ instr.opcode = LDR ∨ instr.opcode = STR then
    instr.HasNum 0 ∧ instr.HasNum 1
  else if instr.opcode = NOP ∨ instr.opcode = WFI ∨ instr.opcode = HLI then True
  else instr.opcode ≠ BX ∧ instr.HasNum 0 ∧ instr.HasNum 1 ∧ instr.HasNum 2

variable {instr : Instr L} {l : L} {k : ℕ}

theorem argLabel_eq_some_iff {arg : Option (Operand L)} :
    argLabel arg = some l ↔ arg = some (.label l) := by
  rcases arg with _ | _ | _ | _ <;> simp [argLabel]

theorem hasNum_iff : instr.HasNum k ↔ ∃ n, instr.operands[k]? = some (.num n) := by
  rw [HasNum]
  rcases instr.operands[k]? with _ | _ | _ | _ <;> simp [argNum]

theorem hasNum_of_readArg {c : Bool} {arg : Option (Operand L)} {a : ℕ}
    (harg : readArg instr c k = some arg) (ha : argNum arg = some a) : instr.HasNum k := by
  cases c with
  | false =>
      cases harg
      cases ha
  | true =>
      obtain ⟨x, hx, rfl⟩ := Option.map_eq_some_iff.mp harg
      rw [HasNum, hx, ha]
      rfl

theorem hasLabel_of_readArg {c : Bool} {arg : Option (Operand L)}
    (harg : readArg instr c k = some arg) (hl : argLabel arg = some l) : instr.HasLabel k := by
  cases c with
  | false =>
      cases harg
      cases hl
  | true =>
      obtain ⟨x, hx, rfl⟩ := Option.map_eq_some_iff.mp harg
      rw [HasLabel, hx, hl]
      rfl

/-- What the assembler does with an instruction that names a label. -/
theorem encodeInstruction_of_target (hwf : instr.WellFormed) (hl : l ∈ instr.target)
    (labels : L → Option ℕ) :
    encodeInstruction instr labels =
      (labels l).map fun d => .word (instr.branchWord (CODE + d)) := by
  obtain ⟨opcode, operands⟩ := instr
  simp only [target] at hl
  split at hl
  · next hop =>
      rw [encodeInstruction_branch hop (argLabel_eq_some_iff.mp hl)]
      simp only [branchWord, if_pos hop, Nat.add_comm CODE]
  split at hl
  · next hjump hop =>
      simp only [WellFormed, if_neg hjump, if_pos hop] at hwf
      obtain ⟨hnum, -, h2⟩ := hwf
      obtain ⟨r, h0⟩ := hasNum_iff.mp hnum
      rw [encodeInstruction_compare hop h0 (argLabel_eq_some_iff.mp hl) h2]
      simp only [branchWord, if_neg hjump, h0, argNum, Option.getD_some, Nat.add_comm CODE]
  · cases hl

/-- The label table does not matter where no label is named. -/
theorem encodeInstruction_of_no_target (hwf : instr.WellFormed) (hnone : instr.target = none)
    (labels : L → Option ℕ) : (encodeInstruction instr labels).isSome := by
  obtain ⟨opcode, operands⟩ := instr
  simp only [target, WellFormed] at hnone hwf
  split at hnone
  · next hop =>
      rw [if_pos hop, HasLabel, hnone] at hwf
      cases hwf
  next hjump =>
  rw [if_neg hjump] at hwf
  split at hnone
  · next hop =>
      rw [if_pos hop, HasLabel, hnone] at hwf
      cases hwf.2.1
  next hcompare =>
  rw [if_neg hcompare] at hwf
  split at hwf
  · next hop =>
      obtain ⟨a, h0⟩ := hasNum_iff.mp hwf.1
      obtain ⟨b, h1⟩ := hasNum_iff.mp hwf.2
      rw [encodeInstruction_two hop h0 h1]
      rfl
  next htwo =>
  split at hwf
  · next hop =>
      rcases hop with hop | hop | rfl
      · rw [encodeInstruction_none (.inl hop)]
        rfl
      · rw [encodeInstruction_none (.inr hop)]
        rfl
      · rfl
  next hrest =>
  obtain ⟨hBX, h0, h1, h2⟩ := hwf
  obtain ⟨a, h0⟩ := hasNum_iff.mp h0
  obtain ⟨b, h1⟩ := hasNum_iff.mp h1
  obtain ⟨c, h2⟩ := hasNum_iff.mp h2
  rw [encodeInstruction_three ?_ h0 h1 h2]
  · rfl
  simp only [List.mem_cons, List.not_mem_nil, or_false]
  tauto

/-- What the assembler accepts has the operands that it reads. -/
theorem wellFormed_of_encodeInstruction {labels : L → Option ℕ}
    (hsome : (encodeInstruction instr labels).isSome) : instr.WellFormed := by
  obtain ⟨x, hx⟩ := Option.isSome_iff_exists.mp hsome
  obtain ⟨arg1, h1, hx⟩ := Option.bind_eq_some_iff.mp hx
  obtain ⟨arg2, h2, hx⟩ := Option.bind_eq_some_iff.mp hx
  obtain ⟨arg3, h3, hx⟩ := Option.bind_eq_some_iff.mp hx
  rw [WellFormed]
  split at hx
  · next hop =>
      rw [if_pos hop]
      obtain ⟨l, hl, -⟩ := Option.bind_eq_some_iff.mp hx
      exact hasLabel_of_readArg h1 hl
  next hjump =>
  rw [if_neg hjump]
  split at hx
  · next hop =>
      rw [if_pos hop]
      obtain ⟨l, hl, hx⟩ := Option.bind_eq_some_iff.mp hx
      obtain ⟨d, -, hx⟩ := Option.bind_eq_some_iff.mp hx
      obtain ⟨a, ha, -⟩ := Option.bind_eq_some_iff.mp hx
      refine ⟨hasNum_of_readArg h1 ha, hasLabel_of_readArg h2 hl, fun hADR => ?_⟩
      have hreads : readArg instr true 2 = some arg3 := by
        rw [← h3]
        simp [hADR]
      obtain ⟨y, hy, -⟩ := Option.map_eq_some_iff.mp hreads
      exact Option.isSome_iff_exists.mpr ⟨y, hy⟩
  next hcompare =>
  rw [if_neg hcompare]
  split at hx
  · next hop =>
      rw [if_pos hop]
      obtain ⟨a, ha, hx⟩ := Option.bind_eq_some_iff.mp hx
      obtain ⟨b, hb, -⟩ := Option.bind_eq_some_iff.mp hx
      exact ⟨hasNum_of_readArg h1 ha, hasNum_of_readArg h2 hb⟩
  next htwo =>
  rw [if_neg htwo]
  split at hx
  · next hop =>
      rw [if_pos (hop.imp_right .inl)]
      trivial
  split at hx
  · next hop =>
      rw [if_pos (.inr (.inr hop))]
      trivial
  next hnone hHLI =>
  rw [if_neg (by tauto)]
  obtain ⟨a, ha, hx⟩ := Option.bind_eq_some_iff.mp hx
  obtain ⟨b, hb, hx⟩ := Option.bind_eq_some_iff.mp hx
  obtain ⟨c, hc, -⟩ := Option.bind_eq_some_iff.mp hx
  refine ⟨fun hBX => ?_, hasNum_of_readArg h1 ha, hasNum_of_readArg h2 hb,
    hasNum_of_readArg h3 hc⟩
  -- the second argument of a `BX` stays `None`
  have hreads : readArg instr false 1 = some arg2 := by
    rw [← h2]
    simp [hBX]
  cases hreads
  cases hb

/-- An instruction has these operands exactly if some label table makes the assembler accept it. -/
theorem wellFormed_iff :
    instr.WellFormed ↔ ∃ labels, (encodeInstruction instr labels).isSome := by
  constructor
  · intro hwf
    refine ⟨fun _ => some 0, ?_⟩
    cases hl : instr.target with
    | none => exact encodeInstruction_of_no_target hwf hl _
    | some l =>
        rw [encodeInstruction_of_target hwf hl]
        rfl
  · rintro ⟨labels, hsome⟩
    exact wellFormed_of_encodeInstruction hsome

end Instr

/-! ## Whole programs -/

/-- No two positions define the same label. -/
def LabelsUnique (prog : List (Option L × Instr L)) : Prop :=
  ∀ d e l, labelAt prog d = some l → labelAt prog e = some l → d = e

/-- Every label is defined at or before each instruction that names it. -/
def TargetsDefined (prog : List (Option L × Instr L)) : Prop :=
  ∀ i : ℕ, ∀ e ∈ prog[i]?, ∀ l ∈ e.2.target, ∃ d ≤ i, labelAt prog d = some l

section
variable [DecidableEq L]

/-- An accepted list has been encoded entry by entry. -/
theorem encodeFrom_entries :
    ∀ (instrs : List (Option L × Instr L)) (pc : ℕ) (labels : L → Option ℕ) {es},
      encodeFrom pc labels instrs = some es → es.length = instrs.length ∧
        ∀ i : ℕ, ∀ e ∈ instrs[i]?, encodeInstruction e.2 (tableAt pc labels instrs i) = es[i]? := by
  intro instrs
  induction instrs with
  | nil =>
      intro pc labels es h
      cases h
      exact ⟨rfl, by simp⟩
  | cons e instrs ih =>
      intro pc labels es h
      obtain ⟨x, hx, h⟩ := Option.bind_eq_some_iff.mp h
      obtain ⟨xs, hxs, h⟩ := Option.bind_eq_some_iff.mp h
      cases h
      obtain ⟨hlen, hget⟩ := ih (pc + 1) (defineLabel pc e.1 labels) hxs
      refine ⟨by rw [List.length_cons, List.length_cons, hlen], ?_⟩
      intro i e' he'
      cases i with
      | zero =>
          cases he'
          exact hx
      | succ i => exact hget i e' he'

/-- Where labels are unique, the table holds the position of a label from its definition on. -/
theorem tableAt_eq {prog : List (Option L × Instr L)} (hunique : LabelsUnique prog) {i d : ℕ}
    {l : L} (hd : labelAt prog d = some l) :
    tableAt 0 (fun _ => none) prog i l = if d ≤ i then some d else none := by
  by_cases hdi : d ≤ i
  · obtain ⟨d', hlatest⟩ := exists_latestDef hdi hd
    obtain rfl : d = d' := hunique d d' l hd hlatest.defines
    rw [tableAt_of_latestDef prog 0 i d _ hlatest, if_pos hdi, Nat.zero_add]
  · rw [tableAt_of_undefined prog 0 i _ fun e he hel => hdi ?_, if_neg hdi]
    rw [hunique d e l hd hel]
    exact he

/-- In an accepted program a label that is named is in the table, and the word carries it. -/
theorem exists_target {prog : List (Option L × Instr L)} (hwf : ∀ e ∈ prog, e.2.WellFormed)
    {es : List (Encoded L)} (hes : encodeProgram prog = some es) {i : ℕ}
    {e : Option L × Instr L} (he : prog[i]? = some e) {l : L} (hl : l ∈ e.2.target) :
    ∃ d, tableAt 0 (fun _ => none) prog i l = some d ∧
      es[i]? = some (.word (e.2.branchWord (CODE + d))) := by
  obtain ⟨hlen, hget⟩ := encodeFrom_entries prog 0 (fun _ => none) hes
  have hi : i < es.length := hlen ▸ (List.getElem?_eq_some_iff.mp he).1
  have h := (Instr.encodeInstruction_of_target (hwf e (List.mem_of_getElem? he)) hl _).symm.trans
    (hget i e he)
  rw [List.getElem?_eq_getElem hi, Option.map_eq_some_iff] at h
  obtain ⟨d, hd, hword⟩ := h
  exact ⟨d, hd, by rw [List.getElem?_eq_getElem hi, hword]⟩

/-- **A program is accepted when every label is defined before it is named, and only then.**
The words of its branches carry `CODE` plus the positions of their labels. -/
theorem encodeProgram_resolves {prog : List (Option L × Instr L)}
    (hwf : ∀ e ∈ prog, e.2.WellFormed) (hunique : LabelsUnique prog) :
    ((encodeProgram prog).isSome ↔ TargetsDefined prog) ∧
      ∀ es, encodeProgram prog = some es → es.length = prog.length ∧
        ∀ i : ℕ, ∀ e ∈ prog[i]?, ∀ l ∈ e.2.target, ∀ d, labelAt prog d = some l →
          es[i]? = some (.word (e.2.branchWord (CODE + d))) := by
  refine ⟨⟨?_, ?_⟩, ?_⟩
  · intro h i e he l hl
    obtain ⟨es, hes⟩ := Option.isSome_iff_exists.mp h
    obtain ⟨d, hd, -⟩ := exists_target hwf hes he hl
    by_contra hnone
    rw [tableAt_of_undefined prog 0 i _ fun e he hel => hnone ⟨e, he, hel⟩] at hd
    cases hd
  · intro h
    obtain ⟨es, hes, -⟩ := encodeFrom_spec prog 0 (fun _ => none) fun i e he => by
      have hwfe := hwf e (List.mem_of_getElem? he)
      cases hl : e.2.target with
      | none => exact Instr.encodeInstruction_of_no_target hwfe hl _
      | some l =>
          obtain ⟨d, hdi, hd⟩ := h i e he l hl
          rw [Instr.encodeInstruction_of_target hwfe hl, tableAt_eq hunique hd, if_pos hdi]
          rfl
    rw [encodeProgram, hes]
    rfl
  · intro es hes
    refine ⟨(encodeFrom_entries prog 0 (fun _ => none) hes).1, ?_⟩
    intro i e he l hl d hd
    obtain ⟨d', hd', hword⟩ := exists_target hwf hes he hl
    rw [tableAt_eq hunique hd] at hd'
    split at hd'
    · cases hd'
      exact hword
    · cases hd'

end

/-! A branch backwards and a branch forwards, to the only label of the program. -/

def backwardBranch : List (Option ℕ × Instr ℕ) := [(some 1, ⟨NOP, []⟩), (none, ⟨B, [.label 1]⟩)]

def forwardBranch : List (Option ℕ × Instr ℕ) := [(none, ⟨B, [.label 1]⟩), (some 1, ⟨NOP, []⟩)]

theorem wellFormed_nop : (⟨NOP, []⟩ : Instr ℕ).WellFormed := trivial

theorem wellFormed_b : (⟨B, [.label 1]⟩ : Instr ℕ).WellFormed := rfl

theorem encodeProgram_resolves_backward :
    ∃ es, encodeProgram backwardBranch = some es ∧
      es[1]? = some (.word (B + ((CODE + 0) <<< 8))) := by
  have hwf : ∀ e ∈ backwardBranch, e.2.WellFormed := by
    intro e he
    simp only [backwardBranch, List.mem_cons, List.not_mem_nil, or_false] at he
    rcases he with rfl | rfl
    exacts [wellFormed_nop, wellFormed_b]
  have hposition : ∀ {l} d, labelAt backwardBranch d = some l → d = 0
    | _, 0, _ => rfl
    | _, 1, h => by cases h
    | _, d + 2, h => by cases h
  have htargets : TargetsDefined backwardBranch := by
    rintro (_ | _ | i) e he l hl
    · cases he
      cases hl
    · cases he
      cases hl
      exact ⟨0, by decide, rfl⟩
    · cases he
  obtain ⟨haccepts, hwords⟩ := encodeProgram_resolves hwf fun d e l hd he =>
    (hposition d hd).trans (hposition e he).symm
  obtain ⟨es, hes⟩ := Option.isSome_iff_exists.mp (haccepts.mpr htargets)
  exact ⟨es, hes, (hwords es hes).2 1 _ rfl 1 rfl 0 rfl⟩

theorem forward_branch_rejected :
    LabelsUnique forwardBranch ∧ (∀ e ∈ forwardBranch, e.2.WellFormed) ∧
      (∀ e ∈ forwardBranch, ∀ l ∈ e.2.target, ∃ d, labelAt forwardBranch d = some l) ∧
      encodeProgram forwardBranch = none := by
  have hposition : ∀ {l} d, labelAt forwardBranch d = some l → d = 1
    | _, 0, h => by cases h
    | _, 1, _ => rfl
    | _, d + 2, h => by cases h
  refine ⟨fun d e l hd he => (hposition d hd).trans (hposition e he).symm, ?_, ?_, rfl⟩
  all_goals
    intro e he
    simp only [forwardBranch, List.mem_cons, List.not_mem_nil, or_false] at he
  · rcases he with rfl | rfl
    exacts [wellFormed_b, wellFormed_nop]
  · rcases he with rfl | rfl
    · intro l hl
      cases hl
      exact ⟨1, rfl⟩
    · intro l hl
      cases hl

end Osh.Advanced
