import Mathlib.Tactic.IntervalCases
import Osh.Lib.BitField
import Osh.Advanced.Encoder

/-!
# Symbolic assembly, and decoding what was assembled

`Asm` is the assembly language as a datatype: operands have the ranges of the
fields they are packed into, so an instruction that does not fit its word cannot be
written. `toInstr` gives the Python list that the assembler reads. The main result
is that decoding undoes assembling for whole programs, with every label replaced by
the address of its latest definition.

## Main definitions

* `Asm`, `Program`: instructions, and lists of optionally labelled ones.
* `LatestDef prog i l d`: position `d` holds the latest definition of `l` up to `i`.
* `Asm.args`: the argument tuple an instruction decodes to.
-/
namespace Osh.Advanced
variable {L : Type}

/-- The operators of the arithmetic unit. -/
inductive AluOp where
  | add | sub | mul | div | and | orr | eor | asr | asl
  deriving DecidableEq

def AluOp.opcode : AluOp → ℕ
  | add => ADD
  | sub => SUB
  | mul => MUL
  | div => DIV
  | and => AND
  | orr => ORR
  | eor => EOR
  | asr => ASR
  | asl => ASL

theorem AluOp.opcode_le (op : AluOp) : op.opcode ≤ 8 := by cases op <;> decide

/-- A register field of an instruction word. -/
abbrev Reg := Fin 256

/-- An immediate or address field of an instruction word. -/
abbrev Imm := Fin (2 ^ 48)

instance Reg.neZero : NeZero 256 := ⟨by decide⟩

instance Imm.neZero : NeZero (2 ^ 48) := ⟨by decide⟩

theorem TIMER_lt : TIMER < 2 ^ 48 := by decide

theorem TIMER_succ_lt : TIMER + 1 < 2 ^ 48 := by decide

/-- The assembly language. `push` and `pop` carry the two further operands that
the assembler reads for them. -/
inductive Asm (L : Type) where
  | alu (op : AluOp) (r3 r1 r2 : Reg)
  | push (r1 r2 r3 : Reg)
  | pop (r1 r2 r3 : Reg)
  | ldr (r1 : Reg) (addr : Imm)
  | str (r1 r2 : Reg)
  | mov (r1 r2 : Reg)
  | set (r1 : Reg) (v2 : Imm)
  | cbz (r1 : Reg) (l : L)
  | cbnz (r1 : Reg) (l : L)
  | b (l : L)
  | bl (l : L)
  | nop
  | wfi
  | hli (f : HlFn)

/-- A program: instructions, some of them labelled. -/
abbrev Program (L : Type) := List (Option L × Asm L)

namespace Asm

/-- The source form `[opcode, operand, ...]`. -/
def toInstr : Asm L → Instr L
  | alu op r3 r1 r2 => ⟨op.opcode, [.num r3, .num r1, .num r2]⟩
  | push r1 r2 r3 => ⟨PUSH, [.num r1, .num r2, .num r3]⟩
  | pop r1 r2 r3 => ⟨POP, [.num r1, .num r2, .num r3]⟩
  | ldr r1 addr => ⟨LDR, [.num r1, .num addr]⟩
  | str r1 r2 => ⟨STR, [.num r1, .num r2]⟩
  | mov r1 r2 => ⟨MOV, [.num r1, .num r2]⟩
  | set r1 v2 => ⟨SET, [.num r1, .num v2]⟩
  | cbz r1 l => ⟨CBZ, [.num r1, .label l]⟩
  | cbnz r1 l => ⟨CBNZ, [.num r1, .label l]⟩
  | b l => ⟨B, [.label l]⟩
  | bl l => ⟨BL, [.label l]⟩
  | nop => ⟨NOP, []⟩
  | wfi => ⟨WFI, []⟩
  | hli f => ⟨HLI, [.fn f]⟩

/-- The label an instruction refers to. -/
def target : Asm L → Option L
  | cbz _ l | cbnz _ l | b l | bl l => some l
  | _ => none

/-- Whether the instruction is assembled to a word of its own, not to a table entry. -/
def isWord : Asm L → Bool
  | hli _ => false
  | _ => true

/-- The argument tuple that the decoder returns, when labels stand for the given addresses. -/
def args (address : L → ℕ) : Asm L → Arg × Arg × Arg
  | alu _ r1 r2 r3 | push r1 r2 r3 | pop r1 r2 r3 =>
      (.val (.ofNat 64 r1), .val (.ofNat 64 r2), .val (.ofNat 64 r3))
  | ldr r1 x | set r1 x => (.val (.ofNat 64 r1), .val (.ofNat 64 x), .none)
  | str r1 r2 | mov r1 r2 => (.val (.ofNat 64 r1), .val (.ofNat 64 r2), .none)
  | cbz r1 l | cbnz r1 l => (.val (.ofNat 64 r1), .val (.ofNat 64 (address l)), .none)
  | b l | bl l => (.val (.ofNat 64 (address l)), .none, .none)
  | nop | wfi => (.none, .none, .none)
  | hli f => (.fn f, .none, .none)

end Asm

/-- A program in the form the assembler reads. -/
def Program.source (prog : Program L) : List (Option L × Instr L) :=
  prog.map fun e => (e.1, e.2.toInstr)

/-- The label at a position of a list of optionally labelled entries. -/
def labelAt {β : Type} (prog : List (Option L × β)) (i : ℕ) : Option L := prog[i]?.bind Prod.fst

/-- Position `d` defines label `l`, at or before position `i`, and no later position up to
`i` does. -/
structure LatestDef {β : Type} (prog : List (Option L × β)) (i : ℕ) (l : L) (d : ℕ) : Prop where
  le : d ≤ i
  defines : labelAt prog d = some l
  latest : ∀ e, d < e → e ≤ i → labelAt prog e ≠ some l

/-- Every label is defined at or before each of its uses. -/
def LabelsDefined (prog : Program L) : Prop :=
  ∀ i < prog.length, ∀ e ∈ prog[i]?, ∀ l ∈ e.2.target, ∃ d ≤ i, labelAt prog d = some l

instance [DecidableEq L] (prog : Program L) : Decidable (LabelsDefined prog) :=
  inferInstanceAs (Decidable (∀ i < prog.length, ∀ e ∈ prog[i]?, ∀ l ∈ e.2.target,
    ∃ d ≤ i, labelAt prog d = some l))

/-! ## The label table -/

/-- A label with a definition has a latest one. -/
theorem exists_latestDef {β : Type} {prog : List (Option L × β)} {i : ℕ} {l : L} {d : ℕ}
    (hd : d ≤ i) (hl : labelAt prog d = some l) : ∃ d', LatestDef prog i l d' := by
  classical
  induction i with
  | zero =>
      obtain rfl : d = 0 := by omega
      exact ⟨0, le_rfl, hl, by omega⟩
  | succ i ih =>
      by_cases h : labelAt prog (i + 1) = some l
      · exact ⟨i + 1, le_rfl, h, by omega⟩
      · have hne : d ≠ i + 1 := by rintro rfl; exact h hl
        obtain ⟨d', h'⟩ := ih (by omega)
        refine ⟨d', Nat.le_succ_of_le h'.le, h'.defines, ?_⟩
        intro e he hei
        rcases Nat.lt_or_ge i e with hlt | hle
        · obtain rfl : e = i + 1 := by omega
          exact h
        · exact h'.latest e he hle

section
variable [DecidableEq L]

/-- The label table with which `encodeFrom` assembles entry `i` of a list. -/
def tableAt {β : Type} (pc : ℕ) (labels : L → Option ℕ) :
    List (Option L × β) → ℕ → L → Option ℕ
  | [], _ => labels
  | e :: _, 0 => defineLabel pc e.1 labels
  | e :: es, i + 1 => tableAt (pc + 1) (defineLabel pc e.1 labels) es i

/-- A label that no entry up to `i` defines keeps its value in the table. -/
theorem tableAt_of_undefined {β : Type} {l : L} :
    ∀ (prog : List (Option L × β)) (pc i : ℕ) (labels : L → Option ℕ),
      (∀ e ≤ i, labelAt prog e ≠ some l) → tableAt pc labels prog i l = labels l := by
  have hdef : ∀ (pc : ℕ) (label : Option L) (labels : L → Option ℕ), label ≠ some l →
      defineLabel pc label labels l = labels l := by
    intro pc label labels h
    cases label with
    | none => rfl
    | some l' => exact Function.update_of_ne (fun heq => h (by rw [heq])) _ _
  intro prog
  induction prog with
  | nil => intros; simp [tableAt]
  | cons e es ih =>
      intro pc i labels h
      have h0 : e.1 ≠ some l := by simpa [labelAt] using h 0 (Nat.zero_le i)
      cases i with
      | zero => exact hdef pc e.1 labels h0
      | succ i =>
          rw [tableAt, ih (pc + 1) i _ fun d hd => ?_]
          · exact hdef pc e.1 labels h0
          · simpa [labelAt] using h (d + 1) (by omega)

/-- The table holds the position of the latest definition. -/
theorem tableAt_of_latestDef {β : Type} {l : L} :
    ∀ (prog : List (Option L × β)) (pc i d : ℕ) (labels : L → Option ℕ),
      LatestDef prog i l d → tableAt pc labels prog i l = some (pc + d) := by
  intro prog
  induction prog with
  | nil => intro pc i d labels h; simpa [labelAt] using h.defines
  | cons e es ih =>
      intro pc i d labels h
      cases d with
      | zero =>
          have h0 : e.1 = some l := by simpa [labelAt] using h.defines
          have hdef : defineLabel pc e.1 labels l = some pc := by
            rw [h0]
            exact Function.update_self _ _ _
          cases i with
          | zero => exact hdef
          | succ i =>
              rw [tableAt, tableAt_of_undefined es _ _ _ fun d hd => ?_, hdef]
              · rfl
              · simpa [labelAt] using h.latest (d + 1) (by omega) (by omega)
      | succ d =>
          cases i with
          | zero => exact absurd h.le (by omega)
          | succ i =>
              have htail : LatestDef es i l d := by
                refine ⟨by have := h.le; omega, by simpa [labelAt] using h.defines, ?_⟩
                intro e' he hei
                simpa [labelAt] using h.latest (e' + 1) (by omega) (by omega)
              rw [tableAt, ih (pc + 1) i d _ htail]
              congr 1
              omega

/-- A list whose entries are all encodable under their tables is encoded entry by entry. -/
theorem encodeFrom_spec :
    ∀ (instrs : List (Option L × Instr L)) (pc : ℕ) (labels : L → Option ℕ),
      (∀ i : ℕ, ∀ e ∈ instrs[i]?, (encodeInstruction e.2 (tableAt pc labels instrs i)).isSome) →
      ∃ es, encodeFrom pc labels instrs = some es ∧ es.length = instrs.length ∧
        ∀ i : ℕ, ∀ e ∈ instrs[i]?, encodeInstruction e.2 (tableAt pc labels instrs i) = es[i]? := by
  intro instrs
  induction instrs with
  | nil => intro pc labels _; exact ⟨[], rfl, rfl, by simp⟩
  | cons e es ih =>
      intro pc labels h
      obtain ⟨x, hx⟩ := Option.isSome_iff_exists.mp (h 0 e rfl)
      obtain ⟨xs, hxs, hlen, hget⟩ := ih (pc + 1) (defineLabel pc e.1 labels)
        fun i e' he' => h (i + 1) e' (by simpa using he')
      refine ⟨x :: xs, ?_, by simp [hlen], ?_⟩
      · simp only [encodeFrom]
        rw [show encodeInstruction e.2 (defineLabel pc e.1 labels) = some x from hx, hxs]
        rfl
      · intro i e' he'
        cases i with
        | zero =>
            obtain rfl : e = e' := by simpa using he'
            simpa using hx
        | succ i => simpa [tableAt] using hget i e' (by simpa using he')

end

/-! ## One instruction -/

section
variable {op w x r1 r2 r3 : ℕ}

theorem toNat_decodeInstr (hop : op < 256) (hw : w < 2 ^ 64) (h : w % 2 ^ 8 = op) :
    (decodeInstr (.ofNat 64 w)).toNat = op := by
  have hmask : (BitVec.ofNat 64 w &&& 0xFF) = BitVec.ofNat 64 (w % 2 ^ 8) :=
    BitField.ofNat_and_mask hw (m := 8) (by decide)
  rw [decodeInstr, hmask, h, BitVec.toNat_ofNat]
  omega

theorem decodeAddrArg_pack (hw : w < 2 ^ 64) (h : w / 2 ^ 8 = x) :
    decodeAddrArg (.ofNat 64 w) = (.val (.ofNat 64 x), .none, .none) := by
  rw [decodeAddrArg, BitField.ofNat_ushiftRight hw, h]

theorem field_pack (hw : w < 2 ^ 64) (k : ℕ) (h : w / 2 ^ k % 2 ^ 8 = x) :
    (BitVec.ofNat 64 w >>> k &&& 0xFF) = BitVec.ofNat 64 x := by
  rw [← h]
  exact BitField.ofNat_field hw k (m := 8) (by decide)

theorem decodeRegAddrArgs_pack (hw : w < 2 ^ 64) (h1 : w / 2 ^ 8 % 2 ^ 8 = r1)
    (h2 : w / 2 ^ 16 = x) :
    decodeRegAddrArgs (.ofNat 64 w) = (.val (.ofNat 64 r1), .val (.ofNat 64 x), .none) := by
  rw [decodeRegAddrArgs, field_pack hw 8 h1, BitField.ofNat_ushiftRight hw, h2]

theorem decode3regArgs_pack (hw : w < 2 ^ 64) (h1 : w / 2 ^ 8 % 2 ^ 8 = r1)
    (h2 : w / 2 ^ 16 % 2 ^ 8 = r2) (h3 : w / 2 ^ 24 % 2 ^ 8 = r3) :
    decode3regArgs (.ofNat 64 w) =
      (.val (.ofNat 64 r1), .val (.ofNat 64 r2), .val (.ofNat 64 r3)) := by
  rw [decode3regArgs, field_pack hw 8 h1, field_pack hw 16 h2, field_pack hw 24 h3]

/-- The format of three register fields. -/
theorem decode_three (hop : op ≤ 8 ∨ op = PUSH ∨ op = POP) (r1 r2 r3 : Reg)
    (hlt : op + r1.val * 2 ^ 8 + r2.val * 2 ^ 16 + r3.val * 2 ^ 24 < 2 ^ 64) :
    decodeInstruction
        (.word (.ofNat 64 (op + r1.val * 2 ^ 8 + r2.val * 2 ^ 16 + r3.val * 2 ^ 24))) =
      some (op, .val (.ofNat 64 r1), .val (.ofNat 64 r2), .val (.ofNat 64 r3)) := by
  simp only [PUSH, POP] at hop
  have hop256 : op < 256 := by omega
  have hargs := decode3regArgs_pack hlt (show _ = r1.val by omega) (show _ = r2.val by omega)
    (show _ = r3.val by omega)
  simp only [decodeInstruction]
  rw [toNat_decodeInstr hop256 hlt (by omega), decodeArgs, if_neg, if_neg, if_neg, hargs]
  all_goals simp only [LDR, STR, MOV, SET, CBZ, CBNZ, B, BL, BX, NOP, WFI]; omega

/-- The format of a register field and a number. -/
theorem decode_regAddr
    (hop : op = LDR ∨ op = STR ∨ op = MOV ∨ op = SET ∨ op = CBZ ∨ op = CBNZ) (r1 : Reg) (x : ℕ)
    (hlt : op + r1.val * 2 ^ 8 + x * 2 ^ 16 < 2 ^ 64) :
    decodeInstruction (.word (.ofNat 64 (op + r1.val * 2 ^ 8 + x * 2 ^ 16))) =
      some (op, .val (.ofNat 64 r1), .val (.ofNat 64 x), .none) := by
  have hop256 : op < 256 := by
    simp only [LDR, STR, MOV, SET, CBZ, CBNZ] at hop
    omega
  simp only [decodeInstruction]
  rw [toNat_decodeInstr hop256 hlt (by omega), decodeArgs, if_pos hop,
    decodeRegAddrArgs_pack hlt (show _ = r1.val by omega) (show _ = x by omega)]

/-- The format of a single number. -/
theorem decode_addr (hop : op = B ∨ op = BL ∨ op = BX) (x : ℕ) (hlt : op + x * 2 ^ 8 < 2 ^ 64) :
    decodeInstruction (.word (.ofNat 64 (op + x * 2 ^ 8))) =
      some (op, .val (.ofNat 64 x), .none, .none) := by
  have hop256 : op < 256 := by
    simp only [B, BL, BX] at hop
    omega
  have hne : ¬ (op = LDR ∨ op = STR ∨ op = MOV ∨ op = SET ∨ op = CBZ ∨ op = CBNZ) := by
    simp only [LDR, STR, MOV, SET, CBZ, CBNZ, B, BL, BX] at hop ⊢
    omega
  simp only [decodeInstruction]
  rw [toNat_decodeInstr hop256 hlt (by omega), decodeArgs, if_neg hne, if_pos hop,
    decodeAddrArg_pack hlt (show _ = x by omega)]

/-- The format without operands. -/
theorem decode_none (hop : op = NOP ∨ op = WFI) :
    decodeInstruction (.word (.ofNat 64 op)) = some (op, .none, .none, .none) := by
  have hop256 : op < 256 := by
    simp only [NOP, WFI] at hop
    omega
  have hfetch : (decodeInstr (.ofNat 64 op)).toNat = op :=
    toNat_decodeInstr hop256 (by omega) (by omega)
  rcases hop with rfl | rfl <;> simp only [decodeInstruction, hfetch, decodeArgs] <;> rfl

end

namespace Asm

/-- The number that an instruction is packed into. -/
def encode (address : L → ℕ) : Asm L → ℕ
  | alu op r3 r1 r2 => op.opcode + r3.val * 2 ^ 8 + r1.val * 2 ^ 16 + r2.val * 2 ^ 24
  | push r1 r2 r3 => PUSH + r1.val * 2 ^ 8 + r2.val * 2 ^ 16 + r3.val * 2 ^ 24
  | pop r1 r2 r3 => POP + r1.val * 2 ^ 8 + r2.val * 2 ^ 16 + r3.val * 2 ^ 24
  | ldr r1 addr => LDR + r1.val * 2 ^ 8 + addr.val * 2 ^ 16
  | str r1 r2 => STR + r1.val * 2 ^ 8 + r2.val * 2 ^ 16
  | mov r1 r2 => MOV + r1.val * 2 ^ 8 + r2.val * 2 ^ 16
  | set r1 v2 => SET + r1.val * 2 ^ 8 + v2.val * 2 ^ 16
  | cbz r1 l => CBZ + r1.val * 2 ^ 8 + address l * 2 ^ 16
  | cbnz r1 l => CBNZ + r1.val * 2 ^ 8 + address l * 2 ^ 16
  | b l => B + address l * 2 ^ 8
  | bl l => BL + address l * 2 ^ 8
  | nop => NOP
  | wfi => WFI
  | hli _ => HLI

/-- The label table gives the address of the label that an instruction refers to. -/
def Resolved (labels : L → Option ℕ) (address : L → ℕ) (a : Asm L) : Prop :=
  ∀ l ∈ a.target, ∃ d, labels l = some d ∧ address l = d + CODE ∧ address l < 2 ^ 48

/-- What the assembler returns for one instruction. -/
theorem encodeInstruction_toInstr {labels : L → Option ℕ} {address : L → ℕ} (a : Asm L)
    (h : Resolved labels address a) :
    encodeInstruction a.toInstr labels =
      some (if a.isWord then .word (a.encode address) else .hli a.toInstr) := by
  cases a with
  | alu op r3 r1 r2 =>
      have hthree : op.opcode ∉ [NOP, WFI, HLI, BL, B, BX, CBZ, ADR, CBNZ, MOV, SET, LDR, STR] := by
        cases op <;> decide
      refine (encodeInstruction_three hthree rfl rfl rfl labels).trans ?_
      simp only [isWord, encode, Nat.shiftLeft_eq, if_true]
  | push r1 r2 r3 | pop r1 r2 r3 =>
      refine (encodeInstruction_three (by decide) rfl rfl rfl labels).trans ?_
      simp only [isWord, encode, Nat.shiftLeft_eq, if_true]
  | ldr r1 x | str r1 x | mov r1 x | set r1 x =>
      refine (encodeInstruction_two (by decide) rfl rfl labels).trans ?_
      simp only [isWord, encode, Nat.shiftLeft_eq, if_true]
  | cbz r1 l | cbnz r1 l =>
      obtain ⟨d, hd, haddr, -⟩ := h l rfl
      refine (encodeInstruction_compare (by decide) rfl rfl ?_ labels).trans ?_
      · exact fun hADR => absurd hADR (by decide)
      simp only [isWord, encode, Nat.shiftLeft_eq, hd, haddr, Option.map_some, if_true]
  | b l | bl l =>
      obtain ⟨d, hd, haddr, -⟩ := h l rfl
      refine (encodeInstruction_branch (by decide) rfl labels).trans ?_
      simp only [isWord, encode, Nat.shiftLeft_eq, hd, haddr, Option.map_some, if_true]
  | nop | wfi => exact encodeInstruction_none (by decide) labels
  | hli f => simp [toInstr, encodeInstruction, readArg, isWord]

/-- Every packed instruction fits a word. -/
theorem encode_lt {labels : L → Option ℕ} {address : L → ℕ} (a : Asm L)
    (h : Resolved labels address a) : a.encode address < 2 ^ 64 := by
  cases a with
  | alu op r3 r1 r2 =>
      have := op.opcode_le
      simp only [encode]
      omega
  | cbz r1 l | cbnz r1 l | b l | bl l =>
      obtain ⟨d, -, -, hlt⟩ := h l rfl
      simp only [encode, CBZ, CBNZ, B, BL]
      omega
  | _ =>
      simp only [encode, PUSH, POP, LDR, STR, MOV, SET, NOP, WFI, HLI]
      omega

/-- No packed instruction is mistaken for a high-level one. -/
theorem encode_ne_HLI (address : L → ℕ) (a : Asm L) (hw : a.isWord) : a.encode address ≠ HLI := by
  cases a with
  | alu op r3 r1 r2 =>
      have := op.opcode_le
      simp only [encode, HLI]
      omega
  | hli f => cases hw
  | _ =>
      simp only [encode, PUSH, POP, LDR, STR, MOV, SET, CBZ, CBNZ, B, BL, NOP, WFI, HLI]
      omega

theorem toNat_encode_ne_HLI {labels : L → Option ℕ} {address : L → ℕ} (a : Asm L)
    (h : Resolved labels address a) (hw : a.isWord) :
    (BitVec.ofNat 64 (a.encode address)).toNat ≠ HLI := by
  rw [BitVec.toNat_ofNat, Nat.mod_eq_of_lt (a.encode_lt h)]
  exact a.encode_ne_HLI address hw

/-- **Decoding undoes assembling**, for one instruction. -/
theorem decodeInstruction_encode {labels : L → Option ℕ} {address : L → ℕ} (a : Asm L)
    (h : Resolved labels address a) (hw : a.isWord) :
    decodeInstruction (.word (.ofNat 64 (a.encode address))) =
      some (a.toInstr.opcode, a.args address) := by
  have hlt := encode_lt a h
  cases a with
  | alu op r3 r1 r2 =>
      have hop := op.opcode_le
      exact decode_three (Or.inl hop) r3 r1 r2 hlt
  | push r1 r2 r3 | pop r1 r2 r3 => exact decode_three (by simp) r1 r2 r3 hlt
  | ldr r1 x | set r1 x => exact decode_regAddr (by simp) r1 x.val hlt
  | str r1 r2 | mov r1 r2 => exact decode_regAddr (by simp) r1 r2.val hlt
  | cbz r1 l | cbnz r1 l => exact decode_regAddr (by simp) r1 (address l) hlt
  | b l | bl l => exact decode_addr (by simp) (address l) hlt
  | nop => exact decode_none (Or.inl rfl)
  | wfi => exact decode_none (Or.inr rfl)
  | hli f => cases hw

end Asm

/-! ## Whole programs -/

section
variable [DecidableEq L]

/-- The address that a label stands for in the operands of entry `i`. -/
def addressAt (prog : Program L) (i : ℕ) (l : L) : ℕ :=
  ((tableAt 0 (fun _ => none) prog i l).getD 0) + CODE

theorem addressAt_of_latestDef {prog : Program L} {i d : ℕ} {l : L} (h : LatestDef prog i l d) :
    addressAt prog i l = CODE + d := by
  rw [addressAt, tableAt_of_latestDef prog 0 i d _ h]
  simp only [Option.getD_some]
  omega

theorem tableAt_source (prog : Program L) :
    ∀ pc labels i, tableAt pc labels (Program.source prog) i = tableAt pc labels prog i := by
  induction prog with
  | nil => intros; simp [Program.source, tableAt]
  | cons e es ih =>
      intro pc labels i
      cases i with
      | zero => rfl
      | succ i => exact ih _ _ _

/-- In a program that fits the code region, labels defined before their use are resolved. -/
theorem resolved_of_labelsDefined {prog : Program L} (hlen : prog.length ≤ codeSz)
    (hlabels : LabelsDefined prog) {i : ℕ} {e : Option L × Asm L} (he : prog[i]? = some e) :
    e.2.Resolved (tableAt 0 (fun _ => none) prog i) (addressAt prog i) := by
  intro l hl
  have hi : i < prog.length := (List.getElem?_eq_some_iff.mp he).1
  obtain ⟨d, hd, hdl⟩ := hlabels i hi e he l hl
  obtain ⟨d', hlatest⟩ := exists_latestDef hd hdl
  refine ⟨d', ?_, ?_, ?_⟩
  · simpa using tableAt_of_latestDef prog 0 i d' _ hlatest
  · rw [addressAt_of_latestDef hlatest, Nat.add_comm]
  · have := hlatest.le
    rw [addressAt_of_latestDef hlatest]
    simp only [codeSz, CODE_eq] at hlen ⊢
    omega

/-- The assembler accepts every program whose labels are defined before their use. -/
theorem encodeProgram_spec {prog : Program L} (hlen : prog.length ≤ codeSz)
    (hlabels : LabelsDefined prog) :
    ∃ es, encodeProgram prog.source = some es ∧ es.length = prog.length ∧
      ∀ i : ℕ, ∀ e ∈ prog[i]?, es[i]? = some
        (if e.2.isWord then .word (e.2.encode (addressAt prog i)) else .hli e.2.toInstr) := by
  have hentry : ∀ i : ℕ, ∀ e ∈ prog[i]?,
      encodeInstruction e.2.toInstr (tableAt 0 (fun _ => none) prog.source i) = some
        (if e.2.isWord then .word (e.2.encode (addressAt prog i)) else .hli e.2.toInstr) := by
    intro i e he
    rw [tableAt_source]
    exact e.2.encodeInstruction_toInstr (resolved_of_labelsDefined hlen hlabels he)
  have hsource : ∀ i : ℕ, ∀ e ∈ prog.source[i]?, ∃ e' ∈ prog[i]?, e = (e'.1, e'.2.toInstr) := by
    intro i e he
    simp only [Program.source, List.getElem?_map, Option.mem_def, Option.map_eq_some_iff] at he
    obtain ⟨e', he', rfl⟩ := he
    exact ⟨e', he', rfl⟩
  obtain ⟨es, hes, hlength, hget⟩ := encodeFrom_spec prog.source 0 (fun _ => none) (by
    intro i e he
    obtain ⟨e', he', rfl⟩ := hsource i e he
    rw [hentry i e' he']
    rfl)
  refine ⟨es, hes, by simpa [Program.source] using hlength, ?_⟩
  intro i e he
  rw [← hget i (e.1, e.2.toInstr) (by simp [Program.source, Option.mem_def.mp he]),
    hentry i e he]

/-- **Decoding undoes assembling, for whole programs.** Each entry becomes one
word, which decodes to the entry's opcode and operands, a label standing for
`CODE` plus the position of its latest definition. -/
theorem decodeInstruction_encodeProgram {prog : Program L} (hlen : prog.length ≤ codeSz)
    (hlabels : LabelsDefined prog) (hword : ∀ e ∈ prog, e.2.isWord) :
    ∃ ws : List ℕ, encodeProgram prog.source = some (ws.map .word) ∧ ws.length = prog.length ∧
      ∀ i : ℕ, ∀ e ∈ prog[i]?, ∃ w ∈ ws[i]?, w < 2 ^ 64 ∧ ∃ address : L → ℕ,
        (∀ l ∈ e.2.target, ∃ d, LatestDef prog i l d ∧ address l = CODE + d) ∧
        decodeInstruction (.word (.ofNat 64 w)) = some (e.2.toInstr.opcode, e.2.args address) := by
  obtain ⟨es, hes, hlength, hget⟩ := encodeProgram_spec hlen hlabels
  let ws := List.ofFn fun i : Fin prog.length => prog[i].2.encode (addressAt prog i)
  have hws : ∀ i : ℕ, ∀ e ∈ prog[i]?, ws[i]? = some (e.2.encode (addressAt prog i)) := by
    intro i e he
    obtain ⟨hi, rfl⟩ := List.getElem?_eq_some_iff.mp he
    simp [ws, hi]
  refine ⟨ws, ?_, by simp [ws], ?_⟩
  · rw [hes]
    congr 1
    apply List.ext_getElem?
    intro i
    rw [List.getElem?_map]
    rcases Nat.lt_or_ge i prog.length with hi | hi
    · have he : prog[i]? = some prog[i] := List.getElem?_eq_getElem hi
      rw [hget i _ he, hws i _ he, hword _ (List.getElem_mem hi)]
      rfl
    · rw [List.getElem?_eq_none (by omega), List.getElem?_eq_none (by simpa [ws] using hi)]
      rfl
  · intro i e he
    have hres := resolved_of_labelsDefined hlen hlabels he
    refine ⟨_, hws i e he, e.2.encode_lt hres, addressAt prog i, ?_, ?_⟩
    · intro l hl
      obtain ⟨d, hd, hdl⟩ := hlabels i (List.getElem?_eq_some_iff.mp he).1 e he l hl
      obtain ⟨d', hlatest⟩ := exists_latestDef hd hdl
      exact ⟨d', hlatest, addressAt_of_latestDef hlatest⟩
    · exact e.2.decodeInstruction_encode hres (hword e (List.mem_of_getElem? he))

/-- A countdown loop behind an instruction whose label is redefined by the loop. -/
def countdown : Program ℕ :=
  [(some 1, .set 4 84), (none, .set 5 1), (some 1, .alu .sub 4 4 5), (none, .cbnz 4 1),
    (none, .b 1)]

theorem decodeInstruction_encodeProgram_countdown :
    ∃ ws : List ℕ, encodeProgram countdown.source = some (ws.map .word) ∧
      ws.length = countdown.length ∧
      ∀ i : ℕ, ∀ e ∈ countdown[i]?, ∃ w ∈ ws[i]?, w < 2 ^ 64 ∧ ∃ address : ℕ → ℕ,
        (∀ l ∈ e.2.target, ∃ d, LatestDef countdown i l d ∧ address l = CODE + d) ∧
        decodeInstruction (.word (.ofNat 64 w)) = some (e.2.toInstr.opcode, e.2.args address) :=
  decodeInstruction_encodeProgram (by decide) (by decide) (by decide)

end
end Osh.Advanced
