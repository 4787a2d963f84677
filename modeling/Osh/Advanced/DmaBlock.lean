import Mathlib.Data.Set.Insert
import Osh.Lib.PartialRun
import Osh.Advanced.Peripherals

/-!
# Block transfers of the DMA engine

The engine's registers describe a block: words `DSR + 1` to `DSR + DCO` go to `DDR + 1` to
`DDR + DCO`, last word first, one word in each action, until DCR is 0. The action means to
count DCO down but assigns `-1` to it, which a word array does not take. So the first action
of every transfer raises. An array that did take it would be left with one word copied, since
the action clears DCR as well.

## Main definitions

* `dmaSteps`: actions one after the other, with the requests that they return.
* `Transfer s d n`: the registers describe a block that lies in RAM.
* `CopiesBlock minusOne s d n`: actions until DCR is 0 copy the block, and nothing else.

## Main results

* `copiesBlock_iff`: which blocks are copied.
-/
namespace Osh.Advanced
open PartialRun

/-- One action, with its request put behind the requests so far. -/
def dmaStep (minusOne : Option Word) :
    NdArray Word × List Bool → Option (NdArray Word × List Bool)
  | (systemState, irqs) => do
      let (systemState, irq) ← dmaActionWith minusOne systemState
      return (systemState, irqs ++ [irq])

/-- `k` actions, and the request of each. -/
def dmaSteps (minusOne : Option Word) (k : ℕ) (systemState : NdArray Word) :
    Option (NdArray Word × List Bool) :=
  iter (dmaStep minusOne) k (systemState, [])

/-- DCR is set, and the other registers describe `n` words in RAM, from `s + 1` and from
`d + 1` on, that do not overlap. -/
structure Transfer (s d n : Word) (systemState : NdArray Word) : Prop where
  DCR : ∃ v, systemState.get? (DMA + DCR) = some v ∧ v ≠ 0
  DCO : systemState.get? (DMA + DCO) = some n
  DSR : systemState.get? (DMA + DSR) = some s
  DDR : systemState.get? (DMA + DDR) = some d
  pos : n ≠ 0
  source : s.toNat + n.toNat < MEMTOP
  target : d.toNat + n.toNat < MEMTOP
  disjoint : s.toNat + n.toNat < d.toNat + 1 ∨ d.toNat + n.toNat < s.toNat + 1

/-- Actions are repeated until DCR is 0. Then the block has been copied, nothing else
outside the DMA registers has changed, and the last action alone has raised its request. -/
def CopiesBlock (minusOne : Option Word) (s d n : Word) (systemState : NdArray Word) : Prop :=
  ∃ k after irqs, dmaSteps minusOne k systemState = some (after, irqs) ∧
    after.get? (DMA + DCR) = some 0 ∧
    (∀ j < k, ∀ before ∈ dmaSteps minusOne j systemState,
      before.1.get? (DMA + DCR) ≠ some 0) ∧
    (∀ i, 1 ≤ i → i ≤ n.toNat →
      after.get? (d.toNat + i) = systemState.get? (s.toNat + i)) ∧
    (∀ a, ¬ (d.toNat < a ∧ a ≤ d.toNat + n.toNat) → ¬ (DMA ≤ a ∧ a < DMA + dmaStateSz) →
      after.get? a = systemState.get? a) ∧
    irqs = List.replicate (k - 1) false ++ [true]

variable {s d n : Word} {systemState : NdArray Word}

/-- The array after an action that has copied the last word `w` of a block. -/
def lastCopied (d n w m : Word) (systemState : NdArray Word) : NdArray Word :=
  ((systemState.update (d.toNat + n.toNat) w).update (DMA + DCO) m).update (DMA + DCR) 0

/-- The transfer of one word ends with the assignment of `-1`. -/
theorem dmaTransfer_none (hDCO : systemState.get? (DMA + DCO) = some n) (hn : n ≠ 0) :
    dmaTransfer none systemState = none := by
  rw [Option.eq_none_iff_forall_ne_some]
  intro after h
  obtain ⟨ctr, hctr, h⟩ := Option.bind_eq_some_iff.mp h
  obtain rfl : n = ctr := Option.some.inj (hDCO.symm.trans hctr)
  rw [if_pos hn] at h
  obtain ⟨target, -, h⟩ := Option.bind_eq_some_iff.mp h
  obtain ⟨source, -, h⟩ := Option.bind_eq_some_iff.mp h
  obtain ⟨w, -, h⟩ := Option.bind_eq_some_iff.mp h
  obtain ⟨copied, -, h⟩ := Option.bind_eq_some_iff.mp h
  obtain ⟨m, hm, -⟩ := Option.bind_eq_some_iff.mp h
  cases hm

/-- Where the assignment raises, so does the first action of a transfer. -/
theorem dmaActionWith_none (h : Transfer s d n systemState) :
    dmaActionWith none systemState = none := by
  obtain ⟨v, hv, hne⟩ := h.DCR
  simp only [dmaActionWith, hv, if_pos hne, dmaTransfer_none h.DCO h.pos, Option.bind_eq_bind,
    Option.bind_some, Option.bind_none]

theorem size_of_transfer (h : Transfer s d n systemState) : DMA + DCR < systemState.size := by
  obtain ⟨v, hv, -⟩ := h.DCR
  exact NdArray.lt_size_of_get? hv

/-- Otherwise it copies the last word and clears DCR. -/
theorem dmaActionWith_some (h : Transfer s d n systemState) (m : Word) :
    ∃ w, systemState.get? (s.toNat + n.toNat) = some w ∧
      dmaActionWith (some m) systemState = some (lastCopied d n w m systemState, true) := by
  have hsize := size_of_transfer h
  have hMEMTOP : MEMTOP < DMA := by decide
  have hsource := h.source
  have htarget := h.target
  simp only [DCR] at hsize
  obtain ⟨w, hw⟩ := NdArray.exists_get? (a := systemState) (i := s.toNat + n.toNat) (by omega)
  obtain ⟨v, hv, hne⟩ := h.DCR
  refine ⟨w, hw, ?_⟩
  have hword : MEMTOP < 2 ^ 64 := by decide
  have hto : (d + n).toNat = d.toNat + n.toNat := by
    rw [BitVec.toNat_add]
    omega
  have hfrom : (s + n).toNat = s.toNat + n.toNat := by
    rw [BitVec.toNat_add]
    omega
  have htransfer : dmaTransfer (some m) systemState =
      some ((systemState.update (d.toNat + n.toNat) w).update (DMA + DCO) m) := by
    simp only [dmaTransfer, h.DCO, h.DDR, h.DSR, if_pos h.pos, hto, hfrom, hw,
      Option.bind_eq_bind, Option.bind_some]
    rw [NdArray.set?_of_lt (by omega), Option.bind_some]
    exact NdArray.set?_of_lt (by simp only [NdArray.size_update, DCO]; omega) m
  simp only [dmaActionWith, hv, if_pos hne, htransfer, Option.bind_eq_bind, Option.bind_some]
  rw [NdArray.set?_of_lt (by simp only [NdArray.size_update, DCR]; omega), Option.bind_some]
  rfl

theorem get?_lastCopied (d n w m : Word) {a : ℕ} (ha : a < MEMTOP) :
    (lastCopied d n w m systemState).get? a =
      (systemState.update (d.toNat + n.toNat) w).get? a := by
  have hMEMTOP : MEMTOP < DMA := by decide
  rw [lastCopied, NdArray.get?_update_ne _ (by omega), NdArray.get?_update_ne _ (by omega)]

/-- Where the assignment raises, no block is copied. -/
theorem not_copiesBlock_none (h : Transfer s d n systemState) :
    ¬ CopiesBlock none s d n systemState := by
  obtain ⟨v, hv, hne⟩ := h.DCR
  rintro ⟨k, after, irqs, hk, hidle, -, -, -, -⟩
  cases k with
  | zero =>
      cases hk
      exact hne (Option.some.inj (hv.symm.trans hidle))
  | succ k =>
      obtain ⟨first, hfirst⟩ := iter_prefix hk 1 (by omega)
      rw [iter_succ, iter_zero, Option.bind_some, dmaStep, dmaActionWith_none h] at hfirst
      cases hfirst

/-- Where it does not, the transfer is over when one word has been copied. -/
theorem copiesBlock_some_iff (h : Transfer s d n systemState) (m : Word) :
    CopiesBlock (some m) s d n systemState ↔ ∀ i, 1 ≤ i → i < n.toNat →
      systemState.get? (d.toNat + i) = systemState.get? (s.toNat + i) := by
  obtain ⟨v, hv, hne⟩ := h.DCR
  obtain ⟨w, hw, haction⟩ := dmaActionWith_some h m
  have hsize := size_of_transfer h
  have hMEMTOP : MEMTOP < DMA := by decide
  have htarget := h.target
  have hpos : 1 ≤ n.toNat := by
    have hne : n.toNat ≠ 0 := fun hzero => h.pos (BitVec.eq_of_toNat_eq hzero)
    omega
  have hfirst : dmaSteps (some m) 1 systemState =
      some (lastCopied d n w m systemState, [true]) := by
    rw [dmaSteps, iter_succ, iter_zero, Option.bind_some, dmaStep, haction]
    rfl
  have hcleared : (lastCopied d n w m systemState).get? (DMA + DCR) = some 0 :=
    NdArray.get?_update_self (by simpa only [NdArray.size_update] using hsize) 0
  have hother : ∀ a < MEMTOP, a ≠ d.toNat + n.toNat →
      (lastCopied d n w m systemState).get? a = systemState.get? a := fun a ha hne =>
    (get?_lastCopied d n w m ha).trans (NdArray.get?_update_ne _ hne _)
  constructor
  · rintro ⟨k, after, irqs, hk, hidle, hbusy, hblock, -, -⟩ i hi hlt
    obtain rfl : k = 1 := by
      rcases Nat.lt_trichotomy k 1 with hzero | hone | hmore
      · obtain rfl : k = 0 := by omega
        cases hk
        exact absurd (Option.some.inj (hv.symm.trans hidle)) hne
      · exact hone
      · exact absurd hcleared (hbusy 1 hmore _ hfirst)
    cases hfirst.symm.trans hk
    rw [← hblock i hi (Nat.le_of_lt hlt), hother _ (by omega) (by omega)]
  · intro hequal
    refine ⟨1, _, _, hfirst, hcleared, ?_, ?_, ?_, rfl⟩
    · intro j hj before hbefore
      obtain rfl : j = 0 := by omega
      cases hbefore
      exact fun hidle => hne (Option.some.inj (hv.symm.trans hidle))
    · intro i hi hle
      rcases Nat.lt_or_ge i n.toNat with hlt | hge
      · rw [hother _ (by omega) (by omega), hequal i hi hlt]
      · obtain rfl : i = n.toNat := by omega
        rw [get?_lastCopied d n w m htarget, NdArray.get?_update_self (by omega), hw]
    · intro a ha hregister
      have hdma : DMA + dmaStateSz > DMA + DCO ∧ DMA + dmaStateSz > DMA + DCR := by decide
      simp only [DCO, DCR] at hdma
      rw [lastCopied, NdArray.get?_update_ne _ (by simp only [DCR]; omega),
        NdArray.get?_update_ne _ (by simp only [DCO]; omega), NdArray.get?_update_ne _ (by omega)]

/-- **Which blocks are copied.** None, where the assignment of `-1` raises, as it does in the
model; and where it does not, those of which every word but the last is the same at its target
before the transfer. -/
theorem copiesBlock_iff (h : Transfer s d n systemState) (minusOne : Option Word) :
    (CopiesBlock minusOne s d n systemState ↔ minusOne.isSome = true ∧
      ∀ i, 1 ≤ i → i < n.toNat →
        systemState.get? (d.toNat + i) = systemState.get? (s.toNat + i)) ∧
    ¬ CopiesBlock (pyInt (-1)) s d n systemState := by
  refine ⟨?_, not_copiesBlock_none h⟩
  cases minusOne with
  | none => exact iff_of_false (not_copiesBlock_none h) nofun
  | some m => exact (copiesBlock_some_iff h m).trans (and_iff_right rfl).symm

/-! A block of two words, from 1 and 2 to 9 and 10. -/

/-- Zeros, but for the first word of the block and the DMA registers. -/
def transferOfTwo : NdArray Word :=
  ((((NdArray.fill STATETOP 0).update 1 7).update (DMA + DCR) 1).update (DMA + DCO) 2).update
    (DMA + DDR) 8

theorem transfer_transferOfTwo : Transfer 0 8 2 transferOfTwo := by
  refine ⟨⟨1, ?_, ?_⟩, ?_, ?_, ?_, ?_, ?_, ?_, ?_⟩
  all_goals decide +kernel

theorem copiesBlock_iff_two : ¬ CopiesBlock (some (-1)) 0 8 2 transferOfTwo := by
  rw [(copiesBlock_iff transfer_transferOfTwo _).1]
  rintro ⟨-, hequal⟩
  exact absurd (hequal 1 le_rfl (by decide)) (by decide +kernel)

/-- The first word is not copied, whatever the assignment of `-1` does. -/
theorem transfer_two_not_copied : Transfer 0 8 2 transferOfTwo ∧
    ¬ CopiesBlock none 0 8 2 transferOfTwo ∧ ¬ CopiesBlock (some (-1)) 0 8 2 transferOfTwo := by
  refine ⟨transfer_transferOfTwo, not_copiesBlock_none transfer_transferOfTwo, ?_⟩
  rw [copiesBlock_some_iff transfer_transferOfTwo]
  intro hequal
  exact absurd (hequal 1 le_rfl (by decide)) (by decide +kernel)

end Osh.Advanced
