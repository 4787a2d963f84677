import Osh.Py2Cpp.Source

/-!
# Scope tracking

Is `$current_func` the innermost function around the line that is analysed? The table of
indentations at which functions were defined is never cleared, so the end of any other block
whose head is indented like a function before it pops a function too many.

## Main definitions

* `Tracks`: on each line that begins no function, the loop knows the innermost function.
* `Miscloses`, `Undisturbed`: a line on which too much is popped, and sources in which the
  functions that are entered later make up for it.

## Main results

* `scope_tracked`: when the loop knows the function around each line.
-/
namespace Osh.Py2Cpp
open Regex

namespace Source
variable {src : Source} {i j n L : ℕ} {l : SourceLine} {s : Scope}

/-! ## One line -/

/-- A line and the lines that enclose it, the innermost first. -/
def chain (src : Source) (i : ℕ) : List ℕ := i :: enclosers (width src.lines) i

/-- The indentations of a line and of the lines that enclose it. -/
def indents (src : Source) (i : ℕ) : List Text := (src.chain i).map (indentation src.lines)

theorem ended_append (src : Source) (i : ℕ) :
    ended (width src.lines) i ++ enclosers (width src.lines) (i + 1) = src.chain i :=
  ended_append_enclosers _ i

theorem pairwise_chain_lt (src : Source) (i : ℕ) :
    (src.chain i).Pairwise fun a b => b < a :=
  (pairwise_chain _ i).imp And.left

/-- What the variables of the loop have to do with the line just analysed. -/
structure Reads (src : Source) (i : ℕ) (s : Scope) : Prop where
  prevIndent : s.prevIndent = indentation src.lines i
  prevLine : (search blockPattern s.prevLine).isSome = true ↔ Opens src.lines i
  indentStack : s.indentStack = src.indents i
  currentFunc : s.currentFunc = s.funcsStack.head?
  defIndents : ∀ t, (s.defIndents t).isSome = true ↔
    ∃ d ≤ i, (defName src.lines d).isSome = true ∧ indentation src.lines d = t

theorem indentation_of_getElem? (h : src.lines[i]? = some l) :
    indentation src.lines i = l.indentation := by
  rw [indentation, h]
  rfl

theorem defName_of_getElem? (h : src.lines[i]? = some l) :
    defName src.lines i = l.statement.defName := by
  rw [defName, h]
  rfl

theorem opens_of_getElem? (h : src.lines[i]? = some l) :
    Opens src.lines i ↔ TrailingColon l.line := by
  simp [Opens, h]

/-- A line is read: if its indentation is on top and `n` functions have been popped, the
function that it begins is pushed. -/
theorem reads_of_popped (hl : src.lines[i]? = some l)
    (hpopped : openBlock (closeBlocks { s with indent := l.indentation }) =
      { s with indent := l.indentation }.popped (src.indents i) n)
    (hdefs : ∀ t, (s.defIndents t).isSome = true ↔
      ∃ d < i, (defName src.lines d).isSome = true ∧ indentation src.lines d = t) :
    Reads src i (analyseLine s l.line) ∧ (analyseLine s l.line).funcsStack =
      (defName src.lines i).toList ++ s.funcsStack.drop n := by
  have hindent := indentation_of_getElem? hl
  rw [analyseLine, if_neg l.isCode, l.indentOf_line, hpopped, enterFunc, l.funcName_line,
    ← defName_of_getElem? hl]
  have hopens := l.search_blockPattern_line.trans (opens_of_getElem? hl).symm
  cases hname : defName src.lines i with
  | none =>
      refine ⟨⟨hindent.symm, hopens, rfl, rfl, fun t => (hdefs t).trans ?_⟩, rfl⟩
      constructor
      · rintro ⟨d, hd, hdef⟩
        exact ⟨d, hd.le, hdef⟩
      · rintro ⟨d, hd, hdef⟩
        refine ⟨d, lt_of_le_of_ne hd fun heq => ?_, hdef⟩
        simp [heq, hname] at hdef
  | some name =>
      refine ⟨⟨hindent.symm, hopens, rfl, rfl, fun t => ?_⟩, rfl⟩
      simp only [Scope.popped, Function.update_apply]
      split
      next ht =>
        simp only [Option.isSome_some, true_iff]
        exact ⟨i, le_rfl, by rw [hname]; rfl, hindent.trans ht.symm⟩
      next ht =>
        refine (hdefs t).trans ?_
        constructor
        · rintro ⟨d, hd, hdef⟩
          exact ⟨d, hd.le, hdef⟩
        · rintro ⟨d, hd, hdef, heq⟩
          refine ⟨d, lt_of_le_of_ne hd fun hdi => ht ?_, hdef, heq⟩
          rw [← heq, hdi, hindent]

/-- How many functions the loop pops on the next line. -/
def popCount (src : Source) (i : ℕ) (s : Scope) : ℕ :=
  recorded s.defIndents ((ended (width src.lines) i).tail.map (indentation src.lines))

/-- Behind the head of a block nothing is popped and the indentation is pushed. -/
theorem popped_of_opens (h : Reads src i s) (hl : src.lines[i + 1]? = some l)
    (hi : i < src.lines.length - 1) (hopens : Opens src.lines i) :
    openBlock (closeBlocks { s with indent := l.indentation }) =
      { s with indent := l.indentation }.popped (src.indents (i + 1)) (src.popCount i s) := by
  have hfits := src.fits i hi
  rw [Fits, if_pos hopens, width, width, ← h.prevIndent, indentation_of_getElem? hl] at hfits
  have hended : ended (width src.lines) i = [] := by
    apply ended_of_lt
    rwa [width, width, ← h.prevIndent, indentation_of_getElem? hl]
  have hchain := src.ended_append i
  rw [hended, List.nil_append] at hchain
  have hindents : src.indents (i + 1) = l.indentation :: s.indentStack := by
    rw [indents, chain, hchain, List.map_cons, indentation_of_getElem? hl, h.indentStack,
      indents]
  have hcount : src.popCount i s = 0 := by
    rw [popCount, hended]
    rfl
  rw [closeBlocks, if_neg (Nat.lt_asymm hfits), openBlock,
    if_pos ⟨hfits, h.prevLine.mpr hopens⟩, hcount,
    popped_zero (s := { s with indent := l.indentation }) h.currentFunc, hindents]

/-- Any other line, or the head of a block around it, is indented like the next line. -/
theorem exists_ended_of_not_opens (hi : i < src.lines.length - 1)
    (hopens : ¬ Opens src.lines i) : ∃ o ∈ ended (width src.lines) i,
      indentation src.lines o = indentation src.lines (i + 1) := by
  have hfits := src.fits i hi
  rw [Fits, if_neg hopens] at hfits
  obtain ⟨o, ho, heq⟩ := hfits
  have hw : width src.lines (i + 1) = width src.lines o := congrArg List.length heq
  exact ⟨o, List.mem_filter.mpr ⟨ho, by simp [hw]⟩, heq.symm⟩

/-- The indentations that the next line takes off the stack: that of line `i` and then shorter
ones, down to its own. -/
structure Ends (src : Source) (i : ℕ) (l : SourceLine) : Prop where
  le : width src.lines (i + 1) ≤ width src.lines i
  map_ended : (ended (width src.lines) i).map (indentation src.lines) =
    indentation src.lines i :: (ended (width src.lines) i).tail.map (indentation src.lines)
  widths : (indentation src.lines i ::
    (ended (width src.lines) i).tail.map (indentation src.lines)).Pairwise
      fun a b => b.length < a.length
  last : (indentation src.lines i ::
    (ended (width src.lines) i).tail.map (indentation src.lines)).getLast? = some l.indentation

theorem ends_of_not_opens (hl : src.lines[i + 1]? = some l) (hi : i < src.lines.length - 1)
    (hopens : ¬ Opens src.lines i) : src.Ends i l := by
  obtain ⟨o, hmem, heq⟩ := exists_ended_of_not_opens hi hopens
  have hle := le_of_mem_ended hmem
  have hmap : (ended (width src.lines) i).map (indentation src.lines) =
      indentation src.lines i :: (ended (width src.lines) i).tail.map (indentation src.lines) := by
    rw [ended_of_le hle, List.tail_cons, List.map_cons]
  refine ⟨hle, hmap, ?_, ?_⟩
  · rw [← hmap, List.pairwise_map]
    exact ((pairwise_chain _ i).filter _).imp And.right
  · rw [← hmap, List.getLast?_map, getLast?_ended hmem (congrArg List.length heq),
      Option.map_some, heq, indentation_of_getElem? hl]

/-- Then the indentations are popped down to that of the next line. -/
theorem popped_of_not_opens (h : Reads src i s) (hl : src.lines[i + 1]? = some l)
    (hi : i < src.lines.length - 1) (hopens : ¬ Opens src.lines i) :
    openBlock (closeBlocks { s with indent := l.indentation }) =
      { s with indent := l.indentation }.popped (src.indents (i + 1)) (src.popCount i s) := by
  have hends := ends_of_not_opens hl hi hopens
  have hindent := indentation_of_getElem? hl
  have hstack : s.indentStack = indentation src.lines i ::
      ((ended (width src.lines) i).tail.map (indentation src.lines) ++
        (enclosers (width src.lines) (i + 1)).map (indentation src.lines)) := by
    rw [h.indentStack, indents, ← ended_append, List.map_append, hends.map_ended, List.cons_append]
  have hpop := popIndents_eq (s := { s with indent := l.indentation }) hstack h.currentFunc
    hends.widths hends.last
  have hclose : closeBlocks { s with indent := l.indentation } =
      { s with indent := l.indentation }.popped (src.indents (i + 1)) (src.popCount i s) := by
    rw [indents, chain, List.map_cons, hindent, popCount, ← hpop, closeBlocks]
    split
    · rfl
    next hlonger =>
      have hprev : s.prevIndent.length ≤ l.indentation.length := Nat.not_lt.mp hlonger
      rw [h.prevIndent] at hprev
      exact (congrArg (popIndents · _) hstack ▸ popIndents_of_le hprev).symm
  have hnot : ¬ s.prevIndent.length < l.indentation.length := by
    rw [h.prevIndent, ← hindent]
    exact Nat.not_lt.mpr hends.le
  rw [hclose, openBlock, if_neg fun hboth => hnot hboth.1]

theorem reads_zero (hl : src.lines[0]? = some l) :
    Reads src 0 (analyseLine .start l.line) ∧
      (analyseLine .start l.line).funcsStack = (defName src.lines 0).toList ++ [GLOBAL] := by
  have hindent : l.indentation = [] := (indentation_of_getElem? hl).symm.trans src.first
  have hindents : src.indents 0 = [[]] := congrArg (fun t => [t]) src.first
  refine reads_of_popped (n := 0) hl ?_ fun t => ?_
  · rw [hindent, hindents]
    rfl
  · simp [Scope.start]

/-- **One more line.** -/
theorem reads_succ (h : Reads src i s) (hl : src.lines[i + 1]? = some l) :
    Reads src (i + 1) (analyseLine s l.line) ∧ (analyseLine s l.line).funcsStack =
      (defName src.lines (i + 1)).toList ++ s.funcsStack.drop (src.popCount i s) := by
  have hi : i < src.lines.length - 1 := by
    have := (List.getElem?_eq_some_iff.mp hl).1
    omega
  refine reads_of_popped hl ?_ fun t => (h.defIndents t).trans ?_
  · by_cases hopens : Opens src.lines i
    · exact popped_of_opens h hl hi hopens
    · exact popped_of_not_opens h hl hi hopens
  · simp only [Nat.lt_succ_iff]

theorem after_zero (hl : src.lines[0]? = some l) : src.after 0 = analyseLine .start l.line := by
  rw [after, analyse, List.take_add_one, hl]
  rfl

theorem after_succ (hl : src.lines[i + 1]? = some l) :
    src.after (i + 1) = analyseLine (src.after i) l.line := by
  rw [after, analyse, List.take_add_one, hl, List.map_append, List.foldl_append]
  rfl

/-- The variables are as they should be, after every line, `@funcs_stack` apart. -/
theorem reads_after (hi : i < src.lines.length) : Reads src i (src.after i) := by
  induction i with
  | zero =>
      have hl := List.getElem?_eq_getElem hi
      rw [after_zero hl]
      exact (reads_zero hl).1
  | succ i ih =>
      have hl := List.getElem?_eq_getElem hi
      rw [after_succ hl]
      exact (reads_succ (ih (by omega)) hl).1

theorem funcsStack_zero (hi : 0 < src.lines.length) :
    (src.after 0).funcsStack = (defName src.lines 0).toList ++ [GLOBAL] := by
  have hl := List.getElem?_eq_getElem hi
  rw [after_zero hl]
  exact (reads_zero hl).2

theorem funcsStack_succ (hi : i + 1 < src.lines.length) : (src.after (i + 1)).funcsStack =
    (defName src.lines (i + 1)).toList ++
      (src.after i).funcsStack.drop (src.popCount i (src.after i)) := by
  have hl := List.getElem?_eq_getElem hi
  rw [after_succ hl]
  exact (reads_succ (reads_after (by omega)) hl).2

/-! ## How much is popped -/

/-- The line ends a block that is not a function, but has a head that is indented like a
function before. -/
def Miscloses (src : Source) (L : ℕ) : Prop :=
  ∃ o < L, (Encloses (width src.lines) o (L - 1) ∧ ¬ Encloses (width src.lines) o L) ∧
    defName src.lines o = none ∧
      ∃ d < L, (defName src.lines d).isSome = true ∧
        indentation src.lines d = indentation src.lines o

instance (src : Source) : DecidablePred src.Miscloses := fun L =>
  inferInstanceAs (Decidable (∃ o < L,
    (Encloses (width src.lines) o (L - 1) ∧ ¬ Encloses (width src.lines) o L) ∧
      defName src.lines o = none ∧
        ∃ d < L, (defName src.lines d).isSome = true ∧
          indentation src.lines d = indentation src.lines o))

/-- The functions that the next line ends. -/
theorem names_ended (hi : i + 1 < src.lines.length) :
    (names src.lines (ended (width src.lines) i)).length =
      (ended (width src.lines) i).tail.countP fun o => (defName src.lines o).isSome := by
  rw [names, List.length_filterMap_eq_countP]
  rcases Nat.lt_or_ge (width src.lines i) (width src.lines (i + 1)) with hlt | hle
  · rw [ended_of_lt hlt]
    rfl
  · have hnone : ¬ (defName src.lines i).isSome = true := by
      intro hsome
      obtain ⟨name, hname⟩ := Option.isSome_iff_exists.mp hsome
      have hl := List.getElem?_eq_getElem (show i < src.lines.length by omega)
      have hopens : Opens src.lines i := by
        rw [defName_of_getElem? hl] at hname
        exact (opens_of_getElem? hl).mpr (SourceLine.trailingColon_of_defName _ hname)
      have hfits := src.fits i (by omega)
      rw [Fits, if_pos hopens] at hfits
      omega
    rw [ended_of_le hle, List.tail_cons]
    exact List.countP_cons_of_neg hnone

theorem popCount_eq_countP (src : Source) (i : ℕ) (s : Scope) : src.popCount i s =
    (ended (width src.lines) i).tail.countP fun o =>
      (s.defIndents (indentation src.lines o)).isSome := by
  rw [popCount, recorded, List.countP_map]
  rfl

/-- A block that is ended and is a function is in the table. -/
theorem isSome_defIndents (h : Reads src i s) {o : ℕ}
    (ho : o ∈ (ended (width src.lines) i).tail) (hdef : (defName src.lines o).isSome = true) :
    (s.defIndents (indentation src.lines o)).isSome = true :=
  (h.defIndents _).mpr ⟨o, (mem_tail_ended_iff.mp ho).1.1.le, hdef, rfl⟩

theorem popCount_of_not_miscloses (h : Reads src i s) (hi : i + 1 < src.lines.length)
    (hmis : ¬ src.Miscloses (i + 1)) :
    src.popCount i s = (names src.lines (ended (width src.lines) i)).length := by
  rw [popCount_eq_countP, names_ended hi]
  refine List.countP_congr fun o ho => ⟨fun hrecorded => ?_, isSome_defIndents h ho⟩
  obtain ⟨d, hd, hdef, heq⟩ := (h.defIndents _).mp hrecorded
  by_contra hnone
  obtain ⟨hencloses, hle⟩ := mem_tail_ended_iff.mp ho
  refine hmis ⟨o, Nat.lt_succ_of_lt hencloses.1, ⟨hencloses, fun hsucc => ?_⟩,
    Option.not_isSome_iff_eq_none.mp hnone, d, Nat.lt_succ_of_le hd, hdef, heq⟩
  exact absurd (encloses_succ_iff.mp hsucc).2 (Nat.not_lt.mpr hle)

theorem lt_popCount_of_miscloses (h : Reads src i s) (hi : i + 1 < src.lines.length)
    (hmis : src.Miscloses (i + 1)) :
    (names src.lines (ended (width src.lines) i)).length < src.popCount i s := by
  obtain ⟨o, -, ⟨hencloses, hnot⟩, hnone, d, hd, hdef, heq⟩ := hmis
  rw [Nat.add_sub_cancel] at hencloses
  have ho : o ∈ (ended (width src.lines) i).tail := by
    refine mem_tail_ended_iff.mpr ⟨hencloses, Nat.not_lt.mp fun hlt => hnot ?_⟩
    exact encloses_succ_iff.mpr ⟨.inr hencloses, hlt⟩
  rw [popCount_eq_countP, names_ended hi]
  refine countP_lt_countP (fun b hb => isSome_defIndents h hb) ho ?_ ?_
  · simp [hnone]
  · exact (h.defIndents _).mpr ⟨d, Nat.le_of_lt_succ hd, hdef, heq⟩

/-! ## The stack of functions -/

/-- The lines from `L` on. -/
def since (L : ℕ) (is : List ℕ) : List ℕ := is.filter (L ≤ ·)

/-- The lines before `L`. -/
def before (L : ℕ) (is : List ℕ) : List ℕ := is.filter (!L ≤ ·)

/-- The functions around a line that begin on line `L` or later are on top of the stack. How
the rest compares with the other functions is left open. -/
def Aligned (src : Source) (R : List Text → List Text → Prop) (L i : ℕ)
    (funcs : List Text) : Prop :=
  ∃ rest, funcs = names src.lines (since L (src.chain i)) ++ rest ∧
    R rest (names src.lines (before L (src.chain i)) ++ [GLOBAL])

/-- At least the first of the functions is missing. -/
def Missing (rest funcs : List Text) : Prop := List.Sublist rest funcs.tail

variable {R : List Text → List Text → Prop} {funcs : List Text}

theorem names_append (lines : List SourceLine) (is js : List ℕ) :
    names lines (is ++ js) = names lines is ++ names lines js :=
  List.filterMap_append

theorem names_cons (lines : List SourceLine) (i : ℕ) (is : List ℕ) :
    names lines (i :: is) = (defName lines i).toList ++ names lines is := by
  rw [names, List.filterMap_cons]
  cases defName lines i <;> rfl

theorem since_append_before {is : List ℕ} (L : ℕ) (h : is.Pairwise fun a b => b < a) :
    since L is ++ before L is = is := by
  refine filter_append_filter_not (h.imp fun hab hb => ?_)
  simp only [decide_eq_true_eq] at hb ⊢
  exact hb.trans hab.le

theorem since_chain_succ (src : Source) (hL : L ≤ i + 1) : since L (src.chain (i + 1)) =
    (i + 1) :: since L (enclosers (width src.lines) (i + 1)) :=
  List.filter_cons_of_pos (by simpa using hL)

theorem before_chain_succ (src : Source) (hL : L ≤ i + 1) : before L (src.chain (i + 1)) =
    before L (enclosers (width src.lines) (i + 1)) :=
  List.filter_cons_of_neg (by simpa using hL)

/-- The next line ends no line before `L`, unless it ends all those from `L` on. -/
theorem before_ended (src : Source) (L i : ℕ) : before L (ended (width src.lines) i) = [] ∨
    since L (enclosers (width src.lines) (i + 1)) = [] := by
  refine or_iff_not_imp_left.mpr fun hne => ?_
  obtain ⟨e, he⟩ := List.exists_mem_of_ne_nil _ hne
  obtain ⟨he, heL⟩ := List.mem_filter.mp he
  have hchain := src.pairwise_chain_lt i
  rw [← ended_append] at hchain
  refine List.filter_eq_nil_iff.mpr fun k hk => ?_
  have hlt := (List.pairwise_append.mp hchain).2.2 e he k hk
  simp only [Bool.not_eq_true', decide_eq_false_iff_not, decide_eq_true_eq] at heL ⊢
  omega

/-- A line on which as many functions are popped as end. -/
theorem Aligned.succ (hR : ∀ n xs ys, R xs ys → R (xs.drop n) (ys.drop n)) (hL : L ≤ i + 1)
    (h : src.Aligned R L i funcs) :
    src.Aligned R L (i + 1) ((defName src.lines (i + 1)).toList ++
      funcs.drop (names src.lines (ended (width src.lines) i)).length) := by
  obtain ⟨rest, rfl, hrest⟩ := h
  have hchain := ended_append src i
  have hpairwise := src.pairwise_chain_lt i
  rw [← hchain] at hpairwise
  have hsplit := since_append_before L (List.pairwise_append.mp hpairwise).1
  have hsince : since L (src.chain i) = since L (ended (width src.lines) i) ++
      since L (enclosers (width src.lines) (i + 1)) := by
    rw [← hchain, since, List.filter_append]
    rfl
  have hbefore : before L (src.chain i) = before L (ended (width src.lines) i) ++
      before L (enclosers (width src.lines) (i + 1)) := by
    rw [← hchain, before, List.filter_append]
    rfl
  rw [hbefore, names_append, List.append_assoc] at hrest
  rw [Aligned, hsince, since_chain_succ src hL, before_chain_succ src hL, names_cons,
    names_append]
  rcases before_ended src L i with hnone | hnone
  · -- only functions on top of the stack end
    rw [hnone, List.append_nil] at hsplit
    rw [hnone] at hrest
    refine ⟨rest, ?_, hrest⟩
    rw [hsplit, List.append_assoc, List.drop_left, List.append_assoc]
  · -- all the functions on top end, and perhaps some of the others
    refine ⟨rest.drop (names src.lines (before L (ended (width src.lines) i))).length, ?_, ?_⟩
    · have hlength : (names src.lines (ended (width src.lines) i)).length =
          (names src.lines (since L (ended (width src.lines) i))).length +
            (names src.lines (before L (ended (width src.lines) i))).length := by
        rw [← List.length_append, ← names_append, hsplit]
      have hnames : names src.lines [] = [] := rfl
      rw [hnone, hnames, List.append_nil, List.append_nil, hlength, ← List.drop_drop,
        List.drop_left]
    · have hdrop := hR (names src.lines (before L (ended (width src.lines) i))).length _ _ hrest
      rwa [List.drop_left] at hdrop

/-- A line on which more functions are popped than end. -/
theorem aligned_of_lt {n : ℕ}
    (h : List.Sublist funcs (names src.lines (src.chain i) ++ [GLOBAL]))
    (hlt : (names src.lines (ended (width src.lines) i)).length < n) :
    src.Aligned Missing (i + 1) (i + 1)
      ((defName src.lines (i + 1)).toList ++ funcs.drop n) := by
  have hlater : ∀ k ∈ enclosers (width src.lines) (i + 1), k < i + 1 :=
    fun k hk => (mem_enclosers_iff.mp hk).1
  have hsince : since (i + 1) (enclosers (width src.lines) (i + 1)) = [] := by
    refine List.filter_eq_nil_iff.mpr fun k hk => ?_
    simpa using hlater k hk
  have hbefore : before (i + 1) (enclosers (width src.lines) (i + 1)) =
      enclosers (width src.lines) (i + 1) := by
    refine List.filter_eq_self.mpr fun k hk => ?_
    simpa using hlater k hk
  rw [Aligned, since_chain_succ src le_rfl, before_chain_succ src le_rfl, names_cons, hsince,
    hbefore]
  refine ⟨funcs.drop n, by simp [names], ?_⟩
  obtain ⟨m, rfl⟩ := Nat.exists_eq_add_of_lt hlt
  have hdrop := h.drop ((names src.lines (ended (width src.lines) i)).length + (m + 1))
  rw [← ended_append, names_append, List.append_assoc, List.drop_length_add_append,
    ← List.drop_tail] at hdrop
  exact hdrop.trans (List.drop_sublist m _)

/-- What is on the stack are functions around the line, in order. -/
theorem Aligned.sublist (hR : ∀ xs ys, R xs ys → List.Sublist xs ys)
    (h : src.Aligned R L i funcs) :
    List.Sublist funcs (names src.lines (src.chain i) ++ [GLOBAL]) := by
  obtain ⟨rest, rfl, hrest⟩ := h
  have hsplit := since_append_before L (src.pairwise_chain_lt i)
  rw [← hsplit, names_append, hsplit, List.append_assoc]
  exact (hR _ _ hrest).append_left _

/-! ## Every line -/

/-- On a line where nothing was popped too much `@funcs_stack` has the functions around it.
Otherwise, since the last line on which something was, only the functions that begin there or
later are known to be on it. -/
def Follows (src : Source) (i : ℕ) : Prop :=
  (∀ L ≤ i, ¬ src.Miscloses L) ∧ src.Aligned Eq 0 i (src.after i).funcsStack ∨
    ∃ L ≤ i, src.Miscloses L ∧ (∀ L' ≤ i, src.Miscloses L' → L' ≤ L) ∧
      src.Aligned Missing L i (src.after i).funcsStack

theorem not_miscloses_zero (src : Source) : ¬ src.Miscloses 0 := by
  rintro ⟨o, hlt, -⟩
  exact Nat.not_lt_zero o hlt

theorem follows_zero (hi : 0 < src.lines.length) : src.Follows 0 := by
  refine .inl ⟨fun L hL => ?_, [GLOBAL], ?_, rfl⟩
  · rw [Nat.le_zero.mp hL]
    exact src.not_miscloses_zero
  · have hnames : names src.lines (since 0 (src.chain 0)) = (defName src.lines 0).toList :=
      (names_cons src.lines 0 []).trans (List.append_nil _)
    rw [funcsStack_zero hi, hnames]

theorem Follows.sublist (h : src.Follows i) :
    List.Sublist (src.after i).funcsStack (names src.lines (src.chain i) ++ [GLOBAL]) := by
  rcases h with ⟨-, h⟩ | ⟨L, -, -, -, h⟩
  · refine h.sublist fun xs ys heq => ?_
    rw [heq]
  · exact h.sublist fun xs ys hmissing => hmissing.trans (List.tail_sublist ys)

theorem Missing.drop (n : ℕ) (xs ys : List Text) (h : Missing xs ys) :
    Missing (xs.drop n) (ys.drop n) := by
  rw [Missing, List.tail_drop, ← List.drop_tail]
  exact List.Sublist.drop h n

/-- **One more line.** -/
theorem Follows.succ (hi : i + 1 < src.lines.length) (h : src.Follows i) :
    src.Follows (i + 1) := by
  have hreads : src.Reads i (src.after i) := reads_after (by omega)
  rw [Follows, funcsStack_succ hi]
  by_cases hmis : src.Miscloses (i + 1)
  · refine .inr ⟨i + 1, le_rfl, hmis, fun L' hL' _ => hL', ?_⟩
    exact aligned_of_lt h.sublist (lt_popCount_of_miscloses hreads hi hmis)
  · rw [popCount_of_not_miscloses hreads hi hmis]
    rcases h with ⟨hnone, h⟩ | ⟨L, hL, hmisL, hlast, h⟩
    · refine .inl ⟨fun L' hL' => ?_, h.succ (fun n xs ys heq => heq ▸ rfl) (Nat.zero_le _)⟩
      rcases Nat.le_succ_iff.mp hL' with hL' | rfl
      · exact hnone L' hL'
      · exact hmis
    · refine .inr ⟨L, by omega, hmisL, fun L' hL' hmisL' => ?_,
        h.succ Missing.drop (by omega)⟩
      rcases Nat.le_succ_iff.mp hL' with hL' | rfl
      · exact hlast L' hL' hmisL'
      · exact absurd hmisL' hmis

theorem follows (hi : i < src.lines.length) : src.Follows i := by
  induction i with
  | zero => exact follows_zero hi
  | succ i ih => exact (ih (by omega)).succ hi

/-! ## When the function is known -/

/-- On each line that begins no function, `$current_func` is the innermost function around it,
or `GLOBAL`. -/
def Tracks (src : Source) : Prop :=
  ∀ i < src.lines.length, defName src.lines i = none →
    (src.after i).currentFunc = some (src.innermost i)

/-- Wherever something is popped too much, the line is in a function that begins there or
later. -/
def UndisturbedAt (src : Source) (i : ℕ) : Prop :=
  ∀ L ≤ i, src.Miscloses L →
    ∃ j < i, L ≤ j ∧ Encloses (width src.lines) j i ∧ (defName src.lines j).isSome = true

instance (src : Source) : DecidablePred src.UndisturbedAt := fun i =>
  inferInstanceAs (Decidable (∀ L ≤ i, src.Miscloses L →
    ∃ j < i, L ≤ j ∧ Encloses (width src.lines) j i ∧ (defName src.lines j).isSome = true))

def Undisturbed (src : Source) : Prop :=
  ∀ i < src.lines.length, defName src.lines i = none → src.UndisturbedAt i

instance (src : Source) : Decidable src.Undisturbed :=
  inferInstanceAs (Decidable (∀ i < src.lines.length, defName src.lines i = none →
    src.UndisturbedAt i))

/-- No line is in two functions of one name, or in one that is called `GLOBAL`. -/
def DistinctNesting (src : Source) : Prop := ∀ i < src.lines.length, (src.scopes i).Nodup

/-- The functions around a line, those that begin on line `L` or later first. -/
theorem names_since_append (L : ℕ) (hdef : defName src.lines i = none) :
    names src.lines (since L (src.chain i)) ++
      (names src.lines (before L (src.chain i)) ++ [GLOBAL]) = src.scopes i := by
  rw [← List.append_assoc, ← names_append, since_append_before L (src.pairwise_chain_lt i),
    chain, names_cons, hdef]
  rfl

theorem head?_scopes (src : Source) (i : ℕ) : (src.scopes i).head? = some (src.innermost i) := by
  have hne : src.scopes i ≠ [] := by
    simp [scopes]
  obtain ⟨f, outer, hscopes⟩ := List.exists_cons_of_ne_nil hne
  rw [innermost, hscopes]
  rfl

theorem names_since_ne_nil_iff (hdef : defName src.lines i = none) :
    names src.lines (since L (src.chain i)) ≠ [] ↔
      ∃ j < i, L ≤ j ∧ Encloses (width src.lines) j i ∧
        (defName src.lines j).isSome = true := by
  rw [names, ne_eq, List.filterMap_eq_nil_iff]
  constructor
  · intro hsome
    by_contra hnone
    refine hsome fun j hj => Option.not_isSome_iff_eq_none.mp fun hjdef => ?_
    obtain ⟨hj, hLj⟩ := List.mem_filter.mp hj
    rcases List.mem_cons.mp hj with rfl | hj
    · simp [hdef] at hjdef
    · have hencloses := mem_enclosers_iff.mp hj
      exact hnone ⟨j, hencloses.1, by simpa using hLj, hencloses, hjdef⟩
  · rintro ⟨j, -, hLj, hencloses, hjdef⟩ hnone
    have hmem : j ∈ src.chain i := List.mem_cons_of_mem i (mem_enclosers_iff.mpr hencloses)
    have hj := hnone j (List.mem_filter.mpr ⟨hmem, by simpa using hLj⟩)
    simp [hj] at hjdef

/-- If the line is in a function that begins where too much was popped, or later, that
function is on top. -/
theorem currentFunc_of_undisturbedAt (hi : i < src.lines.length)
    (hdef : defName src.lines i = none) (h : src.UndisturbedAt i) :
    (src.after i).currentFunc = some (src.innermost i) := by
  rw [(reads_after hi).currentFunc, ← head?_scopes]
  rcases follows hi with ⟨-, rest, hfuncs, hrest⟩ | ⟨L, hL, hmis, -, rest, hfuncs, -⟩
  · rw [hfuncs, hrest, names_since_append 0 hdef]
  · have hne := (names_since_ne_nil_iff hdef).mpr (h L hL hmis)
    rw [hfuncs, ← names_since_append L hdef, List.head?_append_of_ne_nil _ hne,
      List.head?_append_of_ne_nil _ hne]

/-- Otherwise the innermost function is missing from the stack. -/
theorem undisturbedAt_of_currentFunc (hi : i < src.lines.length)
    (hdef : defName src.lines i = none) (hnodup : (src.scopes i).Nodup)
    (h : (src.after i).currentFunc = some (src.innermost i)) : src.UndisturbedAt i := by
  intro L hL hmis
  rw [(reads_after hi).currentFunc] at h
  rcases follows hi with ⟨hnone, -⟩ | ⟨L', hL', -, hlast, rest, hfuncs, hrest⟩
  · exact absurd hmis (hnone L hL)
  · have hne : names src.lines (since L' (src.chain i)) ≠ [] := by
      intro hnil
      have hscopes := names_since_append L' hdef
      rw [hnil, List.nil_append] at hfuncs hscopes
      rw [hscopes] at hrest
      obtain ⟨outer, houter⟩ := List.head?_eq_some_iff.mp (src.head?_scopes i)
      rw [houter] at hnodup hrest
      rw [hfuncs] at h
      exact (List.nodup_cons.mp hnodup).1 (hrest.subset (List.mem_of_head? h))
    obtain ⟨j, hji, hj, hencloses, hjdef⟩ := (names_since_ne_nil_iff hdef).mp hne
    exact ⟨j, hji, (hlast L hL hmis).trans hj, hencloses, hjdef⟩

/-- **Scope tracking.** The function around each line is known if nothing that was popped too
much is missing there, and only then if the functions around a line have different names. -/
theorem scope_tracked (src : Source) :
    (src.Undisturbed → src.Tracks) ∧ (src.DistinctNesting → (src.Tracks ↔ src.Undisturbed)) := by
  have hsufficient : src.Undisturbed → src.Tracks :=
    fun h i hi hdef => currentFunc_of_undisturbedAt hi hdef (h i hi hdef)
  refine ⟨hsufficient, fun hnodup => ⟨fun h i hi hdef => ?_, hsufficient⟩⟩
  exact undisturbedAt_of_currentFunc hi hdef (hnodup i hi) (h i hi hdef)

/-- A function within a function. -/
def nested : Source where
  lines :=
    [⟨[], List.all_eq_true.mp rfl, .function ⟨"f".toList, "a".toList, by decide,
        List.all_eq_true.mp rfl, by decide, by decide⟩⟩,
      ⟨"    ".toList, List.all_eq_true.mp rfl, .function ⟨"g".toList, "b".toList, by decide,
        List.all_eq_true.mp rfl, by decide, by decide⟩⟩,
      ⟨"        ".toList, List.all_eq_true.mp rfl, .plain ⟨"return b".toList, rfl, by decide⟩⟩,
      ⟨"    ".toList, List.all_eq_true.mp rfl, .plain ⟨"return g".toList, rfl, by decide⟩⟩,
      ⟨[], List.all_eq_true.mp rfl, .plain ⟨"x=f(1)".toList, rfl, by decide⟩⟩]
  first := rfl
  fits := by decide +kernel

theorem scope_tracked_nested : nested.Tracks :=
  (scope_tracked nested).1 (by decide +kernel)

/-- A block that is no function, at the indentation of one. -/
def ifBlock : Source where
  lines :=
    [⟨[], List.all_eq_true.mp rfl, .function ⟨"f".toList, "a".toList, by decide,
        List.all_eq_true.mp rfl, by decide, by decide⟩⟩,
      ⟨"    ".toList, List.all_eq_true.mp rfl, .plain ⟨"return a".toList, rfl, by decide⟩⟩,
      ⟨[], List.all_eq_true.mp rfl, .plain ⟨"if f:".toList, rfl, by decide⟩⟩,
      ⟨"    ".toList, List.all_eq_true.mp rfl, .plain ⟨"x=1".toList, rfl, by decide⟩⟩,
      ⟨[], List.all_eq_true.mp rfl, .plain ⟨"y=2".toList, rfl, by decide⟩⟩]
  first := rfl
  fits := by decide +kernel

/-- The end of the block pops `GLOBAL`. -/
theorem ifBlock_pops_global : ¬ ifBlock.Tracks := by
  intro h
  have hnone : (ifBlock.after 4).currentFunc = none := by
    decide +kernel
  have hsome := h 4 (by decide) (by decide)
  rw [hnone] at hsome
  cases hsome

end Source
end Osh.Py2Cpp
