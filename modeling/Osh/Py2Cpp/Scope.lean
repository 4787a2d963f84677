import Mathlib.Logic.Function.Basic
import Osh.Lib.Regex

/-!
# The analysis loop

The variables with which `py2cpp.pl` follows the nesting of functions while it collects
declarations: the stack of indentations, the stack of functions, the table of the
indentations at which functions were defined, and `$current_func`. Both passes start from
the same values and go through the same lines. The tables of arguments and declarations
that the loop fills in are not modelled: nothing here depends on them.

## Main definitions

* `Scope`: the variables, with the innermost entry of each stack first.
* `closeBlocks`, `openBlock`, `enterFunc`: what a line does to the stacks.
* `analyseLine`, `analyse`: the body of the loop, and a pass.

## Main results

* `popIndents_eq`: what is popped when blocks end.
-/
namespace Osh.Py2Cpp
open Regex

/-! ## The patterns -/

/-- `^\s*$` -/
def blankPattern : Regex := seq (many isSpace) endOfText

/-- `^\s*\#` -/
def commentPattern : Regex := seq (many isSpace) (lit "#".toList)

/-- `^(\s+)\S` -/
def indentPattern : Regex := seq (group (many1 isSpace)) (char fun c => !isSpace c)

/-- `:\s*$` -/
def blockPattern : Regex := seq (lit ":".toList) (seq (many isSpace) endOfText)

/-- `^\s*def\s+(\w+)\s*\((.+)\)\s*:` -/
def defPattern : Regex :=
  seq (many isSpace) (seq (lit "def".toList) (seq (many1 isSpace) (seq (group (many1 isWord))
    (seq (many isSpace) (seq (lit "(".toList) (seq (group (many1 isDot)) (seq (lit ")".toList)
      (seq (many isSpace) (lit ":".toList)))))))))

/-- The white space that `indentPattern` captures. -/
def indentOf (line : Text) : Text :=
  match matchStart indentPattern line with
  | some h => h.groups.headD []
  | none => []

/-- The name that `defPattern` captures. -/
def funcName (line : Text) : Option Text :=
  (matchStart defPattern line).map fun h => h.groups.headD []

/-! ## The loop -/

/-- The entry at the bottom of `@funcs_stack`. -/
def GLOBAL : Text := "GLOBAL".toList

/-- The variables of the loop. `none` is an undefined `$current_func`. -/
structure Scope where
  indent : Text
  prevIndent : Text
  indentStack : List Text
  funcsStack : List Text
  defIndents : Text → Option Text
  currentFunc : Option Text
  prevLine : Text

/-- The values at the start of each pass. -/
def Scope.start : Scope := ⟨[], [], [[]], [GLOBAL], fun _ => none, some GLOBAL, []⟩

/-- One indentation is popped, and a function if the new top is in `%def_indents`. -/
def popIndent (s : Scope) (indentStack : List Text) : Scope :=
  if (s.defIndents (indentStack.headD [])).isSome then
    { s with
      indentStack
      funcsStack := s.funcsStack.tail
      currentFunc := s.funcsStack.tail.head? }
  else { s with indentStack }

/-- `while (length($indent_stack[-1]) > length($indent))`, by the stack of indentations. -/
def popIndents : List Text → Scope → Scope
  | [], s => s
  | top :: rest, s =>
      if s.indent.length < top.length then popIndents rest (popIndent s rest) else s

/-- The blocks that a line ends. -/
def closeBlocks (s : Scope) : Scope :=
  if s.indent.length < s.prevIndent.length then popIndents s.indentStack s else s

/-- The block that a line begins. -/
def openBlock (s : Scope) : Scope :=
  if s.prevIndent.length < s.indent.length ∧ (search blockPattern s.prevLine).isSome then
    { s with indentStack := s.indent :: s.indentStack }
  else s

/-- The function that a line begins. -/
def enterFunc (s : Scope) (line : Text) : Scope :=
  match funcName line with
  | some name =>
      { s with
        currentFunc := some name
        funcsStack := name :: s.funcsStack
        defIndents := Function.update s.defIndents s.indent (some name) }
  | none => s

/-- The body of the loop. -/
def analyseLine (s : Scope) (line : Text) : Scope :=
  if (matchStart blankPattern line).isSome ∨ (matchStart commentPattern line).isSome then s
  else
    let s := enterFunc (openBlock (closeBlocks { s with indent := indentOf line })) line
    { s with prevIndent := s.indent, prevLine := line }

/-- A pass over the lines. -/
def analyse (lines : List Text) : Scope := lines.foldl analyseLine .start

/-! ## Popping -/

/-- How many of these indentations functions were defined at. -/
def recorded (defIndents : Text → Option Text) (indents : List Text) : ℕ :=
  indents.countP fun t => (defIndents t).isSome

/-- What is there after `n` functions and some indentations are popped. -/
def Scope.popped (s : Scope) (indentStack : List Text) (n : ℕ) : Scope :=
  { s with
    indentStack
    funcsStack := s.funcsStack.drop n
    currentFunc := (s.funcsStack.drop n).head? }

theorem recorded_cons (defIndents : Text → Option Text) (t : Text) (indents : List Text) :
    recorded defIndents (t :: indents) =
      recorded defIndents indents + if (defIndents t).isSome then 1 else 0 :=
  List.countP_cons

theorem popped_popped (s : Scope) (indentStack below : List Text) (n m : ℕ) :
    (s.popped indentStack n).popped below m = s.popped below (m + n) := by
  have hdrop : (s.funcsStack.drop n).drop m = s.funcsStack.drop (m + n) := by
    rw [List.drop_drop, Nat.add_comm]
  simp only [Scope.popped, hdrop]

theorem popped_zero {s : Scope} (hcurrent : s.currentFunc = s.funcsStack.head?)
    (indentStack : List Text) : s.popped indentStack 0 = { s with indentStack } := by
  rw [Scope.popped, List.drop_zero, ← hcurrent]

theorem popIndent_eq {s : Scope} (hcurrent : s.currentFunc = s.funcsStack.head?) (t : Text)
    (rest : List Text) : popIndent s (t :: rest) =
      s.popped (t :: rest) (if (s.defIndents t).isSome then 1 else 0) := by
  rw [popIndent, List.headD_cons]
  split
  · rw [Scope.popped, List.drop_one]
  · rw [popped_zero hcurrent]

/-- **What is popped**: the indentations down to that of the line, and as many functions as
the indentations uncovered on the way are in `%def_indents`. -/
theorem popIndents_eq {s : Scope} {top : Text} {uncovered below : List Text}
    (hstack : s.indentStack = top :: (uncovered ++ below))
    (hcurrent : s.currentFunc = s.funcsStack.head?)
    (hwidths : (top :: uncovered).Pairwise fun a b => b.length < a.length)
    (hlast : (top :: uncovered).getLast? = some s.indent) :
    popIndents s.indentStack s =
      s.popped (s.indent :: below) (recorded s.defIndents uncovered) := by
  rw [hstack]
  induction uncovered generalizing s top with
  | nil =>
      obtain rfl : top = s.indent := Option.some.inj hlast
      have hnone : recorded s.defIndents [] = 0 := rfl
      rw [List.nil_append, popIndents, if_neg (Nat.lt_irrefl _), hnone, popped_zero hcurrent,
        ← List.nil_append below, ← hstack]
  | cons u us ih =>
      rw [List.getLast?_cons_cons] at hlast
      obtain ⟨htop, hus⟩ := List.pairwise_cons.mp hwidths
      have hlonger : s.indent.length < top.length := htop _ (List.mem_of_getLast? hlast)
      have hrest : ∀ n, popIndents (u :: (us ++ below)) (s.popped (u :: (us ++ below)) n) =
          (s.popped (u :: (us ++ below)) n).popped (s.indent :: below)
            (recorded s.defIndents us) :=
        fun n => ih (s := s.popped (u :: (us ++ below)) n) rfl rfl hus hlast
      rw [List.cons_append, popIndents, if_pos hlonger, popIndent_eq hcurrent, hrest,
        popped_popped, recorded_cons]

theorem popIndents_of_le {s : Scope} {top : Text} {rest : List Text}
    (h : top.length ≤ s.indent.length) : popIndents (top :: rest) s = s := by
  rw [popIndents, if_neg (Nat.not_lt.mpr h)]

end Osh.Py2Cpp
