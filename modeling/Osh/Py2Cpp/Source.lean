import Osh.Lib.Indentation
import Osh.Lib.Lists
import Osh.Py2Cpp.Scope

/-!
# Python sources

Well-indented Python as the analysis loop finds it: the lines that are neither blank nor
comments, each with its indentation. A line that ends with a colon is the head of a block
and the line after it is indented further; any other line is followed by one that is
indented like itself or like the head of a block that it stands in.

## Main definitions

* `FunctionHead`, `PlainLine`, `SourceLine`: `def name(args):` and the other lines.
* `Source`: the lines, and how they are indented.
* `scopes`, `innermost`: the functions around a line, the innermost first, and `GLOBAL`.

## Main results

* `SourceLine.isCode`, `SourceLine.indentOf_line`, `SourceLine.funcName_line`: what the loop
  reads on a line.
-/
namespace Osh.Py2Cpp
open Regex

/-! ## Lines -/

/-- The last character that is not blank is a colon. -/
def TrailingColon (t : Text) : Prop := (t.reverse.dropWhile isSpace).head? = some ':'

instance : DecidablePred TrailingColon := fun t =>
  inferInstanceAs (Decidable ((t.reverse.dropWhile isSpace).head? = some ':'))

/-- `def name(args):` with at least one argument. -/
structure FunctionHead where
  name : Text
  args : Text
  name_ne_nil : name ≠ []
  word_name : ∀ x ∈ name, isWord x = true
  args_ne_nil : args ≠ []
  oneLine_args : '\n' ∉ args

def FunctionHead.text (f : FunctionHead) : Text :=
  "def".toList ++ (" ".toList ++ (f.name ++ ("(".toList ++ (f.args ++ (")".toList ++
    ":".toList)))))

/-- A line that begins neither a comment nor a function. -/
structure PlainLine where
  text : Text
  first : text.head?.any (fun c => !isSpace c && c != '#') = true
  noDef : "def".toList <+: text → (text.drop 3).head?.any isSpace = false

inductive Statement where
  | function (f : FunctionHead)
  | plain (p : PlainLine)

namespace Statement

def text : Statement → Text
  | function f => f.text
  | plain p => p.text

def defName : Statement → Option Text
  | function f => some f.name
  | plain _ => none

end Statement

/-- A statement on a line of its own, behind its indentation. -/
structure SourceLine where
  indentation : Text
  spaces : ∀ x ∈ indentation, isSpace x = true
  statement : Statement

def SourceLine.line (l : SourceLine) : Text := l.indentation ++ l.statement.text

/-! ## What the loop reads -/

section
variable {ind t : Text} {c : Char}

theorem head?_any_of_not {p : Char → Bool} (hc : t.head?.any (fun c => !p c) = true) :
    t.head?.any p = false := by
  cases t with
  | nil => rfl
  | cons c cs => simpa using hc

theorem matchStart_blankPattern (ht : t.head?.any (fun c => !isSpace c) = true) :
    matchStart blankPattern (ind ++ t) = none := by
  rw [matchStart, List.head?_eq_none_iff]
  refine List.eq_nil_iff_forall_not_mem.mpr fun h hmem => ?_
  obtain ⟨a, ha, b, hb, -⟩ := mem_seq_iff.mp hmem
  obtain ⟨hat, ha, -⟩ := mem_many_iff.mp ha
  have hspaces : ∀ x ∈ ind ++ t, isSpace x = true := by
    intro x hx
    rw [hat, List.mem_append] at hx
    rcases hx with hx | hx
    · exact ha x hx
    · rcases of_mem_endOfText hb with hrest | hrest
      · exact absurd (hrest ▸ hx) List.not_mem_nil
      · obtain rfl := List.mem_singleton.mp (hrest ▸ hx)
        decide
  cases t with
  | nil => exact absurd ht (by simp)
  | cons c cs =>
      have hc := hspaces c (List.mem_append_right _ (List.mem_cons_self ..))
      simp [hc] at ht

theorem matchStart_commentPattern (hind : ∀ x ∈ ind, isSpace x = true)
    (ht : t.head?.any (fun c => !isSpace c && c != '#') = true) :
    matchStart commentPattern (ind ++ t) = none := by
  rw [matchStart, List.head?_eq_none_iff]
  refine List.eq_nil_iff_forall_not_mem.mpr fun h hmem => ?_
  obtain ⟨a, ha, b, hb, -⟩ := mem_seq_iff.mp hmem
  obtain ⟨hat, haspaces, -⟩ := mem_many_iff.mp ha
  obtain ⟨hbt, -, -⟩ := mem_lit_iff.mp hb
  cases t with
  | nil => exact absurd ht (by simp)
  | cons c cs =>
      simp only [List.head?_cons, Option.any_some, Bool.and_eq_true, Bool.not_eq_true',
        bne_iff_ne] at ht
      rw [hbt] at hat
      have hcut := append_inj_of_all hat hind haspaces ht.1 rfl
      exact ht.2 (List.cons.inj hcut.2).1

theorem indentOf_append (hind : ∀ x ∈ ind, isSpace x = true)
    (ht : t.head?.any (fun c => !isSpace c) = true) : indentOf (ind ++ t) = ind := by
  have hrest : t.head?.any isSpace = false := head?_any_of_not ht
  rw [indentOf]
  by_cases hne : ind = []
  · subst hne
    have hnil : indentPattern ([] ++ t) = [] := by
      refine seq_eq_nil_iff.mpr fun h hmem => ?_
      rw [List.nil_append, group_eq_nil_iff.mpr (many1_eq_nil_iff.mpr hrest)] at hmem
      exact absurd hmem List.not_mem_nil
    rw [matchStart, hnil]
    rfl
  · cases t with
    | nil => exact absurd ht (by simp)
    | cons c cs =>
        have hc : (!isSpace c) = true := ht
        have hchar : (char (fun c => !isSpace c) (c :: cs)).head? = some ⟨[c], [], cs⟩ := by
          simp only [char, hc, if_true, List.head?_cons]
        have hmatch : matchStart indentPattern (ind ++ c :: cs) = some _ :=
          head?_seq (head?_group (head?_many1 hne hind hrest)) hchar
        rw [hmatch]
        rfl

/-- The pattern for the head of a block finds a colon with nothing behind it. -/
theorem isSome_blockPattern_iff :
    (search blockPattern t).isSome = true ↔
      ∃ before behind, (∀ x ∈ behind, isSpace x = true) ∧ t = before ++ ':' :: behind := by
  have hsearch : (search blockPattern t).isSome = true ↔ ∃ s, s <:+ t ∧ blockPattern s ≠ [] := by
    rw [← Option.ne_none_iff_isSome, ne_eq, search_eq_none_iff]
    simp only [not_forall, exists_prop, ne_eq]
  rw [hsearch]
  constructor
  · rintro ⟨s, ⟨before, rfl⟩, hne⟩
    obtain ⟨h, hmem⟩ := List.exists_mem_of_ne_nil _ hne
    obtain ⟨a, ha, b, hb, -⟩ := mem_seq_iff.mp hmem
    obtain ⟨hat, -, -⟩ := mem_lit_iff.mp ha
    obtain ⟨d, hd, e, he, -⟩ := mem_seq_iff.mp hb
    obtain ⟨hdt, hspaces, -⟩ := mem_many_iff.mp hd
    refine ⟨before, a.rest, fun x hx => ?_, by rw [hat]; rfl⟩
    rw [hdt, List.mem_append] at hx
    rcases hx with hx | hx
    · exact hspaces x hx
    · rcases of_mem_endOfText he with hrest | hrest
      · exact absurd (hrest ▸ hx) List.not_mem_nil
      · obtain rfl := List.mem_singleton.mp (hrest ▸ hx)
        decide
  · rintro ⟨before, behind, hspaces, rfl⟩
    refine ⟨':' :: behind, ⟨before, rfl⟩, ?_⟩
    have hmany : ⟨behind, [], []⟩ ∈ many isSpace behind := by
      have hmem : ⟨behind, [], []⟩ ∈ many isSpace (behind ++ []) := mem_many hspaces
      rwa [List.append_nil] at hmem
    have hend : endOfText [] ≠ [] := by
      simp [endOfText]
    exact seq_ne_nil (mem_lit ":".toList behind) (seq_ne_nil hmany hend)

theorem trailingColon_iff : TrailingColon t ↔
    ∃ before behind, (∀ x ∈ behind, isSpace x = true) ∧ t = before ++ ':' :: behind := by
  constructor
  · intro h
    obtain ⟨cs, hcs⟩ := List.head?_eq_some_iff.mp h
    refine ⟨cs.reverse, (t.reverse.takeWhile isSpace).reverse, fun x hx => ?_, ?_⟩
    · exact List.mem_takeWhile_imp (List.mem_reverse.mp hx)
    · calc t = (t.reverse.takeWhile isSpace ++ t.reverse.dropWhile isSpace).reverse := by
            rw [List.takeWhile_append_dropWhile, List.reverse_reverse]
        _ = cs.reverse ++ ':' :: (t.reverse.takeWhile isSpace).reverse := by
            rw [hcs]
            simp
  · rintro ⟨before, behind, hspaces, rfl⟩
    have hreverse : (before ++ ':' :: behind).reverse =
        behind.reverse ++ ':' :: before.reverse := by
      simp
    rw [TrailingColon, hreverse, dropWhile_append_of_all
      (fun x hx => hspaces x (List.mem_reverse.mp hx)) rfl]
    rfl

theorem funcName_plain (hind : ∀ x ∈ ind, isSpace x = true) (p : PlainLine) :
    funcName (ind ++ p.text) = none := by
  have hnil : defPattern (ind ++ p.text) = [] := by
    refine List.eq_nil_iff_forall_not_mem.mpr fun h hmem => ?_
    obtain ⟨a, ha, _, hmem, -⟩ := mem_seq_iff.mp hmem
    obtain ⟨b, hb, _, hmem, -⟩ := mem_seq_iff.mp hmem
    obtain ⟨c, hc, -⟩ := mem_seq_iff.mp hmem
    obtain ⟨hat, haspaces, -⟩ := mem_many_iff.mp ha
    obtain ⟨hbt, -, -⟩ := mem_lit_iff.mp hb
    obtain ⟨hcne, hct, hcspaces, -⟩ := mem_many1_iff.mp hc
    have hhead : p.text.head?.any isSpace = false := by
      refine head?_any_of_not ?_
      have hfirst := p.first
      cases htext : p.text with
      | nil => simp [htext] at hfirst
      | cons x xs =>
          simp only [htext, List.head?_cons, Option.any_some, Bool.and_eq_true] at hfirst ⊢
          exact hfirst.1
    rw [hbt] at hat
    have hcut := append_inj_of_all hat hind haspaces hhead rfl
    obtain ⟨x, xs, hx⟩ := List.exists_cons_of_ne_nil hcne
    have htext : p.text = "def".toList ++ (x :: (xs ++ c.rest)) := by
      rw [hcut.2, hct, hx, List.cons_append]
    have hspace : isSpace x = true := hcspaces x (hx ▸ List.mem_cons_self ..)
    have hnoDef := p.noDef ⟨_, htext.symm⟩
    rw [htext] at hnoDef
    exact absurd hspace (Bool.eq_false_iff.mp hnoDef)
  rw [funcName, matchStart, hnil]
  rfl

/-- Before a parenthesis there is a whole name, and white space. -/
theorem head?_any_isWord {gap rest : Text} (hgap : ∀ x ∈ gap, isSpace x = true) :
    (gap ++ ("(".toList ++ rest)).head?.any isWord = false := by
  cases gap with
  | nil => rfl
  | cons c cs => exact not_isWord_of_isSpace (hgap c (List.mem_cons_self ..))

theorem defPattern_ne_nil (hind : ∀ x ∈ ind, isSpace x = true) (f : FunctionHead) :
    defPattern (ind ++ f.text) ≠ [] := by
  have hgap : ∀ x ∈ " ".toList, isSpace x = true := List.all_eq_true.mp rfl
  have hargs : ∀ x ∈ f.args, isDot x = true := by
    intro x hx
    have hne : x ≠ '\n' := by
      rintro rfl
      exact f.oneLine_args hx
    simpa [isDot] using hne
  have hnone : ∀ rest, ⟨[], [], rest⟩ ∈ many isSpace rest := by
    intro rest
    exact mem_many_iff.mpr ⟨rfl, by simp, rfl⟩
  refine seq_ne_nil (mem_many hind) ?_
  refine seq_ne_nil (mem_lit ..) ?_
  refine seq_ne_nil (mem_many1 (by decide) hgap) ?_
  refine seq_ne_nil (mem_group_iff.mpr ⟨_, mem_many1 f.name_ne_nil f.word_name, rfl⟩) ?_
  refine seq_ne_nil (hnone _) ?_
  refine seq_ne_nil (mem_lit ..) ?_
  refine seq_ne_nil (mem_group_iff.mpr ⟨_, mem_many1 f.args_ne_nil hargs, rfl⟩) ?_
  refine seq_ne_nil (mem_lit ..) ?_
  refine seq_ne_nil (hnone _) ?_
  exact List.ne_nil_of_mem (mem_lit ":".toList [])

/-- The name is captured. -/
theorem funcName_function (hind : ∀ x ∈ ind, isSpace x = true) (f : FunctionHead) :
    funcName (ind ++ f.text) = some f.name := by
  obtain ⟨h, hmem, hhead⟩ := exists_head?_of_ne_nil (defPattern_ne_nil hind f)
  rw [funcName, matchStart, hhead, Option.map_some]
  obtain ⟨a, ha, _, h₁, rfl⟩ := mem_seq_iff.mp hmem
  obtain ⟨b, hb, _, h₂, rfl⟩ := mem_seq_iff.mp h₁
  obtain ⟨c, hc, _, h₃, rfl⟩ := mem_seq_iff.mp h₂
  obtain ⟨_, hd, _, h₄, rfl⟩ := mem_seq_iff.mp h₃
  obtain ⟨e, he, _, h₅, rfl⟩ := mem_seq_iff.mp h₄
  obtain ⟨p, hp, q, -, rfl⟩ := mem_seq_iff.mp h₅
  obtain ⟨v, hv, rfl⟩ := mem_group_iff.mp hd
  obtain ⟨hat, haspaces, hag⟩ := mem_many_iff.mp ha
  obtain ⟨hbt, -, hbg⟩ := mem_lit_iff.mp hb
  obtain ⟨hcne, hct, hcspaces, hcg⟩ := mem_many1_iff.mp hc
  obtain ⟨hvne, hvt, hvword, -⟩ := mem_many1_iff.mp hv
  obtain ⟨het, hespaces, -⟩ := mem_many_iff.mp he
  obtain ⟨hpt, -, -⟩ := mem_lit_iff.mp hp
  -- the text behind the indentation, then behind `def`, and then the name
  rw [hbt] at hat
  have htext := (append_inj_of_all hat hind haspaces rfl rfl).2
  have hgap : " ".toList ++ (f.name ++ ("(".toList ++ (f.args ++ (")".toList ++
      ":".toList)))) = c.matched ++ (v.matched ++ v.rest) := by
    rw [← hvt, ← hct]
    exact List.append_cancel_left htext
  have hname := (append_inj_of_all hgap (List.all_eq_true.mp rfl) hcspaces
    (head?_any_isSpace f.name_ne_nil f.word_name) (head?_any_isSpace hvne hvword)).2
  have hword : v.rest.head?.any isWord = false := by
    rw [het, hpt]
    exact head?_any_isWord hespaces
  have hcut := append_inj_of_all hname f.word_name hvword rfl hword
  simp [Hit.append, hag, hbg, hcg, hcut.1]

end

namespace SourceLine
variable (l : SourceLine)

theorem head?_text :
    l.statement.text.head?.any (fun c => !isSpace c && c != '#') = true := by
  cases l.statement with
  | function f => rfl
  | plain p => exact p.first

theorem head?_text_not_isSpace : l.statement.text.head?.any (fun c => !isSpace c) = true := by
  have hhead := l.head?_text
  cases htext : l.statement.text with
  | nil => simp [htext] at hhead
  | cons c cs =>
      simp only [htext, List.head?_cons, Option.any_some, Bool.and_eq_true] at hhead ⊢
      exact hhead.1

/-- The line is neither blank nor a comment. -/
theorem isCode : ¬ ((matchStart blankPattern l.line).isSome = true ∨
    (matchStart commentPattern l.line).isSome = true) := by
  rw [line, matchStart_blankPattern l.head?_text_not_isSpace,
    matchStart_commentPattern l.spaces l.head?_text]
  simp

theorem indentOf_line : indentOf l.line = l.indentation :=
  indentOf_append l.spaces l.head?_text_not_isSpace

theorem funcName_line : funcName l.line = l.statement.defName := by
  rw [line]
  cases l.statement with
  | function f => exact funcName_function l.spaces f
  | plain p => exact funcName_plain l.spaces p

theorem search_blockPattern_line :
    (search blockPattern l.line).isSome = true ↔ TrailingColon l.line :=
  isSome_blockPattern_iff.trans trailingColon_iff.symm

/-- The head of a function is the head of a block. -/
theorem trailingColon_of_defName {name : Text} (h : l.statement.defName = some name) :
    TrailingColon l.line := by
  rw [line]
  cases hstatement : l.statement with
  | function f =>
      refine trailingColon_iff.mpr ⟨l.indentation ++ ("def".toList ++ (" ".toList ++ (f.name ++
        ("(".toList ++ (f.args ++ ")".toList))))), [], by simp, ?_⟩
      simp [Statement.text, FunctionHead.text]
  | plain p =>
      rw [hstatement] at h
      cases h

end SourceLine

/-! ## Sources -/

def indentation (lines : List SourceLine) (i : ℕ) : Text :=
  (lines[i]?.map SourceLine.indentation).getD []

def width (lines : List SourceLine) (i : ℕ) : ℕ := (indentation lines i).length

/-- The name of the function that begins on a line. -/
def defName (lines : List SourceLine) (i : ℕ) : Option Text :=
  lines[i]?.bind fun l => l.statement.defName

/-- The line is the head of a block. -/
def Opens (lines : List SourceLine) (i : ℕ) : Prop :=
  ∃ l ∈ lines[i]?, TrailingColon l.line

instance (lines : List SourceLine) : DecidablePred (Opens lines) := fun i =>
  match h : lines[i]? with
  | some l => decidable_of_iff (TrailingColon l.line) (by simp [Opens, h])
  | none => .isFalse (by simp [Opens, h])

/-- The indentation of a line fits the lines before it. -/
def Fits (lines : List SourceLine) (i : ℕ) : Prop :=
  if Opens lines i then width lines i < width lines (i + 1)
  else ∃ o ∈ i :: enclosers (width lines) i, indentation lines (i + 1) = indentation lines o

instance (lines : List SourceLine) : DecidablePred (Fits lines) := fun i =>
  inferInstanceAs (Decidable (if Opens lines i then width lines i < width lines (i + 1)
    else ∃ o ∈ i :: enclosers (width lines) i, indentation lines (i + 1) = indentation lines o))

/-- A well-indented source. -/
structure Source where
  lines : List SourceLine
  first : indentation lines 0 = []
  fits : ∀ i < lines.length - 1, Fits lines i

namespace Source

/-- The names of the functions that begin on some lines. -/
def names (lines : List SourceLine) (is : List ℕ) : List Text := is.filterMap (defName lines)

/-- The functions that a line stands in, the innermost first, and `GLOBAL`. -/
def scopes (src : Source) (i : ℕ) : List Text :=
  names src.lines (enclosers (width src.lines) i) ++ [GLOBAL]

/-- The innermost function that a line stands in, or `GLOBAL`. -/
def innermost (src : Source) (i : ℕ) : Text := (src.scopes i).headD GLOBAL

/-- The variables of the loop when a line has been analysed. -/
def after (src : Source) (i : ℕ) : Scope :=
  analyse ((src.lines.take (i + 1)).map SourceLine.line)

end Source
end Osh.Py2Cpp
