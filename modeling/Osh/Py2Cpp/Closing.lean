import Osh.Py2Cpp.Source
import Osh.Py2Cpp.Unbraced

/-!
# Closing blocks

When the indentation goes back, the loop puts out a brace for each block that ends: in front
of an `else`, before the definition of a function, or on a line of its own. What it puts out
for a line stands behind these braces.

## Main definitions

* `Emission.Ready`: the stack has the indentations of the blocks that a line ends.
* `Emission.Places`: some text is put out inside some open braces.
* `ownText`: what the output has for a line, without the braces before it.

## Main results

* `Ready.closeBlocks_of_none`, `Ready.closeBlocks_line`: the braces that are put out.
* `Ready.finish_line`, `Ready.finish_definition`, `finish_import`: a line of each kind.
-/
namespace Osh.Py2Cpp
open Regex

/-- The lines of a file as one text. -/
def fileText (lines : List Text) : Text := lines.flatMap fun l => l ++ ['\n']

@[simp] theorem fileText_append (ls ms : List Text) :
    fileText (ls ++ ms) = fileText ls ++ fileText ms :=
  List.flatMap_append

theorem braces_fileText_cons (u : Text) (us : List Text) :
    braces (fileText (u :: us)) = braces u ++ braces (fileText us) := by
  have hbreak : braces ['\n'] = [] := rfl
  rw [fileText, List.flatMap_cons, braces_append, braces_append, hbreak, List.append_nil]
  rfl

theorem braces_fileText {lines : List Text} (h : ∀ l ∈ lines, braces l = []) :
    braces (fileText lines) = [] := by
  induction lines with
  | nil => rfl
  | cons l lines ih =>
      have hrest := ih fun m hm => h m (List.mem_cons_of_mem l hm)
      rw [braces_fileText_cons, h l (List.mem_cons_self ..)]
      exact hrest

/-! ## Closing braces -/

section
variable {line w group u sp rest : Text}

theorem captures_elsePattern (h : captures elsePattern line = some (w, group)) :
    ∃ sp rest, line = sp ++ (w ++ rest) ∧ (∀ c ∈ sp, isSpace c = true) ∧
      (w = "else".toList ∨ w = "elif".toList) := by
  obtain ⟨k, hk, heq⟩ := Option.map_eq_some_iff.mp h
  obtain ⟨a, ha, b, hb, rfl⟩ := mem_seq_iff.mp (mem_of_matchStart hk)
  obtain ⟨v, hv, rfl⟩ := mem_group_iff.mp hb
  obtain ⟨-, hline, hspaces, hag⟩ := mem_many1_iff.mp ha
  obtain rfl : v.matched = w := by
    simpa [Hit.append, hag] using congrArg Prod.fst heq
  have hword : a.rest = v.matched ++ v.rest ∧
      (v.matched = "else".toList ∨ v.matched = "elif".toList) := by
    rcases List.mem_append.mp hv with hv | hv
    · obtain ⟨hrest, hmatched, -⟩ := mem_lit_iff.mp hv
      exact ⟨hmatched ▸ hrest, .inl hmatched⟩
    · obtain ⟨hrest, hmatched, -⟩ := mem_lit_iff.mp hv
      exact ⟨hmatched ▸ hrest, .inr hmatched⟩
  exact ⟨a.matched, v.rest, hword.1 ▸ hline, hspaces, hword.2⟩

/-- The brace is put between the indentation and the `else`. -/
theorem subst_else (hspaces : ∀ c ∈ sp, isSpace c = true)
    (hw : w = "else".toList ∨ w = "elif".toList) :
    subst (lit w) (fun _ => "\x7d ".toList ++ w) (sp ++ (w ++ rest)) =
      sp ++ ("\x7d ".toList ++ (w ++ rest)) := by
  have hsearch : search (lit w) (sp ++ (w ++ rest)) = some (sp, ⟨w, [], rest⟩) := by
    rw [search_append, search_of_head? (head?_lit w rest)]
    · simp
    · intro s hs hne
      refine lit_eq_nil_iff.mpr fun hprefix => ?_
      obtain ⟨c, cs, rfl⟩ := List.exists_cons_of_ne_nil hne
      have hc : isSpace c = true := hspaces c (hs.subset (List.mem_cons_self ..))
      rcases hw with rfl | rfl
      · obtain ⟨rfl, -⟩ := List.cons_prefix_cons.mp hprefix
        exact absurd hc (by decide)
      · obtain ⟨rfl, -⟩ := List.cons_prefix_cons.mp hprefix
        exact absurd hc (by decide)
  rw [subst, hsearch]
  simp

/-- A line gets only one brace. -/
theorem captures_elsePattern_closed (hspaces : ∀ c ∈ sp, isSpace c = true) :
    captures elsePattern (sp ++ ("\x7d ".toList ++ u)) = none := by
  cases hcaptures : captures elsePattern (sp ++ ("\x7d ".toList ++ u)) with
  | none => rfl
  | some found =>
      obtain ⟨w, group⟩ := found
      obtain ⟨sp', rest', hline, hspaces', hw⟩ := captures_elsePattern hcaptures
      have hhead : (w ++ rest').head?.any isSpace = false := by
        rcases hw with rfl | rfl <;> rfl
      have hcut := (append_inj_of_all hline hspaces hspaces' rfl hhead).2
      rcases hw with rfl | rfl <;> cases hcut

end

namespace Emission
variable {s : Emission} {indent line top : Text} {uncovered below : List Text}

theorem braces_closingBrace (h : ∀ u ∈ below, braces u = []) :
    braces (s.closingBrace indent below) = ['}'] := by
  have hdecimal : ∀ n, braces (decimal n) = [] := by
    intro n
    refine braces_eq_nil_iff.mpr fun c hc => ?_
    have hdigit : c.isDigit = true := Nat.isDigit_of_mem_toDigits (by decide) (by decide) hc
    by_contra hbrace
    simp only [isBrace, Bool.not_eq_false, Bool.or_eq_true, beq_iff_eq] at hbrace
    rcases hbrace with rfl | rfl <;> exact absurd hdigit (by decide)
  have htop : braces (below.headD []) = [] := by
    cases below with
    | nil => rfl
    | cons u us => exact h u (List.mem_cons_self ..)
  rw [closingBrace, braces_append, braces_append, braces_append, braces_append, htop, hdecimal,
    hdecimal]
  rfl

/-- The braces that are closed without an `else`: before the definition just emitted, or to
the end. -/
theorem popBraces_of_none (skip : Bool) (hline : captures elsePattern line = none)
    {before own : List Text}
    (hcpp : s.cppLines = before ++ own)
    (hown : if skip then own.length = s.ndecls + 1 else own = [])
    (hstack : s.indentStack = top :: (uncovered ++ below))
    (hwidths : (top :: uncovered).Pairwise fun a b => b.length < a.length)
    (hlast : (top :: uncovered).getLast? = some indent)
    (hbraces : ∀ u ∈ uncovered ++ below, braces u = []) :
    ∃ closers, braces (fileText closers) = List.replicate uncovered.length '}' ∧
      popBraces indent skip s.indentStack (s, line) =
        ({ s with indentStack := indent :: below, cppLines := before ++ (closers ++ own) },
          line) := by
  rw [hstack]
  induction uncovered generalizing s top before with
  | nil =>
      obtain rfl : top = indent := Option.some.inj hlast
      refine ⟨[], rfl, ?_⟩
      rw [popBraces, if_neg (Nat.lt_irrefl _)]
      simp only [List.nil_append] at hstack ⊢
      rw [← hstack, ← hcpp]
  | cons u us ih =>
      rw [List.getLast?_cons_cons] at hlast
      obtain ⟨htop, hus⟩ := List.pairwise_cons.mp hwidths
      have hlonger : indent.length < top.length := htop _ (List.mem_of_getLast? hlast)
      have hbrace : braces (s.closingBrace indent (u :: us ++ below)) = ['}'] :=
        braces_closingBrace hbraces
      -- where the brace goes, the rest goes as well
      obtain ⟨lines, hlines, hstep⟩ : ∃ lines, braces (fileText lines) = ['}'] ∧
          popBraces indent skip (top :: (u :: us ++ below)) (s, line) =
            popBraces indent skip (u :: (us ++ below))
              ({ s with
                indentStack := u :: (us ++ below)
                cppLines := (before ++ lines) ++ own }, line) := by
        cases skip with
        | true =>
            have hlength : (before ++ own).length - s.ndecls - 1 = before.length := by
              have hown : own.length = s.ndecls + 1 := hown
              rw [List.length_append]
              omega
            refine ⟨[s.closingBrace indent (u :: us ++ below), []], ?_, ?_⟩
            · rw [fileText, List.flatMap_cons, braces_append, braces_append, hbrace]
              rfl
            · rw [popBraces, if_pos hlonger]
              simp only [hline, if_true, hcpp, hlength, List.take_left, List.drop_left,
                List.append_assoc]
              rfl
        | false =>
            obtain rfl : own = [] := hown
            refine ⟨[s.closingBrace indent (u :: us ++ below)], ?_, ?_⟩
            · rw [fileText, List.flatMap_cons, braces_append, braces_append, hbrace]
              rfl
            · rw [popBraces, if_pos hlonger]
              simp only [hline, hcpp, push, Bool.false_eq_true, if_false, List.append_nil]
              rfl
      obtain ⟨closers, hclosers, hpop⟩ := ih
        (s := { s with
          indentStack := u :: (us ++ below)
          cppLines := (before ++ lines) ++ own }) rfl hown rfl hus hlast
        fun v hv => hbraces v (List.mem_cons_of_mem u hv)
      refine ⟨lines ++ closers, ?_, ?_⟩
      · rw [fileText_append, braces_append, hlines, hclosers]
        rfl
      · rw [hstep, hpop]
        simp only [List.append_assoc]

/-- `n` blocks end at a line with this indentation, and those indented like `below` go on. -/
def Ready (s : Emission) (indent : Text) (below : List Text) (n : ℕ) : Prop :=
  ∃ top uncovered, s.indentStack = top :: (uncovered ++ below) ∧
    (top :: uncovered).Pairwise (fun a b => b.length < a.length) ∧
    (top :: uncovered).getLast? = some indent ∧
    (uncovered ≠ [] → indent.length < s.prevIndent.length) ∧
    (∀ u ∈ uncovered ++ below, braces u = []) ∧ uncovered.length = n

variable {n : ℕ}

theorem Ready.closeBlocks_eq (h : s.Ready indent below n) (skip : Bool) (line : Text) :
    closeBlocks indent skip (s, line) = popBraces indent skip s.indentStack (s, line) := by
  obtain ⟨top, uncovered, hstack, -, hlast, hshorter, -, -⟩ := h
  rw [closeBlocks]
  split
  · rfl
  next hnot =>
    obtain rfl : uncovered = [] := by
      by_contra hne
      exact hnot (hshorter hne)
    obtain rfl : top = indent := Option.some.inj hlast
    rw [hstack, popBraces, if_neg (Nat.lt_irrefl _)]

/-- The blocks that are ended by a line that is no `else`. -/
theorem Ready.closeBlocks_of_none (h : s.Ready indent below n) (skip : Bool)
    (hline : captures elsePattern line = none) {before own : List Text}
    (hcpp : s.cppLines = before ++ own)
    (hown : if skip then own.length = s.ndecls + 1 else own = []) :
    ∃ closers, braces (fileText closers) = List.replicate n '}' ∧
      closeBlocks indent skip (s, line) =
        ({ s with indentStack := indent :: below, cppLines := before ++ (closers ++ own) },
          line) := by
  rw [h.closeBlocks_eq]
  obtain ⟨top, uncovered, hstack, hwidths, hlast, -, hbraces, rfl⟩ := h
  exact popBraces_of_none skip hline hcpp hown hstack hwidths hlast hbraces

theorem comment_eq {sp u : Text} (hspaces : ∀ c ∈ sp, isSpace c = true)
    (hu : u.head?.any (fun c => !isSpace c && c != '#') = true) : comment (sp ++ u) = sp ++ u := by
  rw [comment, matchStart_commentPattern hspaces hu]

/-- Behind the braces that it ends stands what the line is apart from its indentation. -/
theorem Ready.closeBlocks_line (h : s.Ready indent below n) (line : Text) :
    ∃ closers mid line', closeBlocks indent false (s, line) =
        ({ s with indentStack := indent :: below, cppLines := s.cppLines ++ closers }, line') ∧
      fileText closers ++ comment line' = mid ++ (comment line).dropWhile isSpace ∧
      braces mid = List.replicate n '}' ∧
      (line.getLast? = some '{' → line'.getLast? = some '{') := by
  have hspaces : braces ((comment line).takeWhile isSpace) = [] :=
    braces_spaces fun c hc => List.mem_takeWhile_imp hc
  by_cases hplain : captures elsePattern line = none ∨ n = 0
  · -- the line stays as it is
    obtain ⟨closers, hclosers, hclose⟩ : ∃ closers,
        braces (fileText closers) = List.replicate n '}' ∧ closeBlocks indent false (s, line) =
          ({ s with indentStack := indent :: below, cppLines := s.cppLines ++ closers }, line) := by
      rcases hplain with hnone | rfl
      · obtain ⟨closers, hclosers, hclose⟩ :=
          h.closeBlocks_of_none false hnone (List.append_nil _).symm rfl
        rw [List.append_nil] at hclose
        exact ⟨closers, hclosers, hclose⟩
      · rw [h.closeBlocks_eq]
        obtain ⟨top, uncovered, hstack, -, hlast, -, -, hzero⟩ := h
        obtain rfl := List.eq_nil_of_length_eq_zero hzero
        obtain rfl : top = indent := Option.some.inj hlast
        refine ⟨[], rfl, ?_⟩
        rw [List.nil_append] at hstack
        rw [hstack, popBraces, if_neg (Nat.lt_irrefl _), ← hstack, List.append_nil]
    refine ⟨closers, fileText closers ++ (comment line).takeWhile isSpace, line, hclose, ?_, ?_, id⟩
    · rw [List.append_assoc, List.takeWhile_append_dropWhile]
    · rw [braces_append, hclosers, hspaces, List.append_nil]
  · -- the first brace goes in front of the `else`
    rw [not_or] at hplain
    obtain ⟨⟨w, group⟩, hcaptures⟩ := Option.ne_none_iff_exists'.mp hplain.1
    obtain ⟨sp, rest, rfl, hsp, hw⟩ := captures_elsePattern hcaptures
    have hclose := h.closeBlocks_eq false (sp ++ (w ++ rest))
    obtain ⟨top, uncovered, hstack, hwidths, hlast, -, hbraces, rfl⟩ := h
    cases uncovered with
    | nil => exact absurd rfl hplain.2
    | cons u us =>
        obtain ⟨htop, hus⟩ := List.pairwise_cons.mp hwidths
        rw [List.getLast?_cons_cons] at hlast
        have hlonger : indent.length < top.length := htop _ (List.mem_of_getLast? hlast)
        have hclosed : captures elsePattern (sp ++ ("\x7d ".toList ++ (w ++ rest))) = none :=
          captures_elsePattern_closed hsp
        obtain ⟨closers, hclosers, hpop⟩ := popBraces_of_none false
          (s := { s with indentStack := u :: (us ++ below) }) hclosed (List.append_nil _).symm rfl
          rfl hus hlast fun v hv => hbraces v (List.mem_cons_of_mem u hv)
        have hhead : (w ++ rest).head?.any (fun c => !isSpace c && c != '#') = true := by
          rcases hw with rfl | rfl <;> rfl
        have hspace : (w ++ rest).head?.any isSpace = false := by
          rcases hw with rfl | rfl <;> rfl
        refine ⟨closers, fileText closers ++ (sp ++ "\x7d ".toList),
          sp ++ ("\x7d ".toList ++ (w ++ rest)), ?_, ?_, ?_, ?_⟩
        · rw [hclose, hstack, List.cons_append, popBraces, if_pos hlonger]
          simp only [hcaptures, subst_else hsp hw]
          simp only [List.append_nil] at hpop
          exact hpop
        · rw [comment_eq hsp hhead, comment_eq hsp rfl, dropWhile_append_of_all hsp hspace]
          simp only [List.append_assoc]
        · rw [braces_append, braces_append, hclosers, braces_spaces hsp, List.length_cons,
            List.replicate_succ']
          rfl
        · intro hend
          rw [List.getLast?_append_of_ne_nil _ (by rcases hw with rfl | rfl <;> simp)] at hend
          rw [← List.append_assoc, List.getLast?_append_of_ne_nil _
            (by rcases hw with rfl | rfl <;> simp), hend]

/-! ## One line -/

/-- The output goes on with `own`, inside `d` braces. -/
def Places (s s' : Emission) (own : Text) (d : ℕ) : Prop :=
  ∃ before, fileText s'.cppLines = before ++ own ∧ fileText s.cppLines <+: before ∧
    nesting 0 before = some d

/-- A line without its indentation. -/
def lineText (line : Text) : Text := fileText [(comment line).dropWhile isSpace]

theorem braces_lineText (u : Text) : braces (lineText u) = braces u := by
  have hspaces : braces ((comment u).takeWhile isSpace) = [] :=
    braces_spaces fun c hc => List.mem_takeWhile_imp hc
  have hcut := congrArg braces (List.takeWhile_append_dropWhile (p := isSpace) (l := comment u))
  rw [braces_append, hspaces, List.nil_append, braces_comment] at hcut
  rw [lineText, braces_fileText_cons, hcut]
  exact List.append_nil _

/-- What the output has for a line of code, from behind the braces before it. -/
def ownText (t : Tables) (currentFunc line : Text) : Text :=
  match importedModule line with
  | some module => if module = "numpy".toList then [] else fileText [includeLine module]
  | none =>
      if (search blockPattern line).isSome then
        match captures defHeadPattern (openBody line) with
        | some (func, argtup) =>
            fileText ((prototype t (indentOf line) func argtup ++ "\x7b".toList) ::
              declarations t (indentOf line) func)
        | none =>
            lineText (rewriteStatement currentFunc (indentOf line)
              (tie (blockHead (openBody line))))
      else lineText (rewriteStatement currentFunc (indentOf line) (tie (semicolon line)))

variable {t : Tables} {v : Text} {d : ℕ}

theorem nesting_closers {mid before : Text} (hd : nesting 0 before = some (d + n))
    (hmid : braces mid = List.replicate n '}') : nesting 0 (before ++ mid) = some d := by
  rw [nesting_append, hd]
  exact nesting_of_close hmid

/-- A line that is no definition. -/
theorem Ready.finish_line (h : s.Ready indent below n)
    (hd : nesting 0 (fileText s.cppLines) = some (d + n))
    (hbody : s.body t indent line false = (s, v, false)) :
    Places s (s.finish t indent line false)
        (lineText (rewriteStatement s.currentFunc indent (tie v))) d ∧
      (s.finish t indent line false).indentStack = indent :: below ∧
      (s.finish t indent line false).prevIndent = indent ∧
      ((rewriteStatement s.currentFunc indent (tie v)).getLast? = some '{' →
        (s.finish t indent line false).prevLine.getLast? = some '{') := by
  obtain ⟨closers, mid, line', hclose, htext, hmid, hlast⟩ :=
    h.closeBlocks_line (rewriteStatement s.currentFunc indent (tie v))
  have hfinish : s.finish t indent line false =
      { s with
        indentStack := indent :: below
        cppLines := s.cppLines ++ closers ++ [comment line']
        prevIndent := indent
        prevLine := line' } := by
    rw [finish, hbody]
    simp only [hclose, push, Bool.false_eq_true, if_false]
  rw [hfinish]
  refine ⟨⟨fileText s.cppLines ++ mid, ?_, List.prefix_append .., nesting_closers hd hmid⟩,
    rfl, rfl, hlast⟩
  have hone : ∀ u : Text, fileText [u] = u ++ ['\n'] := fun u => List.append_nil _
  rw [fileText_append, fileText_append, lineText, hone, hone, List.append_assoc,
    ← List.append_assoc (fileText closers), htext]
  simp only [List.append_assoc]

/-- A definition. -/
theorem Ready.finish_definition (h : s.Ready indent below n)
    (hd : nesting 0 (fileText s.cppLines) = some (d + n)) {func argtup : Text}
    (hbody : s.body t indent line false =
      (s.define t indent func argtup, prototype t indent func argtup ++ "\x7b".toList, true))
    (hhead : captures elsePattern (rewriteStatement func indent
      (tie (prototype t indent func argtup ++ "\x7b".toList))) = none) :
    Places s (s.finish t indent line false) (fileText
        ((prototype t indent func argtup ++ "\x7b".toList) :: declarations t indent func)) d ∧
      (s.finish t indent line false).indentStack = indent :: below ∧
      (s.finish t indent line false).prevIndent = indent ∧
      (s.finish t indent line false).prevLine =
        rewriteStatement func indent (tie (prototype t indent func argtup ++ "\x7b".toList)) := by
  have hready : (s.define t indent func argtup).Ready indent below n := h
  have hown : ((prototype t indent func argtup ++ "\x7b".toList) ::
      declarations t indent func).length = (s.define t indent func argtup).ndecls + 1 := by
    simp [declarations, define]
  have hcpp : (s.define t indent func argtup).cppLines = s.cppLines ++
      (prototype t indent func argtup ++ "\x7b".toList) :: declarations t indent func := rfl
  obtain ⟨closers, hclosers, hclose⟩ :=
    hready.closeBlocks_of_none true hhead hcpp hown
  have hfinish : s.finish t indent line false =
      { s.define t indent func argtup with
        indentStack := indent :: below
        cppLines := s.cppLines ++ (closers ++ (prototype t indent func argtup ++ "\x7b".toList) ::
          declarations t indent func)
        prevIndent := indent
        prevLine := rewriteStatement func indent
          (tie (prototype t indent func argtup ++ "\x7b".toList)) } := by
    have hfunc : (s.define t indent func argtup).currentFunc = func := rfl
    rw [finish, hbody]
    simp only [hfunc, hclose, if_true]
  rw [hfinish]
  refine ⟨⟨fileText s.cppLines ++ fileText closers, ?_, List.prefix_append ..,
    nesting_closers hd hclosers⟩, rfl, rfl, rfl⟩
  rw [fileText_append, fileText_append, List.append_assoc]

end Emission
end Osh.Py2Cpp
