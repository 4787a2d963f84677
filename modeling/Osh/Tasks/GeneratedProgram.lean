import Osh.Tasks.Rewriting

/-!
# The generated program

Read as C, the generated functions are the lines of the task, each in the place of its
own line. Two substitutions go wrong: a label on a plain statement brings a second
increment, and a condition that contains the letters goto is cut off there, which leaves
no C function.

## Main definitions

* `Stmt.MentionsGoto`: such a condition.
* `Task.generated`: the program that the script generates where there is none.
-/
namespace Osh.Tasks
open Regex

variable {t : Task} {l : Line} {i : ℕ}

/-- The letters goto are in the condition of a conditional jump. -/
def Stmt.MentionsGoto : Stmt → Prop
  | .ifGoto _ _ cond _ _ _ => "goto".toList <:+: cond
  | _ => False

instance : DecidablePred Stmt.MentionsGoto
  | .plain _ | .goto _ _ _ => inferInstanceAs (Decidable False)
  | .ifGoto _ _ _ _ _ _ => inferInstanceAs (Decidable (_ <:+: _))

/-! ## The generated program -/

/-- The body of the function for a line. -/
def Task.body (t : Task) (l : Line) : List CStmt :=
  match l.stmt with
  | .plain text =>
      (plainSegments text).map .plain ++
        List.replicate ((if l.label.isSome then 1 else 0) + 1) .incPc
  | .goto _ _ target => [.setPc (t.position target)]
  | .ifGoto _ _ cond _ _ target => [.branch cond (t.position target)]

/-- The program that the script generates for a task without such conditions. -/
def Task.generated (t : Task) : Generated where
  table := (List.range t.lines.length).map fun id => (id, funcName t.name id)
  funcs := t.lines.zipIdx.map fun (l, id) => (funcName t.name id, t.body l)
  ninstrs := t.lines.length

theorem isWord_of_isDigit {x : Char} (h : x.isDigit = true) : isWord x = true := by
  simp [isWord, Char.isAlphanum, h]

theorem isWord_funcName {task : Text} (htask : IsName task) (id : ℕ) :
    ∀ x ∈ funcName task id, isWord x = true := by
  intro x hx
  have hline : "_line".toList.all isWord = true := by decide +kernel
  unfold funcName at hx
  rw [List.mem_append, List.mem_append] at hx
  rcases hx with (hx | hx) | hx
  · exact htask.2 x hx
  · exact List.all_eq_true.mp hline x hx
  · exact isWord_of_isDigit (isDigit_of_mem_natText id x hx)

theorem funcName_injective (task : Text) : Function.Injective (funcName task) := by
  intro i j h
  have hnat : natText i = natText j := List.append_cancel_left h
  calc
    i = Nat.ofDigitChars 10 (natText i) 0 := Nat.ofDigitChars_ten_toDigits.symm
    _ = Nat.ofDigitChars 10 (natText j) 0 := by rw [hnat]
    _ = j := Nat.ofDigitChars_ten_toDigits

/-- Each entry of the table holds the function of its own line. -/
theorem readEntry_tableEntry {task : Text} (htask : IsName task) (id : ℕ) :
    readEntry task (tableEntry task id) = some (id, funcName task id) := by
  have hentry : tableEntry task id = ("    ".toList ++ (task ++ "_instrs[".toList)) ++
      (natText id ++ ("]=".toList ++ (funcName task id ++ ";".toList))) := by
    unfold tableEntry
    simp
  have hnat : readNat (natText id ++ ("]=".toList ++ (funcName task id ++ ";".toList))) =
      some (id, "]=".toList ++ (funcName task id ++ ";".toList)) := readNat_natText (by simp)
  have hdrop : (funcName task id ++ ";".toList).dropWhile isWord = ";".toList :=
    dropWhile_append_of_all (isWord_funcName htask id) (by decide)
  have htake : (funcName task id ++ ";".toList).takeWhile isWord = funcName task id :=
    takeWhile_append_of_all (isWord_funcName htask id) (by decide)
  rw [hentry, readEntry, strip_append, Option.bind_eq_bind, Option.bind_some, hnat,
    Option.bind_eq_bind, Option.bind_some]
  dsimp only
  rw [strip_append, Option.bind_some, hdrop, htake]
  rfl

theorem readFunc_makeFunc {task line : Text} (htask : IsName task) (id : ℕ) :
    readFunc (makeFunc task line id) =
      (readBody line).map fun body => (funcName task id, body) := by
  have hopen : ("(void) \x7b".toList ++ (line ++ ['\x7d'])).head?.any isWord = false := rfl
  have hdrop : (funcName task id ++ ("(void) \x7b".toList ++ (line ++ ['\x7d']))).dropWhile isWord =
      "(void) \x7b".toList ++ (line ++ ['\x7d']) :=
    dropWhile_append_of_all (isWord_funcName htask id) hopen
  have htake : (funcName task id ++ ("(void) \x7b".toList ++ (line ++ ['\x7d']))).takeWhile isWord =
      funcName task id := takeWhile_append_of_all (isWord_funcName htask id) hopen
  have hlast : (line ++ ['\x7d']).getLast? = some '\x7d' := List.getLast?_concat
  rw [readFunc, makeFunc, strip_append, Option.bind_eq_bind, Option.bind_some, hdrop, strip_append,
    Option.bind_eq_bind, Option.bind_some, if_pos hlast, List.dropLast_concat, htake]
  cases readBody line <;> rfl

theorem plainSegments_eq {text : Text} (h : IsPlain text) :
    Reader.start.read text = some ⟨.top, [], plainSegments text⟩ ∧ plainSegments text ≠ [] ∧
      ∀ seg ∈ plainSegments text, classify seg = some (.plain seg) := by
  obtain ⟨⟨lex, current, done⟩, hread, rfl, rfl, hne, hplain⟩ := h
  have hsegs : plainSegments text = done := by
    rw [plainSegments, Option.mem_def.mp hread]
    rfl
  exact ⟨hsegs ▸ hread, hsegs ▸ hne, hsegs ▸ hplain⟩

theorem Task.labels_eq (hl : l ∈ t.lines) {target : Text} (htarget : target ∈ l.stmt.target?) :
    labelsToLineNumbers 0 (fun _ => none) t.source target = some (t.position target) := by
  have hlabels := labelsToLineNumbers_of_count 0 (fun _ => none) t.valid
    (t.defined l hl target htarget)
  rwa [Nat.zero_add] at hlabels

/-- The function for a line is read as the body that it should have. -/
theorem Task.readBody_rewriteLine (hl : l ∈ t.lines) (hcond : ¬ l.stmt.MentionsGoto) :
    readBody (rewriteLine (labelsToLineNumbers 0 (fun _ => none) t.source) l.text) =
      some (t.body l) := by
  have hvalid : l.Valid := t.valid l hl
  cases hstmt : l.stmt with
  | plain text =>
      have hplain : IsPlain text := by
        have hstmtValid := hvalid.1
        rw [hstmt] at hstmtValid
        exact hstmtValid.1
      obtain ⟨hread, -, hsegs⟩ := plainSegments_eq hplain
      have hbody := readBody_plain hread hsegs hvalid.2.1 (if l.label.isSome then 1 else 0)
      rw [rewriteLine_plain hvalid hstmt, Task.body, hstmt]
      dsimp only
      rw [← hbody, Line.appended]
      cases l.label <;> simp
  | goto indent gap target =>
      have htarget : target ∈ l.stmt.target? := by simp [hstmt, Stmt.target?]
      rw [rewriteLine_goto hvalid hstmt, Task.labels_eq hl htarget, Task.body, hstmt]
      exact readBody_setText _
  | ifGoto indent gap₁ cond gap₂ gap₃ target =>
      have htarget : target ∈ l.stmt.target? := by simp [hstmt, Stmt.target?]
      have hstmtValid : (Stmt.ifGoto indent gap₁ cond gap₂ gap₃ target).Valid := hstmt ▸ hvalid.1
      obtain ⟨hindent, hgap₁, ⟨-, -, hbalanced, -⟩, hgap₂, -, -⟩ := hstmtValid
      have hnot : ¬ "goto".toList <:+: cond := by
        rw [hstmt] at hcond
        exact hcond
      rw [rewriteLine_ifGoto hvalid hstmt hnot, Task.labels_eq hl htarget, Task.body, hstmt]
      exact readBody_branch hindent hgap₁ hbalanced hgap₂.2 _

theorem Task.perLineFunctions_source (t : Task) :
    perLineFunctions t.name t.source = t.lines.zipIdx.map fun (l, id) =>
      makeFunc t.name (rewriteLine (labelsToLineNumbers 0 (fun _ => none) t.source) l.text) id := by
  unfold perLineFunctions Task.source
  rw [List.zipIdx_map, List.map_map]
  apply List.map_congr_left
  rintro ⟨l, id⟩ _
  simp

/-- The script generates what it should where no condition is cut short. -/
theorem Task.compile_eq (hcond : ∀ l ∈ t.lines, ¬ l.stmt.MentionsGoto) :
    compile t.name t.source = some t.generated := by
  have htable : (taskInstrs t.name t.source).mapM (readEntry t.name) =
      some ((List.range t.lines.length).map fun id => (id, funcName t.name id)) := by
    have hlength : t.source.length = t.lines.length := List.length_map _
    rw [taskInstrs, hlength, List.mapM_map]
    exact mapM_eq_some fun id _ => readEntry_tableEntry t.isName id
  have hfuncs : (perLineFunctions t.name t.source).mapM readFunc =
      some (t.lines.zipIdx.map fun (l, id) => (funcName t.name id, t.body l)) := by
    rw [Task.perLineFunctions_source, List.mapM_map]
    apply mapM_eq_some
    rintro ⟨l, id⟩ hmem
    have hl : l ∈ t.lines := List.fst_mem_of_mem_zipIdx hmem
    rw [Function.comp_apply, readFunc_makeFunc t.isName, Task.readBody_rewriteLine hl (hcond l hl)]
    rfl
  rw [compile, htable, Option.bind_eq_bind, Option.bind_some, hfuncs]
  simp [Task.generated, Task.source]

/-- Where a condition is cut short it generates no C. -/
theorem Task.compile_eq_none (hl : l ∈ t.lines) (hcond : l.stmt.MentionsGoto) :
    compile t.name t.source = none := by
  have hvalid : l.Valid := t.valid l hl
  obtain ⟨id, hmem⟩ : ∃ id, (l, id) ∈ t.lines.zipIdx := by
    obtain ⟨id, hid⟩ := List.mem_iff_getElem?.mp hl
    exact ⟨id, List.mem_zipIdx_iff_getElem?.mpr hid⟩
  have hbody : readBody (rewriteLine (labelsToLineNumbers 0 (fun _ => none) t.source) l.text) =
      none := by
    cases hstmt : l.stmt with
    | plain text => simp [hstmt, Stmt.MentionsGoto] at hcond
    | goto indent gap target => simp [hstmt, Stmt.MentionsGoto] at hcond
    | ifGoto indent gap₁ cond gap₂ gap₃ target =>
        have hgoto : "goto".toList <:+: cond := by
          rw [hstmt] at hcond
          exact hcond
        have hstmtValid : (Stmt.ifGoto indent gap₁ cond gap₂ gap₃ target).Valid := hstmt ▸ hvalid.1
        obtain ⟨hindent, hgap₁, ⟨-, -, hbalanced, -⟩, -, -, -⟩ := hstmtValid
        obtain ⟨a, b, id, rfl, hid, hline⟩ := rewriteLine_cut
          (labelsToLineNumbers 0 (fun _ => none) t.source) hvalid hstmt hgoto
        have hif : Skipped "if".toList := skipped_of_all (by decide +kernel)
        have hfront : Skipped (indent ++ ("if".toList ++ gap₁)) :=
          Skipped.append (skipped_of_isBlank hindent)
            (Skipped.append hif (skipped_of_isBlank hgap₁))
        rw [hline]
        exact readBody_cut hfront hbalanced hid
  have hfuncs : (perLineFunctions t.name t.source).mapM readFunc = none := by
    rw [Task.perLineFunctions_source, List.mapM_map]
    apply mapM_eq_none hmem
    rw [Function.comp_apply, readFunc_makeFunc t.isName, hbody]
    rfl
  rw [compile, hfuncs]
  cases (taskInstrs t.name t.source).mapM (readEntry t.name) <;> rfl

/-- The table leads each line to its own function. -/
theorem Task.entry_generated (hl : t.lines[i]? = some l) :
    t.generated.entry i = some (t.body l) := by
  have hi : i < t.lines.length := (List.getElem?_eq_some_iff.mp hl).1
  have htable : t.generated.table.lookup i = some (funcName t.name i) := by
    exact lookup_map (fun id : ℕ => id) (funcName t.name) (List.mem_range.mpr hi) fun _ _ heq => heq
  have hfuncs : t.generated.funcs.lookup (funcName t.name i) = some (t.body l) := by
    have hmem : (l, i) ∈ t.lines.zipIdx := List.mem_zipIdx_iff_getElem?.mpr hl
    refine lookup_map (fun b : Line × ℕ => funcName t.name b.2) (fun b => t.body b.1) hmem ?_
    rintro ⟨k, j⟩ hk hkey
    obtain rfl : j = i := funcName_injective t.name hkey
    have hkl : t.lines[j]? = some k := List.mem_zipIdx_iff_getElem?.mp hk
    obtain rfl : k = l := Option.some.inj (hkl.symm.trans hl)
    rfl
  have hninstrs : i < t.generated.ninstrs := hi
  simp [Generated.entry, hninstrs, htable, hfuncs]

end Osh.Tasks
