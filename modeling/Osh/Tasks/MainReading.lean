import Mathlib.Tactic.IntervalCases
import Osh.Tasks.GeneratedProgram
import Osh.Tasks.MainFunction

/-!
# The generated `main`, read

The output for a list of tasks is read as the program that it should be: line by line the
statements of `main` are those that fill the tables and run the loops, and the functions are
those for the lines.

## Main definitions

* `Task.block`: the code of a task in `main`.
* `programOf`: the program for a list of tasks.

## Main results

* `readMainLine_stmt`, `readMainLine_label`: how a line is read.
* `read_generateTaskCode`, `read_functionDefinitions`: the code and the functions of a task.
-/
namespace Osh.Tasks
open Regex

variable {t : Task} {ts : List Task} {indent task w rest : Text}

/-! ## Names -/

theorem isWord_of_isAlphanum {c : Char} (h : c.isAlphanum = true) : isWord c = true := by
  simp [isWord, h]

theorem toNat_of_isLower {c : Char} (h : c.isLower = true) : 97 ≤ c.toNat ∧ c.toNat ≤ 122 := by
  have hletter : (decide (c.val ≥ 'a'.val) && decide (c.val ≤ 'z'.val)) = true := h
  simpa [UInt32.le_iff_toNat_le] using hletter

/-- The upper case of a small letter is a letter. -/
theorem isWord_upper {c : Char} (h : c.isLower = true) :
    isWord (Char.ofNat (c.toNat - 0x20)) = true := by
  have hrange := toNat_of_isLower h
  generalize c.toNat = n at hrange ⊢
  obtain ⟨hlow, hhigh⟩ := hrange
  interval_cases n <;> decide

/-- The upper case of a character of a name in C is one. -/
theorem isWord_ucChar {c x : Char} (h : c.isAlphanum = true ∨ c = '_') (hx : x ∈ ucChar c) :
    isWord x = true := by
  have hval : c.val.toNat < 0x80 := by
    rcases h with h | rfl
    · have hchar : ((decide (c.val ≥ 'A'.val ∧ c.val ≤ 'Z'.val) ||
          (decide (c.val ≥ 'a'.val) && decide (c.val ≤ 'z'.val))) ||
          (decide (c.val ≥ '0'.val) && decide (c.val ≤ '9'.val))) = true := h
      simp only [Bool.or_eq_true, Bool.and_eq_true, decide_eq_true_eq, ge_iff_le,
        UInt32.le_iff_toNat_le] at hchar
      have hZ : 'Z'.val.toNat = 90 := rfl
      have hz : 'z'.val.toNat = 122 := rfl
      have h9 : '9'.val.toNat = 57 := rfl
      omega
    · decide
  have hne : c.val ≠ 0xB5 ∧ c.val ≠ 0xDF ∧ c.val ≠ 0xFF := by
    refine ⟨?_, ?_, ?_⟩ <;> (intro heq; simp [heq] at hval)
  rw [ucChar, if_neg hne.1, if_neg hne.2.1, if_neg hne.2.2] at hx
  split at hx
  next hlower =>
    obtain rfl := List.mem_singleton.mp hx
    rcases hlower with hlower | ⟨hrange, -, -⟩
    · exact isWord_upper hlower
    · simp only [UInt32.le_iff_toNat_le] at hrange
      have hle : 0xE0 ≤ c.val.toNat := hrange
      omega
  next =>
    obtain rfl := List.mem_singleton.mp hx
    rcases h with h | rfl
    · exact isWord_of_isAlphanum h
    · decide

theorem IsIdentifier.isWord_uc (h : IsIdentifier task) : ∀ x ∈ uc task, isWord x = true := by
  intro x hx
  obtain ⟨c, hc, hx⟩ := List.mem_flatMap.mp hx
  exact isWord_ucChar (h.2.2 c hc) hx

theorem isWord_append {v : Text} (hv : v.all isWord = true) (hw : ∀ x ∈ w, isWord x = true) :
    ∀ x ∈ v ++ w, isWord x = true := by
  intro x hx
  exact (List.mem_append.mp hx).elim (List.all_eq_true.mp hv x) (hw x)

theorem isWord_ninstrsVar (h : IsIdentifier task) : ∀ x ∈ ninstrsVar task, isWord x = true :=
  isWord_append rfl h.isWord_uc

theorem isWord_callLabel (h : IsIdentifier task) : ∀ x ∈ callLabel task, isWord x = true :=
  isWord_append rfl h.isWord_uc

theorem isWord_endLabel (h : IsIdentifier task) : ∀ x ∈ endLabel task, isWord x = true :=
  isWord_append rfl h.isWord_uc

theorem isWord_instrsVar (h : IsName task) : ∀ x ∈ instrsVar task, isWord x = true := by
  have hvar : "_instrs".toList.all isWord = true := rfl
  intro x hx
  exact (List.mem_append.mp hx).elim (h.2 x) (List.all_eq_true.mp hvar x)

/-- A table is not called like a word of C. -/
theorem instrsVar_ne (task : Text) (h : w.contains '_' = false) : instrsVar task ≠ w := by
  rintro rfl
  have hmem : '_' ∈ instrsVar task := List.mem_append_right _ (List.mem_cons_self ..)
  rw [List.contains_iff_mem.mpr hmem] at h
  cases h

/-! ## Lines of `main` -/

theorem blank_of_all (h : w.all isBlank = true) : Blank w := List.all_eq_true.mp h

theorem not_isBlank_of_isWord {c : Char} (h : isWord c = true) : isBlank c = false := by
  cases hblank : isBlank c with
  | false => rfl
  | true =>
      rw [isWord_of_isBlank hblank] at h
      cases h

/-- White space in front of a word is skipped, and the line is no comment. -/
theorem dropWhile_indent (rest : Text) (hindent : Blank indent) (hne : w ≠ [])
    (hw : ∀ x ∈ w, isWord x = true) : (indent ++ (w ++ rest)).dropWhile isBlank = w ++ rest ∧
      ¬ (w ++ rest = [] ∨ "//".toList.isPrefixOf (w ++ rest) = true) := by
  obtain ⟨c, w, rfl⟩ := List.exists_cons_of_ne_nil hne
  have hc : isWord c = true := hw c (List.mem_cons_self ..)
  refine ⟨dropWhile_append_of_all hindent (not_isBlank_of_isWord hc), ?_⟩
  rintro (hnil | hslash)
  · cases hnil
  · obtain rfl : '/' = c := (List.cons_prefix_cons.mp (List.isPrefixOf_iff_prefix.mp hslash)).1
    exact absurd hc (by decide)

/-- A line without a label. -/
theorem readMainLine_stmt (hindent : Blank indent) (hne : w ≠ []) (hw : ∀ x ∈ w, isWord x = true)
    (hrest : rest.head?.any isWord = false) (hcolon : rest.head? ≠ some ':') :
    readMainLine (indent ++ (w ++ rest)) = (readMainStmt (w ++ rest)).map fun s => [s] := by
  obtain ⟨hdrop, hcode⟩ := dropWhile_indent rest hindent hne hw
  have hstrip : strip ":".toList rest = none := by
    refine if_neg fun hprefix => hcolon ?_
    obtain ⟨u, rfl⟩ := List.isPrefixOf_iff_prefix.mp hprefix
    rfl
  unfold readMainLine
  rw [hdrop]
  simp only [if_neg hcode, dropWhile_append_of_all hw hrest, hstrip]
  cases readMainStmt (w ++ rest) <;> rfl

/-- A label, alone or before a statement. -/
theorem readMainLine_label (rest : Text) (hne : w ≠ []) (hw : ∀ x ∈ w, isWord x = true) :
    readMainLine (w ++ ':' :: rest) =
      if rest.dropWhile isBlank = [] then some [.label w]
      else (readMainStmt (rest.dropWhile isBlank)).map fun s => [.label w, s] := by
  have hindent : Blank [] := fun x hx => absurd hx List.not_mem_nil
  obtain ⟨hdrop, hcode⟩ := dropWhile_indent (':' :: rest) hindent hne hw
  have hcolon : (':' :: rest).head?.any isWord = false := by
    simp [isWord]
  have hstrip : strip ":".toList (':' :: rest) = some rest := strip_append (w := [':'])
  rw [List.nil_append] at hdrop
  unfold readMainLine
  rw [hdrop]
  simp only [if_neg hcode, dropWhile_append_of_all hw hcolon, takeWhile_append_of_all hw hcolon,
    hstrip]
  split
  · rfl
  · cases readMainStmt (rest.dropWhile isBlank) <;> rfl

theorem readMainStmt_eq (hw : ∀ x ∈ w, isWord x = true) (hrest : rest.head?.any isWord = false) :
    readMainStmt (w ++ rest) = readByWord w rest := by
  rw [readMainStmt, takeWhile_append_of_all hw hrest, dropWhile_append_of_all hw hrest]

theorem readTarget_append (hw : ∀ x ∈ w, isWord x = true) :
    readTarget (w ++ ";".toList) = some w := by
  have hsemi : ";".toList.head?.any isWord = false := rfl
  rw [readTarget, dropWhile_append_of_all hw hsemi, takeWhile_append_of_all hw hsemi, if_pos rfl]

theorem readMainLine_tableEntry (htask : IsName task) (id : ℕ) :
    readMainLine (tableEntry task id) =
      some [.entry (instrsVar task) id (funcName task id)] := by
  have hline : tableEntry task id = "    ".toList ++ (instrsVar task ++ ('[' :: (natText id ++
      ("]=".toList ++ (funcName task id ++ ";".toList))))) := by
    simp [tableEntry, instrsVar]
  have hne : instrsVar task ≠ [] := by
    simp [instrsVar]
  have hopen : ('[' :: (natText id ++ ("]=".toList ++ (funcName task id ++ ";".toList)))).head?.any
      isWord = false := by
    simp [isWord]
  have hpc : strip "[pc]();".toList ('[' :: (natText id ++ ("]=".toList ++ (funcName task id ++
      ";".toList)))) = none := by
    obtain ⟨d, ds, hd⟩ : ∃ d ds, natText id = d :: ds :=
      List.exists_cons_of_ne_nil Nat.toDigits_ne_nil
    have hdigit : d.isDigit = true := isDigit_of_mem_natText id d (hd ▸ List.mem_cons_self ..)
    refine if_neg fun hprefix => ?_
    rw [hd, List.isPrefixOf_iff_prefix] at hprefix
    obtain ⟨-, hprefix⟩ := List.cons_prefix_cons.mp hprefix
    obtain rfl : 'p' = d := (List.cons_prefix_cons.mp hprefix).1
    exact absurd hdigit (by decide)
  have hstore : readStore (instrsVar task) ('[' :: (natText id ++ ("]=".toList ++
      (funcName task id ++ ";".toList)))) =
        some (.entry (instrsVar task) id (funcName task id)) := by
    have hfunc : ∀ x ∈ funcName task id, isWord x = true := isWord_funcName htask id
    have hsemi : ";".toList.head?.any isWord = false := rfl
    have hnat : readNat (natText id ++ ("]=".toList ++ (funcName task id ++ ";".toList))) =
        some (id, "]=".toList ++ (funcName task id ++ ";".toList)) := readNat_natText (by simp)
    have hstrip : strip "[".toList ('[' :: (natText id ++ ("]=".toList ++ (funcName task id ++
        ";".toList)))) = some (natText id ++ ("]=".toList ++ (funcName task id ++ ";".toList))) :=
      strip_append (w := ['['])
    rw [readStore, hstrip, Option.bind_eq_bind, Option.bind_some, hnat, Option.bind_eq_bind,
      Option.bind_some]
    dsimp only
    rw [strip_append, Option.bind_some, dropWhile_append_of_all hfunc hsemi,
      takeWhile_append_of_all hfunc hsemi, if_pos rfl]
  rw [hline, readMainLine_stmt (blank_of_all rfl) hne (isWord_instrsVar htask) hopen (by simp),
    readMainStmt_eq (isWord_instrsVar htask) hopen, readByWord,
    if_neg (instrsVar_ne task rfl), if_neg (instrsVar_ne task rfl),
    if_neg (instrsVar_ne task rfl), hpc]
  simp only [hstore, Option.some_or, Option.map_some]

theorem readMainLine_callLine (htask : IsName task) (hident : IsIdentifier task) :
    readMainLine (callLine task) = some [.label (callLabel task), .call (instrsVar task)] := by
  have hline : callLine task = callLabel task ++ ':' :: (" ".toList ++ (instrsVar task ++
      "[pc]();       ".toList)) := by
    simp [callLine]
  have hlabel : callLabel task ≠ [] := by
    simp [callLabel]
  have hne : instrsVar task ≠ [] := by
    simp [instrsVar]
  have hindent : Blank " ".toList := blank_of_all rfl
  have hdrop := (dropWhile_indent "[pc]();       ".toList hindent hne (isWord_instrsVar htask)).1
  have hnil : instrsVar task ++ "[pc]();       ".toList ≠ [] := by
    simp [instrsVar]
  have hstrip : strip "[pc]();".toList "[pc]();       ".toList = some "       ".toList := rfl
  rw [hline, readMainLine_label _ hlabel (isWord_callLabel hident), hdrop, if_neg hnil,
    readMainStmt_eq (isWord_instrsVar htask) rfl, readByWord,
    if_neg (instrsVar_ne task rfl), if_neg (instrsVar_ne task rfl),
    if_neg (instrsVar_ne task rfl), hstrip]
  rfl

theorem readMainLine_testLine (hident : IsIdentifier task) :
    readMainLine (testLine task) = some [.ifPc (ninstrsVar task) (endLabel task)] := by
  have hline : testLine task = "      ".toList ++ ("if".toList ++ (" (pc==".toList ++
      (ninstrsVar task ++ (") goto ".toList ++ (endLabel task ++ ";".toList))))) := by
    unfold testLine
    simp
  have hopen : (" (pc==".toList ++ (ninstrsVar task ++ (") goto ".toList ++ (endLabel task ++
      ";".toList)))).head?.any isWord = false := by
    simp [isWord]
  have hclose : (") goto ".toList ++ (endLabel task ++ ";".toList)).head?.any isWord = false := by
    simp [isWord]
  have htest : readTest (" (pc==".toList ++ (ninstrsVar task ++ (") goto ".toList ++
      (endLabel task ++ ";".toList)))) = some (.ifPc (ninstrsVar task) (endLabel task)) := by
    rw [readTest, strip_append, Option.bind_eq_bind, Option.bind_some,
      dropWhile_append_of_all (isWord_ninstrsVar hident) hclose, strip_append,
      Option.bind_some, readTarget_append (isWord_endLabel hident),
      takeWhile_append_of_all (isWord_ninstrsVar hident) hclose]
    rfl
  have hif : "if".toList.all isWord = true := rfl
  have hne : "if".toList ≠ [] := List.cons_ne_nil _ _
  have hreturn : "if".toList ≠ "return".toList := fun h =>
    absurd (List.cons.inj h).1 (by decide)
  have hgoto : "if".toList ≠ "goto".toList := fun h =>
    absurd (List.cons.inj h).1 (by decide)
  rw [hline, readMainLine_stmt (blank_of_all rfl) hne (List.all_eq_true.mp hif)
    hopen (by simp), readMainStmt_eq (List.all_eq_true.mp hif) hopen,
    readByWord, if_neg hreturn, if_neg hgoto, if_pos rfl, htest]
  rfl

theorem readMainLine_loopLine (hident : IsIdentifier task) :
    readMainLine (loopLine task) = some [.goto (callLabel task)] := by
  have hline : loopLine task = "      ".toList ++ ("goto".toList ++ (" ".toList ++
      (callLabel task ++ ";".toList))) := by
    unfold loopLine
    simp
  have hopen : (" ".toList ++ (callLabel task ++ ";".toList)).head?.any isWord = false := by
    simp [isWord]
  have hgoto : "goto".toList.all isWord = true := rfl
  have hne : "goto".toList ≠ [] := List.cons_ne_nil _ _
  have hreturn : "goto".toList ≠ "return".toList := fun h =>
    absurd (List.cons.inj h).1 (by decide)
  rw [hline, readMainLine_stmt (blank_of_all rfl) hne (List.all_eq_true.mp hgoto)
    hopen (by simp), readMainStmt_eq (List.all_eq_true.mp hgoto) hopen,
    readByWord, if_neg hreturn, if_pos rfl, strip_append, Option.bind_some,
    readTarget_append (isWord_callLabel hident)]
  rfl

theorem readMainLine_endLabel (hident : IsIdentifier task) :
    readMainLine (endLabel task ++ ":".toList) = some [.label (endLabel task)] := by
  have hlabel : endLabel task ≠ [] := by
    simp [endLabel]
  exact readMainLine_label [] hlabel (isWord_endLabel hident)

/-! ## All lines -/

section
variable {α β : Type} {read : Text → Option (List α)} {lines : List Text} {as bs : List α}

theorem readAll_cons {line : Text} (hline : read line = some as)
    (h : readAll read lines = some bs) : readAll read (line :: lines) = some (as ++ bs) := by
  obtain ⟨parts, hparts, rfl⟩ := Option.map_eq_some_iff.mp h
  simp [readAll, hline, hparts]

theorem readAll_append {lines' : List Text} (h : readAll read lines = some as)
    (h' : readAll read lines' = some bs) : readAll read (lines ++ lines') = some (as ++ bs) := by
  obtain ⟨parts, hparts, rfl⟩ := Option.map_eq_some_iff.mp h
  obtain ⟨parts', hparts', rfl⟩ := Option.map_eq_some_iff.mp h'
  simp [readAll, List.mapM_append, hparts, hparts']

theorem readAll_flatMap {xs : List β} {f : β → List Text} {g : β → List α}
    (h : ∀ x ∈ xs, readAll read (f x) = some (g x)) :
    readAll read (xs.flatMap f) = some (xs.flatMap g) := by
  induction xs with
  | nil => rfl
  | cons x xs ih =>
      rw [List.flatMap_cons, List.flatMap_cons]
      exact readAll_append (h x (List.mem_cons_self ..))
        (ih fun y hy => h y (List.mem_cons_of_mem x hy))

/-- Lines of one statement each. -/
theorem readAll_map {xs : List β} {f : β → Text} {g : β → α}
    (h : ∀ x ∈ xs, read (f x) = some [g x]) : readAll read (xs.map f) = some (xs.map g) := by
  rw [List.map_eq_flatMap, List.map_eq_flatMap]
  refine readAll_flatMap fun x hx => ?_
  simp [readAll, h x hx]

end

/-! ## The program -/

/-- The functions of a task in its table. -/
def Task.entries (t : Task) : List MainStmt :=
  (List.range t.lines.length).map fun id => .entry (instrsVar t.name) id (funcName t.name id)

/-- The loop that calls them. -/
def Task.loop (t : Task) : List MainStmt :=
  [.label (callLabel t.name), .call (instrsVar t.name),
    .ifPc (ninstrsVar t.name) (endLabel t.name), .goto (callLabel t.name),
    .label (endLabel t.name)]

def Task.block (t : Task) : List MainStmt := t.entries ++ .assign "pc".toList 0 :: t.loop

/-- The program for a list of tasks, without variables. -/
def programOf (ts : List Task) : Program where
  globals := []
  main := [.assign "system_timer".toList 0, .assign "blocking_timer".toList 0] ++
    ts.flatMap Task.block ++ [.ret]
  defines := ts.map fun t => (ninstrsVar t.name, t.lines.length)
  tables := ts.map fun t => (instrsVar t.name, ninstrsVar t.name)
  funcs := ts.flatMap fun t => t.generated.funcs

/-- What the script prints for a list of tasks. -/
def outputOf (outside : List Text) (globals : List Global) (ts : List Task) : Output :=
  output outside globals (ts.map fun t => (t.name, t.source))

theorem length_source (t : Task) : t.source.length = t.lines.length := List.length_map _

theorem read_generateTaskCode (h : IsIdentifier t.name) :
    readAll readMainLine (generateTaskCode t.name t.source) = some t.block := by
  have hblank : readMainLine [] = some [] := rfl
  have hpc : readMainLine "    pc=0;".toList = some [.assign "pc".toList 0] := rfl
  have hcomment : readMainLine "      // return 0;".toList = some [] := rfl
  have hentries : readAll readMainLine (taskInstrs t.name t.source) = some t.entries := by
    rw [taskInstrs, length_source]
    exact readAll_map fun id _ => readMainLine_tableEntry t.isName id
  have hloop : readAll readMainLine ["    pc=0;".toList, callLine t.name, testLine t.name,
      loopLine t.name, endLabel t.name ++ ":".toList, "      // return 0;".toList] =
        some (.assign "pc".toList 0 :: t.loop) :=
    readAll_cons hpc (readAll_cons (readMainLine_callLine t.isName h)
      (readAll_cons (readMainLine_testLine h) (readAll_cons (readMainLine_loopLine h)
        (readAll_cons (readMainLine_endLabel h) (readAll_cons hcomment rfl)))))
  have hall := readAll_cons hblank (readAll_append hentries hloop)
  exact hall

theorem readDefine_defineLine (h : IsIdentifier task) (n : ℕ) :
    readDefine (defineLine task n) = some (ninstrsVar task, n) := by
  have hspace : (" ".toList ++ natText n).head?.any isWord = false := by
    simp [isWord]
  have hnat : readNat (natText n) = some (n, []) := by
    have hread : readNat (natText n ++ []) = some (n, []) := readNat_natText rfl
    rwa [List.append_nil] at hread
  unfold readDefine defineLine
  rw [strip_append, Option.bind_eq_bind, Option.bind_some,
    dropWhile_append_of_all (isWord_ninstrsVar h) hspace, strip_append, Option.bind_eq_bind,
    Option.bind_some, hnat, Option.bind_some]
  dsimp only
  rw [if_pos rfl, takeWhile_append_of_all (isWord_ninstrsVar h) hspace]

theorem readTable_tableLine (hname : IsName task) (h : IsIdentifier task) :
    readTable (tableLine task) = some (instrsVar task, ninstrsVar task) := by
  have hopen : ("[".toList ++ (ninstrsVar task ++ "]) (void);".toList)).head?.any isWord =
      false := by
    simp [isWord]
  have hclose : "]) (void);".toList.head?.any isWord = false := rfl
  unfold readTable tableLine
  rw [strip_append, Option.bind_eq_bind, Option.bind_some,
    dropWhile_append_of_all (isWord_instrsVar hname) hopen, strip_append, Option.bind_some,
    dropWhile_append_of_all (isWord_ninstrsVar h) hclose, if_pos rfl,
    takeWhile_append_of_all (isWord_instrsVar hname) hopen,
    takeWhile_append_of_all (isWord_ninstrsVar h) hclose]

/-- A line that begins with another character does not begin with the text. -/
theorem strip_of_head {v line : Text} {c : Char} (hline : line.head? = some c)
    (hv : v.head?.any (· ≠ c) = true) : strip v line = none := by
  obtain ⟨x, v, rfl⟩ : ∃ x u, v = x :: u := by
    cases v with
    | nil => cases hv
    | cons x v => exact ⟨x, v, rfl⟩
  refine if_neg fun hprefix => of_decide_eq_true hv ?_
  obtain ⟨u, rfl⟩ := List.isPrefixOf_iff_prefix.mp hprefix
  exact Option.some.inj hline

/-- A line that begins with another character is no definition. -/
theorem readDefine_of_head {line : Text} {c : Char} (hline : line.head? = some c) (hc : c ≠ '#') :
    readDefine line = none := by
  have hstrip : strip "#define ".toList line = none := strip_of_head hline (decide_eq_true hc.symm)
  unfold readDefine
  rw [hstrip]
  rfl

/-- Nor is it the declaration of a table. -/
theorem readTable_of_head {line : Text} {c : Char} (hline : line.head? = some c) (hc : c ≠ 'v') :
    readTable line = none := by
  have hstrip : strip "void (*".toList line = none := strip_of_head hline (decide_eq_true hc.symm)
  unfold readTable
  rw [hstrip]
  rfl

/-- The name of a function is no parenthesis. -/
theorem readTable_prototype (h : IsName task) (id : ℕ) : readTable (prototype task id) = none := by
  obtain ⟨c, cs, hcs⟩ := List.exists_cons_of_ne_nil h.1
  have hc : isWord c = true := h.2 c (hcs ▸ List.mem_cons_self ..)
  have hstrip : strip "void (*".toList (prototype task id) = none := by
    refine if_neg fun hprefix => ?_
    have hvoid : "void (*".toList = "void ".toList ++ "(*".toList := rfl
    rw [List.isPrefixOf_iff_prefix, prototype, hvoid, List.prefix_append_right_inj, funcName, hcs]
      at hprefix
    obtain rfl : '(' = c := (List.cons_prefix_cons.mp hprefix).1
    exact absurd hc (by decide)
  unfold readTable
  rw [hstrip]
  rfl

theorem readDefine_declarations (h : IsIdentifier task) (lines : List Text) :
    (declarations task lines).filterMap readDefine = [(ninstrsVar task, lines.length)] := by
  have hcomment : readDefine ("// Declarations of per-line functions for ".toList ++ task) =
      none := readDefine_of_head rfl (by decide : '/' ≠ '#')
  have htable : readDefine (tableLine task) = none :=
    readDefine_of_head rfl (by decide : 'v' ≠ '#')
  have hprototypes :
      ((List.range lines.length).map (prototype task)).filterMap readDefine = [] := by
    rw [List.filterMap_map, List.filterMap_eq_nil_iff]
    exact fun id _ => readDefine_of_head rfl (by decide : 'v' ≠ '#')
  have hblank : readDefine [] = none := rfl
  rw [declarations, List.filterMap_append, List.filterMap_append, hprototypes,
    List.filterMap_cons_none hcomment, List.filterMap_cons_some (readDefine_defineLine h _),
    List.filterMap_cons_none htable, List.filterMap_cons_none hblank]
  rfl

theorem readTable_declarations (hname : IsName task) (h : IsIdentifier task) (lines : List Text) :
    (declarations task lines).filterMap readTable = [(instrsVar task, ninstrsVar task)] := by
  have hcomment : readTable ("// Declarations of per-line functions for ".toList ++ task) =
      none := readTable_of_head rfl (by decide : '/' ≠ 'v')
  have hdefine : readTable (defineLine task lines.length) = none :=
    readTable_of_head rfl (by decide : '#' ≠ 'v')
  have hprototypes :
      ((List.range lines.length).map (prototype task)).filterMap readTable = [] := by
    rw [List.filterMap_map, List.filterMap_eq_nil_iff]
    exact fun id _ => readTable_prototype hname id
  have hblank : readTable [] = none := rfl
  rw [declarations, List.filterMap_append, List.filterMap_append, hprototypes,
    List.filterMap_cons_none hcomment, List.filterMap_cons_none hdefine,
    List.filterMap_cons_some (readTable_tableLine hname h), List.filterMap_cons_none hblank]
  rfl

/-! ## The functions -/

theorem readFunctionLine_makeFunc (task line : Text) (id : ℕ) :
    readFunctionLine (makeFunc task line id) = (readFunc (makeFunc task line id)).map ([·]) := by
  have hslash : "//".toList.isPrefixOf (makeFunc task line id) = false := rfl
  rw [readFunctionLine, hslash]
  cases readFunc (makeFunc task line id) <;> rfl

/-- The functions for the lines, as they are read for one task. -/
theorem readAll_perLineFunctions (task : Text) (lines : List Text) :
    readAll readFunctionLine (perLineFunctions task lines) =
      (perLineFunctions task lines).mapM readFunc := by
  have hlines : ∀ line ∈ perLineFunctions task lines,
      readFunctionLine line = (readFunc line).map ([·]) := by
    intro line hline
    obtain ⟨⟨l, id⟩, -, rfl⟩ := List.mem_map.mp hline
    exact readFunctionLine_makeFunc ..
  generalize perLineFunctions task lines = fs at hlines
  induction fs with
  | nil => rfl
  | cons f fs ih =>
      have hf := hlines f (List.mem_cons_self ..)
      have hrest := ih fun line hline => hlines line (List.mem_cons_of_mem f hline)
      rw [List.mapM_cons, ← hrest, readAll, readAll, List.mapM_cons, hf]
      cases readFunc f with
      | none => rfl
      | some func => cases fs.mapM readFunctionLine <;> rfl

theorem mapM_readFunc_of_compile {g : Generated} (h : compile t.name t.source = some g) :
    (perLineFunctions t.name t.source).mapM readFunc = some g.funcs := by
  obtain ⟨table, -, h⟩ := Option.bind_eq_some_iff.mp h
  obtain ⟨funcs, hfuncs, h⟩ := Option.bind_eq_some_iff.mp h
  cases h
  exact hfuncs

theorem read_functionDefinitions (h : ∀ l ∈ t.lines, ¬ l.stmt.MentionsGoto) :
    readAll readFunctionLine (functionDefinitions t.name t.source) = some t.generated.funcs := by
  have hcomment : readFunctionLine ("// Generated per-line function code for ".toList ++ t.name) =
      some [] := rfl
  have hfuncs : readAll readFunctionLine (perLineFunctions t.name t.source) =
      some t.generated.funcs := by
    rw [readAll_perLineFunctions, mapM_readFunc_of_compile (Task.compile_eq h)]
  have hall := readAll_cons hcomment hfuncs
  exact hall

end Osh.Tasks
