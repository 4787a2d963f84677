import Osh.Tasks.Transformation

/-!
# The check for unique variables

The script ends with a message when a variable is declared that is there already. What it
compares is the variable that it finds on a line, and that is the name with its size: `int a;`
and `int a[4];` pass for two variables. Declarations outside the tasks it does not look at. On
a statement line that is taken for a declaration a variable is found, too, and in
`int a[N + 1];` it is `1]`; so two lines can have the same variable although no name is declared
twice.

## Main definitions

* `UniqueCheck`: the loop ends with a message exactly if a name is declared twice.
* `InputFile.names`: the names that are declared anywhere in a file.
* `InputFile.keys`: the variables that are found on the lines of its tasks.

## Main results

* `map_var_globalsOf_lines`: the keys of `%globals` are these.
* `uniqueCheck_iff`: when the check is right.
-/
namespace Osh.Tasks
open Regex

/-! ## What is compared -/

/-- The name of the task that a line opens, if it reads like `void name(void) \x7b`. -/
def openedTask (line : Text) : Option Text :=
  (search subStartPattern line).map fun (_, h) => h.groups.headD []

/-- The variable on a line, and whether the line is a simple declaration. -/
structure Key where
  simple : Bool
  var : Text
deriving DecidableEq, Repr

/-- What is found on a declaration. -/
def Declaration.key? (d : Declaration) : Option Key := (keyOf d.line).map (⟨decide d.IsSimple, ·⟩)

/-- What is found on a statement line, if a type name stands before white space. -/
def Statement.key? (st : Statement) : Option Key :=
  if MentionsType st.line then (keyOf st.line).map (⟨false, ·⟩) else none

/-- What is found on the lines of a task, in their order. A statement that reads like the opening
of a task changes the name of the task, and under `NO_TASK` nothing is looked for. -/
def keysOf (task : Text) : List BodyLine → List Key
  | [] => []
  | .declaration d :: body => (if task = NO_TASK then [] else d.key?.toList) ++ keysOf task body
  | .statement st :: body =>
      match openedTask st.line with
      | some name => keysOf name body
      | none => (if task = NO_TASK then [] else st.key?.toList) ++ keysOf task body

namespace InputFile

/-- What is found on the lines of the tasks. -/
def keys (f : InputFile) : List Key := f.tasks.flatMap fun t => keysOf t.name t.body

/-- The names that are declared in the file, inside the tasks and outside. -/
def names (f : InputFile) : List Text := (f.items.flatMap Item.declarations).map (·.name)

/-- The variables that are declared inside the tasks, as they are written. -/
def vars (f : InputFile) : List Text := f.declarations.map (·.var)

end InputFile

/-- The script dies in the loop if and only if two declarations have the same name. -/
def UniqueCheck (f : InputFile) : Prop :=
  (∃ e, readLines f.lines .start = .error e) ↔ ¬ f.names.Nodup

section
variable {f : InputFile} {s : Input} {items : List Item}

theorem currentTask_track_declaration (s : Input) (d : Declaration) :
    (track s d.line).currentTask = s.currentTask := by
  simp only [track, d.noStart, if_neg d.not_isSome_subEnd]
  split_ifs <;> rfl

theorem currentTask_track_statement (s : Input) (st : Statement) :
    (track s st.line).currentTask = (openedTask st.line).getD s.currentTask := by
  rw [track, openedTask]
  cases search subStartPattern st.line with
  | some result => rfl
  | none =>
      simp only [if_neg st.not_isSome_subEnd, Option.map_none, Option.getD_none]
      split_ifs <;> rfl

theorem map_var_globalOf_declaration (task : Text) (d : Declaration) :
    (globalOf task d.line).toList.map Global.var =
      (if task = NO_TASK then [] else d.key?.toList).map Key.var := by
  by_cases htask : task = NO_TASK
  · simp [globalOf, d.noStart, d.not_isSome_subEnd, htask]
  · rw [d.globalOf_line htask, if_neg htask, Declaration.global?, Declaration.key?]
    cases keyOf d.line <;> rfl

theorem map_var_globalOf_statement (task : Text) (st : Statement) :
    (globalOf task st.line).toList.map Global.var =
      (if task = NO_TASK ∨ (openedTask st.line).isSome then []
        else st.key?.toList).map Key.var := by
  rw [globalOf, openedTask]
  cases search subStartPattern st.line with
  | some result => simp
  | none =>
      by_cases htask : task = NO_TASK
      · simp [st.not_isSome_subEnd, htask]
      · have hkey := map_headD_varPattern st.oneLine
        by_cases htype : MentionsType st.line
        · have hsome := search_typePattern_iff.mpr htype
          rw [Statement.key?, if_pos htype, ← hkey]
          cases matchStart varPattern st.line <;> simp [st.not_isSome_subEnd, htask, hsome]
        · have hnone := (not_congr search_typePattern_iff).mpr htype
          simp [st.not_isSome_subEnd, htask, hnone, Statement.key?, htype]

/-- The lines between the opening and the closing of a task. -/
theorem map_var_globalsOf_body (s : Input) (body : List BodyLine) :
    (globalsOf s (body.map BodyLine.line)).map Global.var =
      (keysOf s.currentTask body).map Key.var := by
  induction body generalizing s with
  | nil => rfl
  | cons l body ih =>
      rw [List.map_cons, globalsOf, List.map_append, ih]
      cases l with
      | declaration d =>
          rw [BodyLine.line, map_var_globalOf_declaration, currentTask_track_declaration, keysOf,
            List.map_append]
      | statement st =>
          rw [BodyLine.line, map_var_globalOf_statement, currentTask_track_statement, keysOf]
          cases openedTask st.line <;> simp

theorem map_var_globalsOf_task (s : Input) (t : SourceTask) :
    (globalsOf s t.lines).map Global.var = (keysOf t.name t.body).map Key.var ∧
      (t.lines.foldl track s).currentTask = NO_TASK := by
  refine ⟨?_, ?_⟩
  · rw [SourceTask.lines, globalsOf, globalOf_header, globalsOf_append, Option.toList_none,
      List.nil_append, List.map_append, map_var_globalsOf_body, track_header]
    simp [globalsOf, globalOf_footer]
  · rw [SourceTask.lines, List.foldl_cons, List.foldl_append, List.foldl_cons, List.foldl_nil,
      track_footer]

theorem map_var_globalsOf_items (hs : s.currentTask = NO_TASK) :
    (globalsOf s (items.flatMap Item.lines)).map Global.var =
      ((items.filterMap Item.task?).flatMap fun t => keysOf t.name t.body).map Key.var := by
  induction items generalizing s with
  | nil => rfl
  | cons item items ih =>
      rw [List.flatMap_cons, globalsOf_append, List.map_append]
      obtain ⟨t, rfl⟩ | ⟨line, hline, hlines, htask⟩ := item.eq_task_or
      · obtain ⟨hkeys, hcurrent⟩ := map_var_globalsOf_task s t
        have htask : (Item.task t).task? = some t := rfl
        rw [Item.lines, hkeys, ih hcurrent, List.filterMap_cons_some htask, List.flatMap_cons,
          List.map_append]
      · obtain ⟨hcurrent, -, hglobals⟩ := track_outside hs hline
        rw [hlines, hglobals, List.filterMap_cons_none htask]
        exact ih hcurrent

/-- **The keys of `%globals`**, for any file. -/
theorem map_var_globalsOf_lines (f : InputFile) :
    (globalsOf .start f.lines).map Global.var = f.keys.map Key.var :=
  map_var_globalsOf_items rfl

theorem dies_iff (f : InputFile) :
    (∃ e, readLines f.lines .start = .error e) ↔ ¬ (f.keys.map Key.var).Nodup := by
  rw [← map_var_globalsOf_lines, ← readLines_ok_iff]
  cases readLines f.lines .start with
  | error e => exact iff_of_true ⟨e, rfl⟩ fun ⟨s, hs⟩ => by cases hs
  | ok s =>
      refine iff_of_false ?_ (not_not.mpr ⟨s, rfl⟩)
      rintro ⟨e, he⟩
      cases he

/-! ## Keys and names -/

/-- Inside the tasks there are some of all declarations. -/
theorem sublist_declarations (items : List Item) :
    ((items.filterMap Item.task?).flatMap SourceTask.declarations).Sublist
      (items.flatMap Item.declarations) := by
  induction items with
  | nil => exact List.Sublist.refl []
  | cons item items ih =>
      rw [List.flatMap_cons]
      cases item with
      | task t => exact (List.Sublist.refl _).append ih
      | _ => exact ih.trans (List.sublist_append_right ..)

/-- The names are parts of the variables. -/
theorem map_name_eq (f : InputFile) :
    f.declarations.map (·.name) = f.vars.map (List.takeWhile isWord) := by
  rw [InputFile.vars, List.map_map]
  exact List.map_congr_left fun d _ => d.takeWhile_var.symm

/-- Different names make different variables. -/
theorem nodup_vars (h : (f.declarations.map (·.name)).Nodup) : f.vars.Nodup := by
  rw [map_name_eq] at h
  exact h.of_map _

/-- What is declared once in the file is declared once inside the tasks. -/
theorem nodup_inside (h : f.names.Nodup) : (f.declarations.map (·.name)).Nodup :=
  h.sublist ((sublist_declarations f.items).map _)

/-- On simple declarations the declared variables are found. -/
theorem sublist_keysOf (task : Text) (body : List BodyLine) :
    (((keysOf task body).filter Key.simple).map Key.var).Sublist
      ((body.filterMap BodyLine.declaration?).map (·.var)) := by
  induction body generalizing task with
  | nil => exact List.Sublist.refl []
  | cons l body ih =>
      cases l with
      | declaration d =>
          have hdeclaration : (BodyLine.declaration d).declaration? = some d := rfl
          rw [keysOf, List.filter_append, List.map_append, List.filterMap_cons_some hdeclaration,
            List.map_cons, ← List.singleton_append]
          refine List.Sublist.append ?_ (ih task)
          by_cases hsimple : d.IsSimple
          · rw [Declaration.key?, d.keyOf_line hsimple]
            split <;> simp [hsimple]
          · rw [Declaration.key?]
            cases keyOf d.line <;> split <;> simp [hsimple]
      | statement st =>
          have hstatement : (BodyLine.statement st).declaration? = none := rfl
          have hkey : (st.key?.toList.filter Key.simple) = [] := by
            rw [Statement.key?]
            split
            · cases keyOf st.line <;> rfl
            · rfl
          rw [keysOf, List.filterMap_cons_none hstatement]
          cases openedTask st.line with
          | some name => exact ih name
          | none =>
              dsimp only
              rw [List.filter_append, apply_ite (List.filter Key.simple), hkey]
              simpa using ih task

theorem sublist_keys (f : InputFile) :
    ((f.keys.filter Key.simple).map Key.var).Sublist f.vars := by
  rw [InputFile.keys, InputFile.vars, InputFile.declarations]
  induction f.tasks with
  | nil => exact List.Sublist.refl []
  | cons t ts ih =>
      rw [List.flatMap_cons, List.flatMap_cons, List.filter_append, List.map_append,
        List.map_append]
      exact (sublist_keysOf t.name t.body).append ih

/-- If no name is declared twice, only other lines than simple declarations can have the
variable of another line. -/
theorem nodup_keys_iff (h : f.names.Nodup) : (f.keys.map Key.var).Nodup ↔
    f.keys.Pairwise fun x y => x.var = y.var → x.simple ∧ y.simple := by
  have hsimple : f.keys.Pairwise fun x y => x.simple = true → y.simple = true → x.var ≠ y.var :=
    List.pairwise_filter.mp
      (List.pairwise_map.mp ((nodup_vars (nodup_inside h)).sublist (sublist_keys f)))
  rw [List.Nodup, List.pairwise_map]
  constructor
  · exact fun hne => hne.imp fun hxy heq => absurd heq hxy
  · intro hodd
    exact (hsimple.and hodd).imp fun ⟨hxy, hodd⟩ heq => hxy (hodd heq).1 (hodd heq).2 heq

/-- What is found where all lines are as they should be. -/
theorem keys_eq_vars (hclean : Clean f.tasks) (hsimple : ∀ d ∈ f.declarations, d.IsSimple) :
    f.keys.map Key.var = f.vars := by
  rw [← map_var_globalsOf_lines, (map_globalsOf_lines hclean).1, InputFile.vars]
  exact List.filterMap_eq_map_iff_forall_eq_some.mpr fun d hd => d.keyOf_line (hsimple d hd)

/-- **When the check for unique variables is right.** If no name is declared twice, what is found
on a line inside the tasks that is no simple declaration may not be found on another; and if
some name is declared twice, something must be found twice. Where all lines on which something
is found are simple declarations, this fails if some name is declared twice, but no name twice
in the same form inside the tasks. -/
theorem uniqueCheck_iff (f : InputFile) :
    (UniqueCheck f ↔
      (f.names.Nodup → f.keys.Pairwise fun x y => x.var = y.var → x.simple ∧ y.simple) ∧
        (¬ f.names.Nodup → ¬ (f.keys.map Key.var).Nodup)) ∧
      (Clean f.tasks → (∀ d ∈ f.declarations, d.IsSimple) →
        (UniqueCheck f ↔ f.names.Nodup ∨ ¬ f.vars.Nodup)) := by
  have hcheck : UniqueCheck f ↔ (f.names.Nodup ↔ (f.keys.map Key.var).Nodup) := by
    rw [UniqueCheck, dies_iff, not_iff_not]
    exact Iff.comm
  constructor
  · by_cases hnames : f.names.Nodup
    · rw [hcheck, nodup_keys_iff hnames]
      simp [hnames]
    · rw [hcheck]
      simp [hnames]
  · intro hclean hsimple
    rw [hcheck, keys_eq_vars hclean hsimple]
    by_cases hnames : f.names.Nodup
    · simp [hnames, nodup_vars (nodup_inside hnames)]
    · simp [hnames]

end

/-! A task with `int a;` and `int a[4];`. -/
section

/-- `    int a;` for a name `a`, with the size if there is one. -/
def textInt (name : Text) (size : Option Text) : DeclarationText where
  indent := "    ".toList
  type := .int
  gap := [' ']
  name := name
  size := size.map fun size => ([], size)
  gap' := []
  trailing := ['\n']

def declareInt (name : Text) (size : Option { t : Text // '\n' ∉ t }) (hname : IsName name)
    (hstart : search subStartPattern (textInt name (size.map Subtype.val)).line = none) :
    Declaration where
  toDeclarationText := textInt name (size.map Subtype.val)
  blank_indent := (by decide +kernel : Blank "    ".toList)
  gap_ne_nil := List.cons_ne_nil ' ' []
  blank_gap := (by decide : Blank [' '])
  isName := hname
  size_oneLine := by
    rintro p hp
    obtain ⟨t, ht, rfl⟩ := Option.map_eq_some_iff.mp hp
    obtain ⟨u, -, rfl⟩ := Option.map_eq_some_iff.mp ht
    exact ⟨(by decide : Blank []), u.2⟩
  blank_gap' := (by decide : Blank [])
  blank_trailing := (by decide : Blank [])
  noStart := hstart

def scalarAndArray : SourceTask where
  name := "f".toList
  header := "void f(void) \x7b\n".toList
  body := [.declaration (declareInt ['a'] none (by decide) (by decide +kernel)),
    .declaration (declareInt ['a'] (some ⟨['4'], by decide⟩) (by decide) (by decide +kernel))]
  footer := "\x7d\n".toList
  isName := by decide +kernel
  isHeader := ⟨[], [' '], [], [], [], [' '], ['\n'], by decide, by decide, by decide, by decide,
    by decide, by decide, by decide, by decide, rfl⟩
  isFooter := isFooter_brace

def scalarAndArrayFile : InputFile where
  items := [.task scalarAndArray]
  names_nodup := List.nodup_singleton _

/-- The two declarations of `a` are accepted. -/
theorem scalarAndArray_is_accepted : ¬ ∀ f, UniqueCheck f := by
  intro hclaim
  have hnames : ¬ scalarAndArrayFile.names.Nodup := by
    decide +kernel
  have hkeys : scalarAndArrayFile.keys.map Key.var = ["a".toList, "a[4]".toList] := by
    decide +kernel
  have hdies := (hclaim scalarAndArrayFile).mpr hnames
  rw [dies_iff, hkeys] at hdies
  exact hdies (by decide)

end
end Osh.Tasks
