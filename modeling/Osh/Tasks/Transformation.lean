import Osh.Tasks.InputFile

/-!
# What the reading loop makes of a file

Where no statement line is taken for something else, the loop keeps the statements of each
task and turns its declarations into global ones, as far as it can read them. But the pattern
for a type is not tied to the start of the line nor to that of a word: `point = 1;` has a type
name before white space, and is lost from its task without a message. So are declarations on
which the pattern for the variable does not match, such as `int a[N+1];`.

## Main definitions

* `Clean`: no statement line is taken for something else.
* `Transformed`: what the loop should do.

## Main results

* `track_items`, `globalsOf_lines`: the loop over a file whose statements are clean.
* `transformed_iff`: when the loop does what it should.
-/
namespace Osh.Tasks
open Regex

/-- `%tasks` without the entry for the lines outside the tasks. -/
def Input.taskLines (s : Input) : Text → Option (List Text) :=
  Function.update s.tasks NO_TASK none

/-- The loop comes to its end with exactly the statement lines of each task, in order, and
exactly the declarations inside the tasks. -/
def Transformed (f : InputFile) : Prop :=
  ∃ s, readLines f.lines .start = .ok s ∧
    (∀ t ∈ f.tasks, s.taskLines t.name = some t.statements) ∧
    (s.globals.map Global.line).Perm (f.declarations.map Declaration.globalLine)

/-- A statement line on which no type name stands before white space, and that does not read
like the opening of a task. -/
def CleanLine (line : Text) : Prop := ¬ MentionsType line ∧ search subStartPattern line = none

instance : DecidablePred CleanLine := fun _ => inferInstanceAs (Decidable (_ ∧ _))

/-- No statement line is taken for something else, and no task is called `NO_TASK`. -/
structure Clean (tasks : List SourceTask) : Prop where
  name : ∀ t ∈ tasks, t.name ≠ NO_TASK
  statement : ∀ t ∈ tasks, ∀ line ∈ t.statements, CleanLine line

section
variable {s : Input} {t : SourceTask} {body : List BodyLine} {items : List Item}

theorem Clean.tail {ts : List SourceTask} (h : Clean (t :: ts)) : Clean ts :=
  ⟨fun u hu => h.name u (List.mem_cons_of_mem t hu),
    fun u hu => h.statement u (List.mem_cons_of_mem t hu)⟩

/-! ## The lines of a task -/

theorem globalsOf_append (s : Input) (xs ys : List Text) :
    globalsOf s (xs ++ ys) = globalsOf s xs ++ globalsOf (xs.foldl track s) ys := by
  induction xs generalizing s with
  | nil => rfl
  | cons x xs ih => simp [globalsOf, ih]

theorem track_header (s : Input) (t : SourceTask) : track s t.header =
    { s with currentTask := t.name, tasks := Function.update s.tasks t.name (some []) } := by
  obtain ⟨before, h, hsearch, hname⟩ := search_header t.isName t.isHeader
  simp only [track, hsearch, hname]

theorem globalOf_header (task : Text) (t : SourceTask) : globalOf task t.header = none := by
  obtain ⟨before, h, hsearch, hname⟩ := search_header t.isName t.isHeader
  simp only [globalOf, hsearch]

theorem track_footer (s : Input) (t : SourceTask) :
    track s t.footer = { s with currentTask := NO_TASK } := by
  simp only [track, search_footer t.isFooter, if_pos (isSome_footer t.isFooter)]

theorem globalOf_footer (task : Text) (t : SourceTask) : globalOf task t.footer = none := by
  simp only [globalOf, search_footer t.isFooter, if_pos (isSome_footer t.isFooter)]

theorem track_declaration (hs : s.currentTask ≠ NO_TASK) (d : Declaration) :
    track s d.line = s := by
  have htype := search_typePattern_iff.mpr d.mentionsType
  simp only [track, d.noStart, if_neg d.not_isSome_subEnd, if_pos (And.intro hs htype)]

theorem track_statement {st : Statement} (hclean : CleanLine st.line) (s : Input) :
    track s st.line = s.push st.line := by
  have htype : ¬ (s.currentTask ≠ NO_TASK ∧ (search typePattern st.line).isSome = true) :=
    fun h => hclean.1 (search_typePattern_iff.mp h.2)
  simp only [track, hclean.2, if_neg st.not_isSome_subEnd, if_neg htype, if_neg st.not_isSome_blank]

theorem globalOf_statement {st : Statement} (hclean : CleanLine st.line) (task : Text) :
    globalOf task st.line = none := by
  have htype : ¬ (task ≠ NO_TASK ∧ (search typePattern st.line).isSome = true) :=
    fun h => hclean.1 (search_typePattern_iff.mp h.2)
  simp only [globalOf, hclean.2, if_neg st.not_isSome_subEnd, if_neg htype]

/-- The lines between the opening and the closing of a task. -/
theorem track_body (hs : s.currentTask ≠ NO_TASK) {kept : List Text}
    (hkept : s.tasks s.currentTask = some kept)
    (hclean : ∀ line ∈ body.filterMap BodyLine.statement?, CleanLine line) :
    (body.map BodyLine.line).foldl track s = { s with
      tasks := Function.update s.tasks s.currentTask
        (some (kept ++ body.filterMap BodyLine.statement?)) } ∧
    globalsOf s (body.map BodyLine.line) =
      (body.filterMap BodyLine.declaration?).filterMap (·.global? s.currentTask) := by
  induction body generalizing s kept with
  | nil =>
      refine ⟨?_, rfl⟩
      simp [← hkept]
  | cons l body ih =>
      cases l with
      | declaration d =>
          have hrest := ih hs hkept hclean
          have htrack : track s (BodyLine.declaration d).line = s := track_declaration hs d
          have hglobal : globalOf s.currentTask (BodyLine.declaration d).line =
              d.global? s.currentTask := d.globalOf_line hs
          have hdeclaration : (BodyLine.declaration d).declaration? = some d := rfl
          refine ⟨?_, ?_⟩
          · rw [List.map_cons, List.foldl_cons, htrack]
            exact hrest.1
          · rw [List.map_cons, globalsOf, htrack, hrest.2, hglobal,
              List.filterMap_cons_some hdeclaration, List.filterMap_cons]
            cases d.global? s.currentTask <;> rfl
      | statement st =>
          have hline : CleanLine st.line := hclean st.line (List.mem_cons_self ..)
          have htrack : track s (BodyLine.statement st).line = s.push st.line :=
            track_statement hline s
          have hglobal : globalOf s.currentTask (BodyLine.statement st).line = none :=
            globalOf_statement hline _
          have hpush : (s.push st.line).tasks (s.push st.line).currentTask =
              some (kept ++ [st.line]) := by
            simp [Input.push, hkept]
          have hrest := ih (s := s.push st.line) hs hpush
            fun line hmem => hclean line (List.mem_cons_of_mem _ hmem)
          refine ⟨?_, ?_⟩
          · rw [List.map_cons, List.foldl_cons, htrack, hrest.1]
            simp [Input.push, BodyLine.statement?]
          · rw [List.map_cons, globalsOf, htrack, hrest.2, hglobal]
            rfl

/-- The lines of a task, from the opening to the closing. -/
theorem track_task (hs : s.currentTask = NO_TASK) (hname : t.name ≠ NO_TASK)
    (hclean : ∀ line ∈ t.statements, CleanLine line) :
    t.lines.foldl track s =
      { s with tasks := Function.update s.tasks t.name (some t.statements) } ∧
    globalsOf s t.lines = t.declarations.filterMap (·.global? t.name) := by
  have hkept : (track s t.header).tasks (track s t.header).currentTask = some [] := by
    rw [track_header]
    exact Function.update_self ..
  have hcurrent : (track s t.header).currentTask = t.name := by
    rw [track_header]
  obtain ⟨hbody, hglobals⟩ := track_body (by rwa [hcurrent]) hkept hclean
  have hfooter : ∀ u : Input, globalsOf u [t.footer] = [] := by
    intro u
    simp [globalsOf, globalOf_footer]
  refine ⟨?_, ?_⟩
  · rw [SourceTask.lines, List.foldl_cons, List.foldl_append, hbody, List.foldl_cons,
      List.foldl_nil, track_footer, track_header]
    simp [hs, SourceTask.statements]
  · rw [SourceTask.lines, globalsOf, globalOf_header, globalsOf_append, hglobals, hfooter, hcurrent]
    simp [SourceTask.declarations]

/-! ## The lines outside the tasks -/

/-- They are kept under the name `NO_TASK`, if at all. -/
theorem track_outside (hs : s.currentTask = NO_TASK) {line : Text}
    (hline : search subStartPattern line = none) :
    (track s line).currentTask = NO_TASK ∧
      (∀ name ≠ NO_TASK, (track s line).tasks name = s.tasks name) ∧
      globalsOf s [line] = [] := by
  have htype : ¬ (s.currentTask ≠ NO_TASK ∧ (search typePattern line).isSome = true) :=
    fun h => h.1 hs
  refine ⟨?_, ?_, ?_⟩
  · simp only [track, hline, if_neg htype]
    split_ifs
    · rfl
    · exact hs
    · exact hs
  · intro name hname
    simp only [track, hline, if_neg htype]
    split_ifs
    · rfl
    · rfl
    · exact Function.update_of_ne (by rwa [hs]) ..
  · simp only [globalsOf, globalOf, hline, if_neg htype]
    split_ifs <;> rfl

/-! ## The whole file -/

/-- What is no task is a line that opens none. -/
theorem Item.eq_task_or (item : Item) : (∃ t, item = .task t) ∨
    ∃ line, search subStartPattern line = none ∧ item.lines = [line] ∧ item.task? = none := by
  cases item with
  | declaration d => exact .inr ⟨d.line, d.noStart, rfl, rfl⟩
  | outside line hline _ => exact .inr ⟨line, hline, rfl, rfl⟩
  | task t => exact .inl ⟨t, rfl⟩

/-- The loop over a clean file: where it stands at the end, what it has kept for a task, and
the declarations it has met. -/
theorem track_items (hs : s.currentTask = NO_TASK)
    (hclean : Clean (items.filterMap Item.task?)) :
    ((items.flatMap Item.lines).foldl track s).currentTask = NO_TASK ∧
    (∀ name ≠ NO_TASK, name ∉ (items.filterMap Item.task?).map SourceTask.name →
      ((items.flatMap Item.lines).foldl track s).tasks name = s.tasks name) ∧
    globalsOf s (items.flatMap Item.lines) =
      (items.filterMap Item.task?).flatMap fun t =>
        t.declarations.filterMap (·.global? t.name) := by
  induction items generalizing s with
  | nil => exact ⟨hs, fun name _ _ => rfl, rfl⟩
  | cons item items ih =>
      rw [List.flatMap_cons, List.foldl_append, globalsOf_append]
      obtain ⟨t, rfl⟩ | ⟨line, hline, hlines, htask⟩ := item.eq_task_or
      · have hmem : t ∈ (Item.task t :: items).filterMap Item.task? := List.mem_cons_self ..
        obtain ⟨htrack, hglobals⟩ := track_task hs (hclean.name t hmem) (hclean.statement t hmem)
        have hrest : Clean (items.filterMap Item.task?) := hclean.tail
        have htail := ih (s := t.lines.foldl track s) (by rw [htrack]; exact hs) hrest
        refine ⟨htail.1, fun name hne hname => ?_, ?_⟩
        · obtain ⟨hnt, hname⟩ := not_or.mp fun h => hname (List.mem_cons.mpr h)
          refine (htail.2.1 name hne hname).trans ?_
          rw [htrack]
          exact Function.update_of_ne hnt ..
        · rw [Item.lines, htail.2.2, hglobals]
          rfl
      · rw [List.filterMap_cons_none htask] at hclean ⊢
        obtain ⟨hcurrent, htasks, hglobals⟩ := track_outside hs hline
        obtain ⟨hcurrent', htasks', hglobals'⟩ := ih hcurrent hclean
        rw [hlines, hglobals]
        refine ⟨hcurrent', fun name hne hname => ?_, hglobals'⟩
        exact (htasks' name hne hname).trans (htasks name hne)

/-- Each task has its statements, since no later task has its name. -/
theorem tasks_track_items (hs : s.currentTask = NO_TASK)
    (hclean : Clean (items.filterMap Item.task?))
    (hnodup : ((items.filterMap Item.task?).map SourceTask.name).Nodup)
    (ht : t ∈ items.filterMap Item.task?) :
    ((items.flatMap Item.lines).foldl track s).tasks t.name = some t.statements := by
  induction items generalizing s with
  | nil => exact absurd ht List.not_mem_nil
  | cons item items ih =>
      rw [List.flatMap_cons, List.foldl_append]
      obtain ⟨u, rfl⟩ | ⟨line, hline, hlines, htask⟩ := item.eq_task_or
      · have hmem : u ∈ (Item.task u :: items).filterMap Item.task? := List.mem_cons_self ..
        obtain ⟨htrack, -⟩ := track_task hs (hclean.name u hmem) (hclean.statement u hmem)
        have hcurrent : (u.lines.foldl track s).currentTask = NO_TASK := by
          rw [htrack]
          exact hs
        have hrest : Clean (items.filterMap Item.task?) := hclean.tail
        obtain ⟨hnew, hnodup⟩ := List.nodup_cons.mp hnodup
        rcases List.mem_cons.mp ht with rfl | ht
        · refine ((track_items hcurrent hrest).2.1 t.name (hclean.name t hmem) hnew).trans ?_
          rw [htrack]
          exact Function.update_self ..
        · exact ih hcurrent hrest hnodup ht
      · rw [List.filterMap_cons_none htask] at hclean hnodup ht
        rw [hlines]
        exact ih (track_outside hs hline).1 hclean hnodup ht

variable {f : InputFile}

theorem globalsOf_lines (hclean : Clean f.tasks) : globalsOf .start f.lines =
    f.tasks.flatMap fun t => t.declarations.filterMap (·.global? t.name) :=
  (track_items rfl hclean).2.2

/-- The keys of the global declarations, and what is printed of them. -/
theorem map_globalsOf_lines (hclean : Clean f.tasks) :
    (globalsOf .start f.lines).map Global.var = f.declarations.filterMap (fun d => keyOf d.line) ∧
      (globalsOf .start f.lines).map Global.line =
        f.declarations.filterMap fun d => (keyOf d.line).map fun _ => d.globalLine := by
  rw [globalsOf_lines hclean, InputFile.declarations]
  constructor <;>
  · rw [List.map_flatMap, List.filterMap_flatMap]
    refine List.flatMap_congr fun t _ => ?_
    rw [List.map_filterMap]
    refine List.filterMap_congr fun d _ => ?_
    rw [Declaration.global?, Option.map_map]
    cases keyOf d.line <;> rfl

/-- A statement line that is kept has passed the tests. -/
theorem cleanLine_of_kept (h : readLines f.lines .start = .ok s) {name line : Text}
    {ls : List Text} (hname : name ≠ NO_TASK) (hls : s.tasks name = some ls) (hline : line ∈ ls) :
    CleanLine line := by
  rw [readLines_ok h] at hls
  have hpasses := kept_foldl_track f.lines name ls hls line hline
  refine ⟨fun hmentions => ?_, hpasses.noStart⟩
  have hsome := search_typePattern_iff.mpr hmentions
  rw [hpasses.noType hname] at hsome
  cases hsome

/-- Where there is a variable on each line, the keys are those of all lines. -/
theorem map_keyOf {ds : List Declaration} (h : ∀ d ∈ ds, keyOf d.line ≠ none) :
    ds.map (fun d => keyOf d.line) = (ds.filterMap fun d => keyOf d.line).map some := by
  have hkeys : (ds.filterMap fun d => keyOf d.line) = ds.map fun d => (keyOf d.line).getD [] := by
    refine List.filterMap_eq_map_iff_forall_eq_some.mpr fun d hd => ?_
    obtain ⟨v, hv⟩ := Option.ne_none_iff_exists'.mp (h d hd)
    rw [hv, Option.getD_some]
  rw [hkeys, List.map_map]
  refine List.map_congr_left fun d hd => ?_
  obtain ⟨v, hv⟩ := Option.ne_none_iff_exists'.mp (h d hd)
  rw [Function.comp_apply, hv, Option.getD_some]

theorem nodup_keyOf_iff {ds : List Declaration} (h : ∀ d ∈ ds, keyOf d.line ≠ none) :
    (ds.filterMap fun d => keyOf d.line).Nodup ↔ (ds.map fun d => keyOf d.line).Nodup := by
  rw [map_keyOf h]
  exact (List.nodup_map_iff fun _ _ => Option.some.inj).symm

/-- **When the loop keeps every statement and every declaration.** On no statement line does a
type name stand before white space or a task seem to open, no task is called `NO_TASK`, on each
declaration the script finds a variable, and it finds no variable twice. -/
theorem transformed_iff (f : InputFile) : Transformed f ↔
    Clean f.tasks ∧ (∀ d ∈ f.declarations, keyOf d.line ≠ none) ∧
      (f.declarations.map fun d => keyOf d.line).Nodup := by
  constructor
  · rintro ⟨s, hs, htasks, hglobals⟩
    have hname : ∀ t ∈ f.tasks, t.name ≠ NO_TASK := by
      intro t ht heq
      have hkept := htasks t ht
      rw [heq, Input.taskLines, Function.update_self] at hkept
      cases hkept
    have hclean : Clean f.tasks := by
      refine ⟨hname, fun t ht line hline => ?_⟩
      have hkept := htasks t ht
      rw [Input.taskLines, Function.update_of_ne (hname t ht)] at hkept
      exact cleanLine_of_kept hs (hname t ht) hkept hline
    obtain ⟨hvar, hline⟩ := map_globalsOf_lines hclean
    have hkeys : ∀ d ∈ f.declarations, keyOf d.line ≠ none := by
      -- there are as many global declarations as declarations
      rw [readLines_ok hs, hline] at hglobals
      have hlength := hglobals.length_eq
      rw [List.length_map, List.filterMap_length_eq_length] at hlength
      intro d hd hnone
      have hsome := hlength d hd
      rw [hnone] at hsome
      cases hsome
    refine ⟨hclean, hkeys, ?_⟩
    rw [← nodup_keyOf_iff hkeys, ← hvar]
    exact readLines_ok_iff.mp ⟨s, hs⟩
  · rintro ⟨hclean, hkeys, hnodup⟩
    obtain ⟨hvar, hline⟩ := map_globalsOf_lines hclean
    rw [← nodup_keyOf_iff hkeys, ← hvar] at hnodup
    obtain ⟨s, hs⟩ := readLines_ok_iff.mpr hnodup
    have hfinal := readLines_ok hs
    refine ⟨s, hs, fun t ht => ?_, ?_⟩
    · rw [Input.taskLines, Function.update_of_ne (hclean.name t ht), hfinal]
      exact tasks_track_items rfl hclean f.names_nodup ht
    · have hall : (f.declarations.filterMap fun d => (keyOf d.line).map fun _ => d.globalLine) =
          f.declarations.map Declaration.globalLine := by
        refine List.filterMap_eq_map_iff_forall_eq_some.mpr fun d hd => ?_
        obtain ⟨v, hv⟩ := Option.ne_none_iff_exists'.mp (hkeys d hd)
        rw [hv, Option.map_some]
      rw [hfinal, hline, hall]

end

/-! A task whose statement is lost: the name `point` ends with that of a type. -/
section

def pointStatement : Statement :=
  .ofLine "    point = 1;\n".toList (by decide +kernel) (by decide +kernel) (by decide +kernel)

theorem isFooter_brace : IsFooter "\x7d\n".toList :=
  ⟨[], ['\n'], by decide, by decide, rfl⟩

def drawTask : SourceTask where
  name := "draw".toList
  header := "void draw(void) \x7b\n".toList
  body := [.statement pointStatement]
  footer := "\x7d\n".toList
  isName := by decide +kernel
  isHeader := ⟨[], [' '], [], [], [], [' '], ['\n'], by decide, by decide, by decide, by decide,
    by decide, by decide, by decide, by decide, rfl⟩
  isFooter := isFooter_brace

def drawFile : InputFile where
  items := [.task drawTask]
  names_nodup := List.nodup_singleton _

/-- The statement `point = 1;` is not kept. -/
theorem point_is_lost : ¬ ∀ f, Transformed f := by
  intro hclaim
  obtain ⟨s, hs, htasks, -⟩ := hclaim drawFile
  have hname : drawTask.name ≠ NO_TASK := by
    decide +kernel
  have hkept := htasks drawTask (List.mem_cons_self ..)
  rw [Input.taskLines, Function.update_of_ne hname] at hkept
  have hclean : CleanLine pointStatement.line :=
    cleanLine_of_kept hs hname hkept (List.mem_cons_self ..)
  exact hclean.1 ⟨.int, ' ', by decide, "    po".toList, "= 1;\n".toList, rfl⟩

end
end Osh.Tasks
