import Osh.Tasks.Turns

/-!
# From the input file to the running program

The script as a whole, on files of tasks as it expects them. What it generates is a program unless
there is nothing outside the tasks, a variable has a name that is not its own, two names of
tasks differ in the case of letters only, or a condition is cut short; and `main` runs the
tasks in the order of their names.

## Main definitions

* `IsKept`: a line that is printed again if it stands outside the tasks.
* `Bodies`: the statements of the file as lines of tasks.
* `Accepted`: what the script needs of a file.
* `byName`: tasks in the order in which they are run.

## Main results

* `script_eq`: the output for a file.
* `program_eq_some_iff`: when it is a program, and which.
* `program_runs_tasks`: what the program does.
-/
namespace Osh.Tasks
open Regex

/-- A line that is neither blank nor a closing brace. -/
def IsKept (line : Text) : Prop :=
  ¬ (matchStart subEndPattern line).isSome = true ∧ ¬ (matchStart blankPattern line).isSome = true

/-- A line outside the tasks that is neither blank nor a closing brace. -/
def Item.IsKept (item : Item) : Prop := item.task? = none ∧ ∃ line ∈ item.lines, Tasks.IsKept line

/-- The tasks of the file, with their statements as labels, plain statements and jumps. -/
def Bodies (f : InputFile) (ts : List Task) : Prop :=
  ts.map (fun t => (t.name, t.source)) = f.tasks.map fun t => (t.name, t.statements)

/-- What the script needs of a file to make a program of it. -/
structure Accepted (f : InputFile) (ts : List Task) : Prop where
  outside : ∃ item ∈ f.items, item.IsKept
  /-- No name is declared twice inside the tasks. -/
  once : (f.declarations.map (·.name)).Nodup
  own : ∀ d ∈ f.declarations,
    IsIdentifier d.name ∧ d.name ∉ keywords ∧ d.name ∉ (programOf ts).generatedNames
  conditions : ∀ t ∈ ts, ∀ l ∈ t.lines, ¬ l.stmt.MentionsGoto
  /-- The names of the tasks differ not only in the case of letters. -/
  names : (ts.map fun t => uc t.name).Nodup

/-- Tasks in the order of their names. -/
def byName (ts : List Task) : List Task := ts.insertionSort fun t u => t.name ≤ u.name

variable {f : InputFile} {ts : List Task} {s : Input} {items : List Item}

/-! ## The lines outside the tasks -/

theorem tasks_track_outside (hs : s.currentTask = NO_TASK) {line : Text}
    (hline : search subStartPattern line = none) :
    (track s line).tasks NO_TASK ≠ none ↔ s.tasks NO_TASK ≠ none ∨ IsKept line := by
  have htype : ¬ (s.currentTask ≠ NO_TASK ∧ (search typePattern line).isSome = true) :=
    fun h => h.1 hs
  simp only [track, hline, if_neg htype, IsKept]
  by_cases hend : (matchStart subEndPattern line).isSome = true
  · simp [hend]
  · by_cases hblank : (matchStart blankPattern line).isSome = true
    · simp [hend, hblank]
    · simp [hend, hblank, Input.push, hs]

/-- There are lines outside the tasks if one is kept. -/
theorem tasks_NO_TASK_iff (hs : s.currentTask = NO_TASK)
    (hclean : Clean (items.filterMap Item.task?)) :
    ((items.flatMap Item.lines).foldl track s).tasks NO_TASK ≠ none ↔
      s.tasks NO_TASK ≠ none ∨ ∃ item ∈ items, item.IsKept := by
  induction items generalizing s with
  | nil => simp
  | cons item items ih =>
      rw [List.flatMap_cons, List.foldl_append, List.exists_mem_cons_iff]
      obtain ⟨t, rfl⟩ | ⟨line, hline, hlines, htask⟩ := item.eq_task_or
      · have hmem : t ∈ (Item.task t :: items).filterMap Item.task? := List.mem_cons_self ..
        have hname := hclean.name t hmem
        obtain ⟨htrack, -⟩ := track_task hs hname (hclean.statement t hmem)
        have hcurrent : (t.lines.foldl track s).currentTask = NO_TASK := by
          rw [htrack]
          exact hs
        have hkept : (t.lines.foldl track s).tasks NO_TASK = s.tasks NO_TASK := by
          rw [htrack]
          exact Function.update_of_ne hname.symm ..
        have hnot : ¬ (Item.task t).IsKept := nofun
        rw [or_iff_right hnot, Item.lines, ih hcurrent hclean.tail, hkept]
      · rw [List.filterMap_cons_none htask] at hclean
        have hitem : item.IsKept ↔ IsKept line := by
          rw [Item.IsKept, hlines, and_iff_right htask]
          simp
        rw [hlines, hitem, ← or_assoc, ← tasks_track_outside hs hline]
        exact ih (track_outside hs hline).1 hclean

/-! ## The names of the tasks -/

theorem filterMap_openedTask_task {t : SourceTask}
    (hclean : ∀ line ∈ t.statements, CleanLine line) :
    t.lines.filterMap openedTask = [t.name] := by
  have hheader : openedTask t.header = some t.name := by
    obtain ⟨before, h, hsearch, hname⟩ := search_header t.isName t.isHeader
    rw [openedTask, hsearch, Option.map_some]
    exact congrArg some hname
  have hfooter : openedTask t.footer = none := by
    rw [openedTask, search_footer t.isFooter]
    rfl
  have hbody : (t.body.map BodyLine.line).filterMap openedTask = [] := by
    rw [List.filterMap_map, List.filterMap_eq_nil_iff]
    intro l hl
    cases l with
    | declaration d => exact congrArg (Option.map _) d.noStart
    | statement st =>
        have hst : st.line ∈ t.statements := List.mem_filterMap.mpr ⟨_, hl, rfl⟩
        exact congrArg (Option.map _) (hclean st.line hst).2
  rw [SourceTask.lines, List.filterMap_cons_some hheader, List.filterMap_append, hbody,
    List.filterMap_cons_none hfooter]
  rfl

theorem filterMap_openedTask (hclean : Clean (items.filterMap Item.task?)) :
    (items.flatMap Item.lines).filterMap openedTask =
      (items.filterMap Item.task?).map SourceTask.name := by
  induction items with
  | nil => rfl
  | cons item items ih =>
      rw [List.flatMap_cons, List.filterMap_append]
      obtain ⟨t, rfl⟩ | ⟨line, hline, hlines, htask⟩ := item.eq_task_or
      · have hmem : t ∈ (Item.task t :: items).filterMap Item.task? := List.mem_cons_self ..
        rw [ih hclean.tail, Item.lines, filterMap_openedTask_task (hclean.statement t hmem)]
        rfl
      · rw [List.filterMap_cons_none htask] at hclean ⊢
        have hnone : openedTask line = none := congrArg (Option.map _) hline
        rw [ih hclean, hlines, List.filterMap_cons_none hnone]
        rfl

theorem map_name_of_bodies (hbodies : Bodies f ts) :
    ts.map Task.name = f.tasks.map SourceTask.name := by
  have hfst := congrArg (List.map Prod.fst) hbodies
  rw [List.map_map, List.map_map] at hfst
  exact hfst

/-- The script takes the tasks in the order of their names. -/
theorem taskNames_lines (hclean : Clean f.tasks) (hbodies : Bodies f ts) :
    taskNames f.lines = (byName ts).map Task.name := by
  have hnames : f.lines.filterMap openedTask = ts.map Task.name := by
    rw [map_name_of_bodies hbodies]
    exact filterMap_openedTask hclean
  have hnodup : (ts.map Task.name).Nodup := map_name_of_bodies hbodies ▸ f.names_nodup
  have hkept : (ts.map Task.name).filter (· ≠ NO_TASK) = ts.map Task.name := by
    refine List.filter_eq_self.mpr fun name hname => ?_
    rw [map_name_of_bodies hbodies] at hname
    obtain ⟨t, ht, rfl⟩ := List.mem_map.mp hname
    exact decide_eq_true (hclean.name t ht)
  rw [taskNames, hnames, hnodup.dedup, hkept, byName]
  exact (List.map_insertionSort (fun t u : Task => t.name ≤ u.name) (· ≤ ·) Task.name ts
    fun _ _ _ _ => Iff.rfl).symm

/-! ## The output -/

theorem mem_byName {t : Task} : t ∈ byName ts ↔ t ∈ ts := List.mem_insertionSort _

theorem perm_byName (ts : List Task) : (byName ts).Perm ts := List.perm_insertionSort _ _

/-- What is kept for the tasks, in the order of their names. -/
theorem map_tasks_byName (hclean : Clean f.tasks) (hbodies : Bodies f ts)
    (hs : readLines f.lines .start = .ok s) :
    ((byName ts).map Task.name).map (fun name => (name, (s.tasks name).getD [])) =
      (byName ts).map fun t => (t.name, t.source) := by
  rw [List.map_map]
  refine List.map_congr_left fun t ht => ?_
  have hmem : (t.name, t.source) ∈ f.tasks.map fun t => (t.name, t.statements) := by
    rw [← hbodies]
    exact List.mem_map.mpr ⟨t, mem_byName.mp ht, rfl⟩
  obtain ⟨source, hsource, heq⟩ := List.mem_map.mp hmem
  have hname : source.name = t.name := congrArg Prod.fst heq
  have hlines : source.statements = t.source := congrArg Prod.snd heq
  have hkept : s.tasks t.name = some t.source := by
    rw [readLines_ok hs, ← hname, ← hlines]
    exact tasks_track_items rfl hclean f.names_nodup hsource
  rw [Function.comp_apply, hkept]
  rfl

theorem readLines_ok_iff_vars (hclean : Clean f.tasks)
    (hsimple : ∀ d ∈ f.declarations, d.IsSimple) :
    (∃ s, readLines f.lines .start = .ok s) ↔ f.vars.Nodup := by
  rw [readLines_ok_iff, map_var_globalsOf_lines, keys_eq_vars hclean hsimple]

theorem outside_iff (hclean : Clean f.tasks) (hs : readLines f.lines .start = .ok s) :
    s.tasks NO_TASK ≠ none ↔ ∃ item ∈ f.items, item.IsKept := by
  have hstart : Input.start.currentTask = NO_TASK := rfl
  have hnone : ¬ Input.start.tasks NO_TASK ≠ none := not_not.mpr rfl
  rw [readLines_ok hs]
  exact (tasks_NO_TASK_iff hstart hclean).trans (or_iff_right hnone)

/-- The output for a file is that for its tasks. -/
theorem script_eq (hclean : Clean f.tasks) (hbodies : Bodies f ts)
    (hs : readLines f.lines .start = .ok s) {outside : List Text}
    (houtside : s.tasks NO_TASK = some outside) :
    script f.lines = .ok (outputOf outside s.globals (byName ts)) := by
  unfold script
  rw [hs]
  dsimp only [bind, Except.bind]
  rw [houtside, taskNames_lines hclean hbodies, map_tasks_byName hclean hbodies hs]
  rfl

theorem script_error (hs : readLines f.lines .start = .ok s) (houtside : s.tasks NO_TASK = none) :
    script f.lines = .error undefinedArray := by
  unfold script
  rw [hs]
  dsimp only [bind, Except.bind]
  rw [houtside]

/-! ## The variables -/

theorem readable_globals (hclean : Clean f.tasks) (hsimple : ∀ d ∈ f.declarations, d.IsSimple) :
    Readable (globalsOf .start f.lines) := by
  intro g hg
  rw [globalsOf_lines hclean] at hg
  obtain ⟨t, ht, hg⟩ := List.mem_flatMap.mp hg
  obtain ⟨d, hd, hg⟩ := List.mem_filterMap.mp hg
  have hmem : d ∈ f.declarations := List.mem_flatMap.mpr ⟨t, ht, hd⟩
  rw [Declaration.global?, d.keyOf_line (hsimple d hmem), Option.map_some] at hg
  obtain rfl := Option.some.inj hg
  rw [Global.name, d.takeWhile_var]
  exact d.readGlobal_line (hsimple d hmem)

/-- The names of the global declarations are those that are declared inside the tasks. -/
theorem perm_globalNames (hclean : Clean f.tasks) (hsimple : ∀ d ∈ f.declarations, d.IsSimple) :
    (globalNames (globalsOf .start f.lines)).Perm (f.declarations.map (·.name)) := by
  have hperm : (sortedGlobals (globalsOf .start f.lines)).Perm (globalsOf .start f.lines) :=
    List.perm_insertionSort _ _
  have hnames : (globalsOf .start f.lines).map Global.name = f.declarations.map (·.name) := by
    rw [map_name_eq, ← keys_eq_vars hclean hsimple, ← map_var_globalsOf_lines, List.map_map]
    rfl
  rw [globalNames, ← hnames]
  exact hperm.map _

/-- The order of the tasks does not matter for the names that the script declares. -/
theorem mem_generatedNames_byName {name : Text} :
    name ∈ (programOf (byName ts)).generatedNames ↔ name ∈ (programOf ts).generatedNames := by
  simp only [Program.generatedNames, macros_programOf, tables_programOf, funcs_programOf,
    List.mem_append, List.mem_map, List.mem_flatMap, mem_byName]

/-! ## The program -/

/-- The program for a file. -/
theorem program_eq_some_iff (hclean : Clean f.tasks) (hbodies : Bodies f ts)
    (hident : ∀ t ∈ ts, IsIdentifier t.name) (hsimple : ∀ d ∈ f.declarations, d.IsSimple)
    (p : Program) : program f.lines = some p ↔ Accepted f ts ∧
      p = { programOf (byName ts) with globals := globalNames (globalsOf .start f.lines) } := by
  have hident' : ∀ t ∈ byName ts, IsIdentifier t.name := fun t ht => hident t (mem_byName.mp ht)
  have hnames : ((byName ts).map fun t => uc t.name).Nodup ↔ (ts.map fun t => uc t.name).Nodup :=
    ((perm_byName ts).map _).nodup_iff
  have hperm := perm_globalNames hclean hsimple
  by_cases hvars : f.vars.Nodup
  · obtain ⟨s, hs⟩ := (readLines_ok_iff_vars hclean hsimple).mpr hvars
    cases houtside : s.tasks NO_TASK with
    | none =>
        have hnot : ¬ ∃ item ∈ f.items, item.IsKept := by
          rw [← outside_iff hclean hs, houtside]
          exact not_not.mpr rfl
        rw [program, script_error hs houtside]
        exact iff_of_false nofun fun h => hnot h.1.outside
    | some outside =>
        have hkept : ∃ item ∈ f.items, item.IsKept := by
          rw [← outside_iff hclean hs, houtside]
          exact Option.some_ne_none _
        have hglobals : s.globals = globalsOf .start f.lines := by
          rw [readLines_ok hs]
        rw [program, script_eq hclean hbodies hs houtside, hglobals]
        dsimp only
        rw [read_output_eq_some_iff outside _ hident' (readable_globals hclean hsimple), hnames,
          hperm.nodup_iff]
        refine and_congr_left' ⟨?_, ?_⟩
        · rintro ⟨hcond, hnames, hnodup, hown⟩
          refine ⟨hkept, hnodup, fun d hd => ?_, fun t ht => hcond t (mem_byName.mpr ht), hnames⟩
          rw [← mem_generatedNames_byName]
          exact hown d.name (hperm.mem_iff.mpr (List.mem_map_of_mem hd))
        · rintro ⟨-, hnodup, hown, hcond, hnames⟩
          refine ⟨fun t ht => hcond t (mem_byName.mp ht), hnames, hnodup, fun name hname => ?_⟩
          obtain ⟨d, hd, rfl⟩ := List.mem_map.mp (hperm.mem_iff.mp hname)
          rw [mem_generatedNames_byName]
          exact hown d hd
  · have hdies : ¬ ∃ s, readLines f.lines .start = .ok s :=
      fun h => hvars ((readLines_ok_iff_vars hclean hsimple).mp h)
    have hnone : program f.lines = none := by
      unfold program script
      cases hs : readLines f.lines .start with
      | ok s => exact absurd ⟨s, hs⟩ hdies
      | error e => rfl
    rw [hnone]
    exact iff_of_false nofun fun h => hvars (nodup_vars h.1.once)

/-- Whatever the declarations are, a program is the one for the tasks. -/
theorem of_program (hclean : Clean f.tasks) (hbodies : Bodies f ts)
    (hident : ∀ t ∈ ts, IsIdentifier t.name) {p : Program} (hp : program f.lines = some p) :
    (ts.map fun t => uc t.name).Nodup ∧
      ∃ names, p = { programOf (byName ts) with globals := names } := by
  have hident' : ∀ t ∈ byName ts, IsIdentifier t.name := fun t ht => hident t (mem_byName.mp ht)
  cases hs : readLines f.lines .start with
  | error e =>
      have hdies : script f.lines = .error e := by
        unfold script
        rw [hs]
        rfl
      rw [program, hdies] at hp
      cases hp
  | ok s =>
      cases houtside : s.tasks NO_TASK with
      | none =>
          rw [program, script_error hs houtside] at hp
          cases hp
      | some outside =>
          rw [program, script_eq hclean hbodies hs houtside] at hp
          obtain ⟨-, hwellFormed, names, rfl⟩ := of_read_output outside s.globals hident' hp
          refine ⟨?_, names, rfl⟩
          rw [← ((perm_byName ts).map fun t => uc t.name).nodup_iff]
          exact nodup_labels_iff.mp (List.nodup_append.mp hwellFormed.labels).1

/-! Two tasks with jumps, a variable, and a line before them. -/
section

/-- Repeats a test until it fails, and then perhaps all of this. -/
def countTask : Task where
  name := ['c']
  lines :=
    [⟨none, .plain "    i=0;".toList, []⟩,
      ⟨some "LOOP".toList, .ifGoto " ".toList " ".toList "i==5".toList " ".toList " ".toList
        "END".toList, []⟩,
      ⟨none, .plain "    step(++i);".toList, []⟩,
      ⟨none, .goto "    ".toList " ".toList "LOOP".toList, []⟩,
      ⟨some "END".toList, .ifGoto " ".toList " ".toList "again()".toList " ".toList " ".toList
        "LOOP".toList, []⟩]
  isName := by decide +kernel
  nonempty := List.cons_ne_nil _ _
  valid := by decide +kernel
  defined := by decide +kernel

/-- Waits until there is something to do. -/
def waitTask : Task where
  name := ['b']
  lines :=
    [⟨some "WAIT".toList, .ifGoto " ".toList " ".toList "ready()".toList " ".toList " ".toList
        "WORK".toList, []⟩,
      ⟨none, .goto "    ".toList " ".toList "WAIT".toList, []⟩,
      ⟨some "WORK".toList, .ifGoto " ".toList " ".toList "again()".toList " ".toList " ".toList
        "WAIT".toList, []⟩,
      ⟨none, .plain "    work();".toList, []⟩]
  isName := by decide +kernel
  nonempty := List.cons_ne_nil _ _
  valid := by decide +kernel
  defined := by decide +kernel

def declareI : Declaration := declareInt ['i'] none (by decide) (by decide +kernel)

/-- The lines of a task as statements of a file. -/
def Task.statements (t : Task) (h : ∀ line ∈ t.source, '\n' ∉ line.dropLast ∧
    line.filter (fun c => !isSpace c) ∉ [[], ['\x7d']] ∧
      [CType.int, .float, .char, .long, .double].all (fun type =>
        !type.text.isPrefixOf (line.dropWhile isSpace)) = true) : List BodyLine :=
  t.source.attach.map fun line => .statement <|
    .ofLine line.1 (h line.1 line.2).1 (h line.1 line.2).2.1 (h line.1 line.2).2.2

def sourceOf (t : Task) (body : List BodyLine) : SourceTask where
  name := t.name
  header := "void ".toList ++ (t.name ++ "(void) \x7b\n".toList)
  body := body
  footer := "\x7d\n".toList
  isName := t.isName
  isHeader := ⟨[], [' '], [], [], [], [' '], ['\n'], by decide, by decide, by decide, by decide,
    by decide, by decide, by decide, by decide, rfl⟩
  isFooter := isFooter_brace

def exampleFile : InputFile where
  items := [
    .outside "#include \"step.h\"\n".toList (by decide +kernel)
      fun d => d.ne_line (by decide +kernel),
    .task (sourceOf countTask (.declaration declareI :: countTask.statements (by decide +kernel))),
    .task (sourceOf waitTask (waitTask.statements (by decide +kernel)))]
  names_nodup := by decide

def exampleTasks : List Task := [countTask, waitTask]

theorem bodies_exampleFile : Bodies exampleFile exampleTasks := by
  unfold Bodies
  decide +kernel

theorem clean_exampleFile : Clean exampleFile.tasks where
  name := by decide +kernel
  statement := by decide +kernel

theorem isIdentifier_exampleTasks : ∀ t ∈ exampleTasks, IsIdentifier t.name := by
  decide +kernel

theorem isSimple_exampleFile : ∀ d ∈ exampleFile.declarations, d.IsSimple := by
  decide +kernel

theorem accepted_exampleFile : Accepted exampleFile exampleTasks where
  outside := ⟨_, List.mem_cons_self .., rfl, _, List.mem_cons_self .., by decide +kernel,
    by decide +kernel⟩
  once := by decide +kernel
  own := by decide +kernel
  conditions := by decide +kernel
  names := by decide +kernel

/-- No plain statement of the two tasks has a label. -/
theorem not_atDoubled_exampleTasks {t : Task} (ht : t ∈ exampleTasks) (r : Run) :
    ¬ t.AtDoubled r := by
  have hlines : ∀ t ∈ exampleTasks, ∀ l ∈ t.lines, ¬ l.Doubled := by
    decide +kernel
  rintro ⟨i, l, -, hl, hdoubled⟩
  exact hlines t ht l (List.mem_of_getElem? hl) hdoubled

end

/-- **What the program of a file does**: its `main` runs, in the order of the names, the loops
over the generated functions, each to its end before the next begins; and where no run of a task
reaches a plain statement with a label, these are the tasks themselves. -/
theorem program_runs_tasks (hclean : Clean f.tasks) (hbodies : Bodies f ts)
    (hident : ∀ t ∈ ts, IsIdentifier t.name) {p : Program} (hp : program f.lines = some p)
    (outcome : ℕ → Bool) :
    RunsInTurn p outcome (fun t => t.generated.step outcome) (byName ts) ∧
      ((∀ t ∈ ts, ∀ outcome n, ¬ t.AtDoubled (t.after outcome n)) →
        RunsInTurn p outcome (fun t => t.step outcome) (byName ts)) := by
  -- the variables make no difference to a step
  obtain ⟨hnames, names, rfl⟩ := of_program hclean hbodies hident hp
  have hnames' : ((byName ts).map fun t => uc t.name).Nodup :=
    ((perm_byName ts).map _).nodup_iff.mpr hnames
  refine ⟨runsInTurn_generated outcome hnames', fun hnot => ?_⟩
  exact runsInTurn_source outcome hnames' fun t ht => hnot t (mem_byName.mp ht)

theorem program_runs_tasks_exampleFile : ∃ p, program exampleFile.lines = some p ∧
    RunsInTurn p (fun n => n % 3 = 1) (fun t => t.step fun n => n % 3 = 1)
      (byName exampleTasks) := by
  have hp := (program_eq_some_iff clean_exampleFile bodies_exampleFile isIdentifier_exampleTasks
    isSimple_exampleFile _).mpr ⟨accepted_exampleFile, rfl⟩
  refine ⟨_, hp, ?_⟩
  exact (program_runs_tasks clean_exampleFile bodies_exampleFile isIdentifier_exampleTasks hp _).2
    fun t ht _ _ => not_atDoubled_exampleTasks ht _

end Osh.Tasks
