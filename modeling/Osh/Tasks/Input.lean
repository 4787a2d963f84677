import Mathlib.Data.List.Nodup
import Mathlib.Logic.Function.Basic
import Osh.Tasks.OneSubPerLine

/-!
# Reading the input

The loop of `transform_to_one_sub_per_line.pl` that reads the input file: lines are kept by
task, and a line on which a type name stands before white space becomes a global declaration,
or is dropped if the pattern for the variable does not match. A variable that is there
already ends the script. The loop is also split here into what it does to the tasks, which
never depends on the declarations, and the declarations that it meets.

## Main definitions

* `Input`, `readLine`, `readLines`: the variables of the loop, its body, and the loop.
* `globalOf`, `track`: the declaration that a line makes, and what it does otherwise.

## Main results

* `readLines_eq`: the loop, by the declarations it meets.
* `readLines_ok_iff`: the loop comes to its end if no variable is captured twice.
-/
namespace Osh.Tasks
open Regex

/-! ## The patterns -/

/-- `void\s+(\w+)\s*\(\s*void\s*\)\s*\{` -/
def subStartPattern : Regex :=
  seq (lit "void".toList) (seq (many1 isSpace) (seq (group (many1 isWord)) (seq (many isSpace)
    (seq (lit "(".toList) (seq (many isSpace) (seq (lit "void".toList) (seq (many isSpace)
      (seq (lit ")".toList) (seq (many isSpace) (lit "\x7b".toList))))))))))

/-- `^\s*\}\s*$` -/
def subEndPattern : Regex :=
  seq (many isSpace) (seq (lit "\x7d".toList) (seq (many isSpace) endOfText))

/-- `(?:int|float|char|long|double)\s+` -/
def typePattern : Regex :=
  seq (alt (lit "int".toList) (alt (lit "float".toList) (alt (lit "char".toList)
    (alt (lit "long".toList) (lit "double".toList))))) (many1 isSpace)

/-- `^.+\s+(\w+\[?\w*\]?)\s*;` -/
def varPattern : Regex :=
  seq (many1 isDot) (seq (many1 isSpace) (seq (group (seq (many1 isWord)
    (seq (opt (lit "[".toList)) (seq (many isWord) (opt (lit "]".toList))))))
      (seq (many isSpace) (lit ";".toList))))

/-- `^\s*static\s+` -/
def staticPattern : Regex :=
  seq (many isSpace) (seq (lit "static".toList) (many1 isSpace))

/-- `^\s*$` -/
def blankPattern : Regex := seq (many isSpace) endOfText

/-! ## The loop -/

/-- The name under which the lines outside the tasks are kept. -/
def NO_TASK : Text := "NO_TASK".toList

/-- An entry of `%globals`: the key, the declaration and the task. -/
structure Global where
  var : Text
  line : Text
  task : Text
deriving DecidableEq, Repr

/-- The variables of the loop. The entries of `%globals` are in the order of insertion. -/
structure Input where
  currentTask : Text
  tasks : Text → Option (List Text)
  globals : List Global

def Input.start : Input := ⟨NO_TASK, fun _ => none, []⟩

/-- `s/^\s*static\s+//` -/
def cutStatic (line : Text) : Text :=
  match matchStart staticPattern line with
  | some h => h.rest
  | none => line

/-- The text of `die`. -/
def alreadyDefined (var task other : Text) : Text :=
  "Variable ".toList ++ (var ++ (" in task '".toList ++ (task ++
    ("' is already defined in task '".toList ++ (other ++
      "'. Please change the variable name so that it is globally unique.".toList)))))

/-- A new entry of `%globals`, whose key must not be there. -/
def declare (globals : List Global) (g : Global) : Except Text (List Global) :=
  match globals.find? (·.var = g.var) with
  | some other => .error (alreadyDefined g.var g.task other.task)
  | none => .ok (globals ++ [g])

/-- A line on which a type name stands before white space. -/
def readDeclaration (s : Input) (line : Text) : Except Text Input :=
  match matchStart varPattern line with
  | some h => do
      let globals ← declare s.globals
        ⟨h.groups.headD [], "    static ".toList ++ cutStatic (chomp line), s.currentTask⟩
      return { s with globals }
  | none => .ok s

/-- `push @{ $tasks{$current_task} }, $line` -/
def Input.push (s : Input) (line : Text) : Input :=
  { s with
    tasks := Function.update s.tasks s.currentTask
      (some ((s.tasks s.currentTask).getD [] ++ [line])) }

/-- The body of the loop. -/
def readLine (s : Input) (line : Text) : Except Text Input :=
  match search subStartPattern line with
  | some (_, h) =>
      let currentTask := h.groups.headD []
      .ok { s with currentTask, tasks := Function.update s.tasks currentTask (some []) }
  | none =>
      if (matchStart subEndPattern line).isSome then .ok { s with currentTask := NO_TASK }
      else if s.currentTask ≠ NO_TASK ∧ (search typePattern line).isSome then
        readDeclaration s line
      else if (matchStart blankPattern line).isSome then .ok s
      else .ok (s.push line)

/-- The loop, from the given values of its variables on. -/
def readLines (lines : List Text) (s : Input) : Except Text Input := lines.foldlM readLine s

/-! ## The tasks and the declarations apart -/

/-- What a line does to the tasks. -/
def track (s : Input) (line : Text) : Input :=
  match search subStartPattern line with
  | some (_, h) =>
      { s with
        currentTask := h.groups.headD []
        tasks := Function.update s.tasks (h.groups.headD []) (some []) }
  | none =>
      if (matchStart subEndPattern line).isSome then { s with currentTask := NO_TASK }
      else if s.currentTask ≠ NO_TASK ∧ (search typePattern line).isSome then s
      else if (matchStart blankPattern line).isSome then s
      else s.push line

/-- The declaration that a line makes in the given task. -/
def globalOf (currentTask line : Text) : Option Global :=
  match search subStartPattern line with
  | some _ => none
  | none =>
      if (matchStart subEndPattern line).isSome then none
      else if currentTask ≠ NO_TASK ∧ (search typePattern line).isSome then
        (matchStart varPattern line).map fun h =>
          ⟨h.groups.headD [], "    static ".toList ++ cutStatic (chomp line), currentTask⟩
      else none

/-- The declarations that the lines make, in order. -/
def globalsOf (s : Input) : List Text → List Global
  | [] => []
  | line :: lines => (globalOf s.currentTask line).toList ++ globalsOf (track s line) lines

section
variable {s : Input} {line : Text} {lines : List Text} {globals : List Global}

@[simp] theorem track_globals (s : Input) (globals : List Global) (line : Text) :
    track { s with globals } line = { track s line with globals } := by
  unfold track
  split
  · rfl
  · split_ifs <;> rfl

/-- The body of the loop: a declaration, if the line makes one, and what it does to the
tasks. -/
theorem readLine_eq (s : Input) (line : Text) : readLine s line =
    ((globalOf s.currentTask line).toList.foldlM declare s.globals).map
      fun globals => { track s line with globals } := by
  unfold readLine globalOf track
  cases search subStartPattern line with
  | some result => rfl
  | none =>
      by_cases hend : (matchStart subEndPattern line).isSome = true
      · simp only [if_pos hend]
        rfl
      · by_cases htype : s.currentTask ≠ NO_TASK ∧ (search typePattern line).isSome = true
        · simp only [if_neg hend, if_pos htype, readDeclaration]
          cases matchStart varPattern line with
          | none => rfl
          | some h =>
              simp only [Option.map_some, Option.toList_some, List.foldlM_cons, List.foldlM_nil,
                bind_pure]
              rfl
        · simp only [if_neg hend, if_neg htype]
          split_ifs <;> rfl

theorem globalsOf_globals (s : Input) (globals : List Global) (lines : List Text) :
    globalsOf { s with globals } lines = globalsOf s lines := by
  induction lines generalizing s with
  | nil => rfl
  | cons line lines ih => rw [globalsOf, globalsOf, track_globals, ih]

theorem foldl_track_globals (s : Input) (globals : List Global) (lines : List Text) :
    lines.foldl track { s with globals } = { lines.foldl track s with globals } := by
  induction lines generalizing s with
  | nil => rfl
  | cons line lines ih => rw [List.foldl_cons, List.foldl_cons, track_globals, ih]

/-- **The reading loop**: the declarations go into `%globals` one after the other, and the
lines to their tasks. -/
theorem readLines_eq (lines : List Text) (s : Input) : readLines lines s =
    ((globalsOf s lines).foldlM declare s.globals).map
      fun globals => { lines.foldl track s with globals } := by
  induction lines generalizing s with
  | nil => rfl
  | cons line lines ih =>
      rw [readLines, List.foldlM_cons, readLine_eq, globalsOf, List.foldlM_append]
      cases (globalOf s.currentTask line).toList.foldlM declare s.globals with
      | error e => rfl
      | ok globals =>
          have hrest := ih { track s line with globals }
          rw [globalsOf_globals, foldl_track_globals] at hrest
          exact hrest

/-! ## Variables that are there already -/

theorem declare_of_notMem {g : Global} (h : g.var ∉ globals.map Global.var) :
    declare globals g = .ok (globals ++ [g]) := by
  have hnone : globals.find? (·.var = g.var) = none := by
    refine List.find?_eq_none.mpr fun other hother => ?_
    have hne : other.var ≠ g.var := fun heq => h (heq ▸ List.mem_map_of_mem hother)
    simpa using hne
  rw [declare, hnone]

theorem declare_of_mem {g : Global} (h : g.var ∈ globals.map Global.var) :
    ∃ e, declare globals g = .error e := by
  obtain ⟨other, hother, hvar⟩ := List.mem_map.mp h
  have hsome : (globals.find? (·.var = g.var)).isSome = true := by
    refine List.find?_isSome.mpr ⟨other, hother, ?_⟩
    simpa using hvar
  obtain ⟨found, hfound⟩ := Option.isSome_iff_exists.mp hsome
  rw [declare, hfound]
  exact ⟨_, rfl⟩

theorem foldlM_declare_of_nodup {gs : List Global}
    (h : ((globals ++ gs).map Global.var).Nodup) :
    gs.foldlM declare globals = .ok (globals ++ gs) := by
  induction gs generalizing globals with
  | nil => rw [List.append_nil]; rfl
  | cons g gs ih =>
      have hnew : g.var ∉ globals.map Global.var := by
        rw [List.map_append, List.nodup_append] at h
        intro hmem
        exact h.2.2 _ hmem _ (List.mem_map_of_mem (List.mem_cons_self ..)) rfl
      have happend : globals ++ g :: gs = (globals ++ [g]) ++ gs := by simp
      rw [List.foldlM_cons, declare_of_notMem hnew]
      rw [happend] at h ⊢
      exact ih h

theorem foldlM_declare_of_not_nodup {gs : List Global} (h0 : (globals.map Global.var).Nodup)
    (h : ¬ ((globals ++ gs).map Global.var).Nodup) :
    ∃ e, gs.foldlM declare globals = .error e := by
  induction gs generalizing globals with
  | nil => exact absurd (by rwa [List.append_nil]) h
  | cons g gs ih =>
      rw [List.foldlM_cons]
      by_cases hmem : g.var ∈ globals.map Global.var
      · obtain ⟨e, he⟩ := declare_of_mem hmem
        rw [he]
        exact ⟨e, rfl⟩
      · rw [declare_of_notMem hmem]
        have happend : globals ++ g :: gs = (globals ++ [g]) ++ gs := by simp
        rw [happend] at h
        refine ih ?_ h
        rw [List.map_append, List.nodup_append]
        refine ⟨h0, List.nodup_singleton _, ?_⟩
        intro a ha b hb
        obtain rfl := List.mem_singleton.mp hb
        exact fun heq => hmem (heq ▸ ha)

theorem foldlM_globalsOf (h : ((globalsOf .start lines).map Global.var).Nodup) :
    (globalsOf .start lines).foldlM declare Input.start.globals =
      .ok (globalsOf .start lines) := by
  have hnodup : (([] ++ globalsOf .start lines).map Global.var).Nodup := h
  exact foldlM_declare_of_nodup hnodup

/-- **When the loop comes to its end**: no variable is captured twice. -/
theorem readLines_ok_iff : (∃ s, readLines lines .start = .ok s) ↔
    ((globalsOf .start lines).map Global.var).Nodup := by
  rw [readLines_eq]
  constructor
  · rintro ⟨s, hs⟩
    by_contra hdup
    have hstart : (Input.start.globals.map Global.var).Nodup := List.nodup_nil
    obtain ⟨e, he⟩ := foldlM_declare_of_not_nodup hstart hdup
    rw [he] at hs
    cases hs
  · intro hnodup
    rw [foldlM_globalsOf hnodup]
    exact ⟨_, rfl⟩

theorem readLines_ok (h : readLines lines .start = .ok s) :
    s = { lines.foldl track .start with globals := globalsOf .start lines } := by
  have hok := foldlM_globalsOf (readLines_ok_iff.mp ⟨s, h⟩)
  rw [readLines_eq, hok] at h
  exact (Except.ok.inj h).symm

/-! ## What is kept -/

/-- The line passes the tests of the loop, on the way to the lines of the given task. -/
structure Passes (task line : Text) : Prop where
  noStart : search subStartPattern line = none
  noEnd : ¬ (matchStart subEndPattern line).isSome = true
  noType : task ≠ NO_TASK → search typePattern line = none

/-- The lines kept for the tasks have passed the tests. -/
def Kept (s : Input) : Prop := ∀ task ls, s.tasks task = some ls → ∀ line ∈ ls, Passes task line

theorem Kept.push (h : Kept s) (hline : Passes s.currentTask line) : Kept (s.push line) := by
  intro task ls hls l hl
  simp only [Input.push, Function.update_apply] at hls
  split at hls
  next htask =>
    subst htask
    obtain rfl := Option.some.inj hls
    rcases List.mem_append.mp hl with hl | hl
    · cases htask : s.tasks s.currentTask with
      | none =>
          rw [htask] at hl
          exact absurd hl List.not_mem_nil
      | some old =>
          rw [htask] at hl
          exact h _ old htask l hl
    · obtain rfl := List.mem_singleton.mp hl
      exact hline
  next => exact h task ls hls l hl

theorem Kept.track (h : Kept s) (line : Text) : Kept (track s line) := by
  unfold Tasks.track
  cases hstart : search subStartPattern line with
  | some result =>
      intro task ls hls l hl
      simp only [Function.update_apply] at hls
      split at hls
      · obtain rfl := Option.some.inj hls
        exact absurd hl List.not_mem_nil
      · exact h task ls hls l hl
  | none =>
      dsimp only
      split_ifs with hend htype hblank
      · exact h
      · exact h
      · exact h
      · refine h.push ⟨hstart, hend, fun htask => ?_⟩
        exact Option.not_isSome_iff_eq_none.mp fun hsome => htype ⟨htask, hsome⟩

/-- Whatever the input, a line that is kept for a task has passed the tests. -/
theorem kept_foldl_track (lines : List Text) : Kept (lines.foldl Tasks.track .start) := by
  induction lines using List.reverseRecOn with
  | nil =>
      intro task ls hls
      cases hls
  | append_singleton lines line ih =>
      rw [List.foldl_append]
      exact ih.track line

end
end Osh.Tasks
