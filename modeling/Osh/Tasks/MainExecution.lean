import Osh.Lib.Transition
import Osh.Tasks.ControlFlow
import Osh.Tasks.OutputReading

/-!
# The generated `main`, executed

What the pieces of `main` do: the assignments before a loop fill the table of its task, a
call executes the function for the line that `pc` stands at, and a jump leads to the label of
its own task.

## Main results

* `after_callLabel`, `after_endLabel`: where the jumps lead.
* `exists_filled`: the table of a task after the assignments.
* `call_eq`, `call_eq_fault`: a call, inside the table and outside.
-/
namespace Osh.Tasks
open StateTransition Relation

variable {ts before behind : List Task} {t : Task} {s : MainRun} {i : ℕ} {rest : List MainStmt}
variable {p : Program} (outcome : ℕ → Bool)

/-! ## Steps -/

theorem Program.step_cons (p : Program) (hstatus : s.status = .running) {stmt : MainStmt}
    (hrest : s.rest = stmt :: rest) :
    p.step outcome s = some (p.execute outcome s rest stmt) := by
  rw [Program.step, hstatus, hrest]

theorem Program.step_of_ne (hstatus : s.status ≠ .running) : p.step outcome s = none := by
  rw [Program.step]
  split
  · exact absurd ‹_› hstatus
  · rfl

/-- What has been done stays done. -/
theorem Program.events_step {outcome : ℕ → Bool} {s' : MainRun} (h : s' ∈ p.step outcome s) :
    s.events <+: s'.events := by
  rw [Option.mem_def, Program.step] at h
  split at h
  · split at h
    · obtain rfl := Option.some.inj h
      rename_i stmt rest hrest
      cases stmt with
      | call table =>
          rw [Program.execute, Program.call]
          split
          · exact List.prefix_refl _
          · split
            · exact List.prefix_refl _
            · exact List.prefix_append ..
      | entry table id func =>
          rw [Program.execute]
          split <;> exact List.prefix_refl _
      | _ => exact List.prefix_refl _
    · obtain rfl := Option.some.inj h
      exact List.prefix_refl _
  · cases h

/-! ## Labels -/

/-- The rest of `main` from the code of the given tasks on. -/
def tailOf (ts : List Task) : List MainStmt := ts.flatMap Task.block ++ [.ret]

theorem tailOf_cons (t : Task) (ts : List Task) : tailOf (t :: ts) =
    t.entries ++ .assign "pc".toList 0 :: (t.loop ++ tailOf ts) := by
  simp [tailOf, Task.block]

theorem main_programOf (ts : List Task) : (programOf ts).main =
    .assign "system_timer".toList 0 :: .assign "blocking_timer".toList 0 :: tailOf ts := by
  simp [programOf, tailOf]

theorem tailOf_append (before behind : List Task) :
    tailOf (before ++ behind) = before.flatMap Task.block ++ tailOf behind := by
  simp [tailOf]

/-- A jump leads to the one place with its label. -/
theorem Program.after_eq (pre : List MainStmt) {target : Text} (hlabels : p.labels.Nodup)
    (hmain : p.main = pre ++ .label target :: rest) : p.after target = .label target :: rest := by
  have hpre : ∀ stmt ∈ pre, decide (stmt ≠ .label target) = true := by
    intro stmt hstmt
    rw [decide_eq_true_eq]
    rintro rfl
    rw [Program.labels, hmain, List.filterMap_append, List.nodup_append] at hlabels
    have hleft : target ∈ pre.filterMap MainStmt.label? :=
      List.mem_filterMap.mpr ⟨_, hstmt, rfl⟩
    exact hlabels.2.2 target hleft target (List.mem_cons_self ..) rfl
  rw [Program.after, hmain]
  exact dropWhile_append_of_all hpre (by simp)

section
variable (hts : ts = before ++ t :: behind) (hnames : (ts.map fun t => uc t.name).Nodup)
include hts hnames

theorem after_callLabel :
    (programOf ts).after (callLabel t.name) = t.loop ++ tailOf behind := by
  refine Program.after_eq (.assign "system_timer".toList 0 ::
    .assign "blocking_timer".toList 0 :: (before.flatMap Task.block ++ (t.entries ++
      [.assign "pc".toList 0]))) (nodup_labels_iff.mpr hnames) ?_
  rw [main_programOf, hts, tailOf_append, tailOf_cons]
  simp [Task.loop]

theorem after_endLabel :
    (programOf ts).after (endLabel t.name) = .label (endLabel t.name) :: tailOf behind := by
  refine Program.after_eq (.assign "system_timer".toList 0 ::
    .assign "blocking_timer".toList 0 :: (before.flatMap Task.block ++ (t.entries ++
      .assign "pc".toList 0 :: t.loop.dropLast))) (nodup_labels_iff.mpr hnames) ?_
  rw [main_programOf, hts, tailOf_append, tailOf_cons]
  simp [Task.loop]

end

/-! ## Tables -/

section
variable (ht : t ∈ ts) (hnames : (ts.map fun t => uc t.name).Nodup)
include ht hnames

theorem eq_of_uc {u : Task} (hu : u ∈ ts) (h : uc u.name = uc t.name) : u = t :=
  List.inj_on_of_nodup_map hnames hu ht h

theorem lookup_defines : (programOf ts).defines.lookup (ninstrsVar t.name) = some t.lines.length :=
  lookup_map (fun t : Task => ninstrsVar t.name) (fun t => t.lines.length) ht
    fun _ hu h => eq_of_uc ht hnames hu (List.append_cancel_left h)

theorem size_instrsVar : (programOf ts).size (instrsVar t.name) = some t.lines.length := by
  have htable : (programOf ts).tables.lookup (instrsVar t.name) = some (ninstrsVar t.name) := by
    refine lookup_map (fun t : Task => instrsVar t.name) (fun t => ninstrsVar t.name) ht ?_
    intro u hu h
    exact eq_of_uc ht hnames hu (by rw [List.append_cancel_right h])
  rw [Program.size, htable, Option.bind_eq_bind, Option.bind_some, lookup_defines ht hnames]

/-- The function for a line. -/
theorem lookup_funcs {l : Line} (hl : t.lines[i]? = some l) :
    (programOf ts).funcs.lookup (funcName t.name i) = some (t.body l) := by
  let linesOf (t : Task) : List (Task × Line × ℕ) := t.lines.zipIdx.map (t, ·)
  have hfuncs : (programOf ts).funcs =
      (ts.flatMap linesOf).map fun x => (funcName x.1.name x.2.2, x.1.body x.2.1) := by
    rw [List.map_flatMap]
    refine List.flatMap_congr fun u _ => ?_
    rw [List.map_map]
    rfl
  have hline : (l, i) ∈ t.lines.zipIdx := List.mem_zipIdx_iff_getElem?.mpr hl
  have hmem : (t, l, i) ∈ ts.flatMap linesOf :=
    List.mem_flatMap.mpr ⟨t, ht, List.mem_map.mpr ⟨(l, i), hline, rfl⟩⟩
  rw [hfuncs]
  refine lookup_map (fun x : Task × Line × ℕ => funcName x.1.name x.2.2)
    (fun x => x.1.body x.2.1) hmem ?_
  rintro ⟨u, k, j⟩ hk hkey
  obtain ⟨u', hu, hk⟩ := List.mem_flatMap.mp hk
  obtain ⟨⟨k', j'⟩, hk, heq⟩ := List.mem_map.mp hk
  cases heq
  obtain ⟨hname, rfl⟩ := funcName_inj hkey
  obtain rfl : u = t := eq_of_uc ht hnames hu (by rw [hname])
  have hkl : u.lines[j]? = some k := List.mem_zipIdx_iff_getElem?.mp hk
  obtain rfl : k = l := Option.some.inj (hkl.symm.trans hl)
  rfl

end

/-- The table of a task holds the functions for its lines. -/
def MainRun.Filled (s : MainRun) (t : Task) : Prop :=
  ∀ i < t.lines.length, s.tables (instrsVar t.name) i = some (funcName t.name i)

/-- The assignments fill the entries that they are for, and change nothing else. -/
theorem exists_entries (ht : t ∈ ts) (hnames : (ts.map fun t => uc t.name).Nodup) (ids : List ℕ)
    (hids : ∀ id ∈ ids, id < t.lines.length) (hstatus : s.status = .running)
    (hrest : s.rest =
      (ids.map fun id => .entry (instrsVar t.name) id (funcName t.name id)) ++ rest) :
    ∃ tables, Reaches ((programOf ts).step outcome) s { s with rest, tables } ∧
      (∀ id ∈ ids, tables (instrsVar t.name) id = some (funcName t.name id)) ∧
      ∀ id, s.tables (instrsVar t.name) id = some (funcName t.name id) →
        tables (instrsVar t.name) id = some (funcName t.name id) := by
  induction ids generalizing s with
  | nil =>
      obtain rfl : s.rest = rest := hrest
      exact ⟨s.tables, .refl, fun id hid => absurd hid List.not_mem_nil, fun id hid => hid⟩
  | cons id ids ih =>
      have hid : id < t.lines.length := hids id (List.mem_cons_self ..)
      have hsize : ((programOf ts).size (instrsVar t.name)).any (id < ·) = true := by
        rw [size_instrsVar ht hnames]
        exact decide_eq_true hid
      let next : MainRun := { s with
        rest := (ids.map fun id => .entry (instrsVar t.name) id (funcName t.name id)) ++ rest
        tables := fun table i =>
          if table = instrsVar t.name ∧ i = id then some (funcName t.name id)
          else s.tables table i }
      have hstep : (programOf ts).step outcome s = some next := by
        rw [Program.step_cons outcome _ hstatus hrest, Program.execute, if_pos hsize]
        rfl
      obtain ⟨tables, hreach, hfilled, hkept⟩ :=
        ih (s := next) (fun i hi => hids i (List.mem_cons_of_mem id hi)) hstatus rfl
      refine ⟨tables, hreach.head hstep, ?_, ?_⟩
      · intro i hi
        rcases List.mem_cons.mp hi with rfl | hi
        · exact hkept i (if_pos ⟨rfl, rfl⟩)
        · exact hfilled i hi
      · intro i hi
        refine hkept i ?_
        by_cases hii : i = id
        · exact hii ▸ if_pos ⟨rfl, rfl⟩
        · exact (if_neg fun h => hii h.2).trans hi

/-- Where the code of a task begins, its table is filled and `pc` set to zero. -/
theorem exists_filled (ht : t ∈ ts) (hnames : (ts.map fun t => uc t.name).Nodup)
    (hstatus : s.status = .running)
    (hrest : s.rest = t.entries ++ .assign "pc".toList 0 :: rest) :
    ∃ tables, Reaches₁ ((programOf ts).step outcome) s { s with rest, tables, pc := 0 } ∧
      ∀ i < t.lines.length, tables (instrsVar t.name) i = some (funcName t.name i) := by
  obtain ⟨tables, hreach, hfilled, -⟩ := exists_entries outcome ht hnames
    (List.range t.lines.length) (fun id hid => List.mem_range.mp hid) hstatus hrest
  let filled : MainRun := { s with rest := .assign "pc".toList 0 :: rest, tables }
  have hstep : (programOf ts).step outcome filled = some { s with rest, tables, pc := 0 } := by
    rw [Program.step_cons (s := filled) outcome _ hstatus rfl]
    simp [Program.execute, filled]
  exact ⟨tables, TransGen.tail' hreach hstep, fun i hi => hfilled i (List.mem_range.mpr hi)⟩

/-! ## Calls -/

/-- What a function does, does not depend on what has been done before. -/
theorem foldl_execute (i : ℕ) (body : List CStmt) (pc : ℕ) {r r' : Run} {before : List (ℕ × Act)}
    (htests : r.tests = r'.tests) (hevents : r.events = before ++ r'.events) :
    let x := body.foldl (CStmt.execute outcome i) (pc, r)
    let x' := body.foldl (CStmt.execute outcome i) (pc, r')
    x.1 = x'.1 ∧ x.2.tests = x'.2.tests ∧ x.2.events = before ++ x'.2.events := by
  induction body generalizing pc r r' with
  | nil => exact ⟨rfl, htests, hevents⟩
  | cons stmt body ih =>
      cases stmt with
      | plain text => exact ih pc htests (by simp [hevents])
      | incPc => exact ih (pc + 1) htests hevents
      | setPc n => exact ih n htests (by simp [hevents])
      | branch cond n =>
          have htarget : (if outcome r.tests then n else pc + 1) =
              if outcome r'.tests then n else pc + 1 := by rw [htests]
          simp only [List.foldl_cons, CStmt.execute, htarget]
          exact ih _ (congrArg (· + 1) htests) (by simp [hevents])

theorem events_foldl_execute (i : ℕ) (body : List CStmt) (pc : ℕ) {r : Run}
    (h : ∀ event ∈ r.events, event.1 = i) :
    ∀ event ∈ (body.foldl (CStmt.execute outcome i) (pc, r)).2.events, event.1 = i := by
  obtain ⟨acts, hacts⟩ := events_foldl outcome i body pc r
  rw [hacts]
  intro event hevent
  rcases List.mem_append.mp hevent with hevent | hevent
  · exact h event hevent
  · obtain ⟨act, -, rfl⟩ := List.mem_map.mp hevent
    rfl

/-- A call inside the table executes the function for the line. -/
theorem call_eq (rest : List MainStmt) (ht : t ∈ ts)
    (hnames : (ts.map fun t => uc t.name).Nodup) (hfilled : s.Filled t) {l : Line}
    (hl : t.lines[s.pc]? = some l) :
    (programOf ts).call outcome s (instrsVar t.name) rest =
      let (pc, r) := (t.body l).foldl (CStmt.execute outcome s.pc)
        (s.pc, ⟨[], s.tests, .running 0⟩)
      { s with
        rest, pc, tests := r.tests
        events := s.events ++ r.events.map fun event => (funcName t.name s.pc, event.2) } := by
  have hpc : s.pc < t.lines.length := (List.getElem?_eq_some_iff.mp hl).1
  have hcallee : (programOf ts).callee s (instrsVar t.name) = some (funcName t.name s.pc) := by
    rw [Program.callee, size_instrsVar ht hnames, Option.bind_eq_bind, Option.bind_some,
      if_pos hpc, hfilled _ hpc]
  unfold Program.call
  rw [hcallee]
  dsimp only
  rw [lookup_funcs ht hnames hl]

/-- A call outside the table fails. -/
theorem call_eq_fault (rest : List MainStmt) (ht : t ∈ ts)
    (hnames : (ts.map fun t => uc t.name).Nodup) (hpc : t.lines.length ≤ s.pc) :
    (programOf ts).call outcome s (instrsVar t.name) rest = { s with status := .fault } := by
  have hcallee : (programOf ts).callee s (instrsVar t.name) = none := by
    rw [Program.callee, size_instrsVar ht hnames, Option.bind_eq_bind, Option.bind_some,
      if_neg (by omega)]
  unfold Program.call
  rw [hcallee]

end Osh.Tasks
