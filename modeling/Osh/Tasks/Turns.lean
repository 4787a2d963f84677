import Osh.Tasks.MainExecution

/-!
# Tasks one after the other

What the generated `main` is for: it executes the tasks in their order, each to its end
before the next one begins, and returns after the last. A task that does not end keeps all
later ones waiting.

## Main definitions

* `Turns`, `Turns.step`: tasks executed one after the other, by a loop for each of them.
* `RunsInTurn`: a program does what the tasks do one after the other.

## Main results

* `respects_programOf`: `main` takes one or more steps for each step of a loop.
* `runsInTurn_generated`: it runs the loops over the generated functions in turn.
* `runsInTurn_source`: it runs the tasks in turn if no run of a task goes wrong.
-/
namespace Osh.Tasks
open StateTransition Relation

/-! ## Turns -/

/-- What has been done by the tasks that have ended (the task, the line and the act), the other
tasks, and the run of the first of these. -/
structure Turns where
  ended : List (Text × ℕ × Act)
  rest : List Task
  run : Run

namespace Turns

def start (ts : List Task) : Turns := ⟨[], ts, .start⟩

/-- One step of the task whose turn it is. When it ends the next one begins. -/
def step (loop : Task → Run → Run) (u : Turns) : Option Turns :=
  match u.rest, u.run.status with
  | t :: ts, .running _ =>
      let r := loop t u.run
      if r.status = .ended then
        some ⟨u.ended ++ r.events.map (t.name, ·), ts, { Run.start with tests := r.tests }⟩
      else some { u with run := r }
  | _, _ => none

/-- All that has been done. -/
def events (u : Turns) : List (Text × ℕ × Act) :=
  match u.rest with
  | t :: _ => u.ended ++ u.run.events.map (t.name, ·)
  | [] => u.ended

def status (u : Turns) : MainStatus :=
  match u.rest, u.run.status with
  | [], _ => .returned
  | _, .fault => .fault
  | _, _ => .running

end Turns

/-- The functions are named by the task and the line. -/
def named (events : List (Text × ℕ × Act)) : List (Text × Act) :=
  events.map fun (task, line, act) => (funcName task line, act)

/-- `main` and the turns have done the same, and both go on, have ended, or have failed. -/
def MainRun.Shows (s : MainRun) (u : Turns) : Prop :=
  s.events = named u.events ∧ s.status = u.status

/-- **The program runs the tasks in turn**: whatever they do, one after the other, it does, and
it never does anything else. -/
def RunsInTurn (p : Program) (outcome : ℕ → Bool) (loop : Task → Run → Run) (ts : List Task) :
    Prop :=
  (∀ u, Reaches (Turns.step loop) (.start ts) u →
    ∃ s, Reaches (p.step outcome) p.start s ∧ s.Shows u) ∧
  ∀ s, Reaches (p.step outcome) p.start s →
    ∃ u, Reaches (Turns.step loop) (.start ts) u ∧ s.events <+: named u.events ∧
      (s.status ≠ .running → s.Shows u)

variable {ts behind : List Task} {t : Task} {u u' : Turns} {s : MainRun} (outcome : ℕ → Bool)

/-! ## The simulation -/

/-- Where `main` stands at the beginning of a turn's step. -/
structure Related (ts : List Task) (u : Turns) (s : MainRun) : Prop where
  suffix : u.rest <:+ ts
  shows : s.Shows u
  tests : s.tests = u.run.tests
  notEnded : u.run.status ≠ .ended
  running : ∀ t behind pc, u.rest = t :: behind → u.run.status = .running pc →
    s.pc = pc ∧ s.rest = t.loop ++ tailOf behind ∧ s.Filled t

/-- Where the code of a task begins, `main` goes on to its loop, and behind the last task it
returns. -/
theorem exists_begin (hnames : (ts.map fun t => uc t.name).Nodup) (hsuffix : behind <:+ ts)
    {ended : List (Text × ℕ × Act)} (hstatus : s.status = .running)
    (hrest : s.rest = tailOf behind) (hevents : s.events = named ended) :
    ∃ s', Reaches₁ ((programOf ts).step outcome) s s' ∧
      Related ts ⟨ended, behind, { Run.start with tests := s.tests }⟩ s' := by
  cases behind with
  | nil =>
      have hstep := (programOf ts).step_cons outcome hstatus hrest
      refine ⟨_, .single hstep, hsuffix, ⟨hevents, rfl⟩, rfl, nofun, ?_⟩
      intro t behind pc hnil
      cases hnil
  | cons t behind =>
      have ht : t ∈ ts := hsuffix.subset (List.mem_cons_self ..)
      rw [tailOf_cons] at hrest
      obtain ⟨tables, hreach, hfilled⟩ := exists_filled outcome ht hnames hstatus hrest
      refine ⟨_, hreach, hsuffix, ⟨?_, hstatus⟩, rfl, nofun, ?_⟩
      · simpa [Turns.events, Run.start] using hevents
      · intro t' behind' pc hcons hpc
        cases hcons
        cases hpc
        exact ⟨rfl, rfl, hfilled⟩

theorem named_append (events events' : List (Text × ℕ × Act)) :
    named (events ++ events') = named events ++ named events' := List.map_append

/-- At the beginning of its loop `main` makes a call. -/
theorem reaches_called (ts : List Task) (hstatus : s.status = .running)
    (hrest : s.rest = t.loop ++ tailOf behind) :
    Reaches₁ ((programOf ts).step outcome) s
      ((programOf ts).call outcome { s with rest := (t.loop ++ tailOf behind).drop 1 }
        (instrsVar t.name) ((t.loop ++ tailOf behind).drop 2)) := by
  have hlabel := (programOf ts).step_cons outcome hstatus hrest
  exact .tail (.single hlabel) (Program.step_cons
    (s := { s with rest := (t.loop ++ tailOf behind).drop 1 }) outcome _ hstatus rfl)

/-- The call of a function inside the table does what it does in the loop. -/
theorem reaches_call {run : Run} {l : Line} (ht : t ∈ ts)
    (hnames : (ts.map fun t => uc t.name).Nodup) (hstatus : s.status = .running)
    (hrest : s.rest = t.loop ++ tailOf behind) (hfilled : s.Filled t)
    (htests : s.tests = run.tests) {ended : List (Text × ℕ × Act)}
    (hevents : s.events = named (ended ++ run.events.map (t.name, ·)))
    (hl : t.lines[s.pc]? = some l) :
    let x := (t.body l).foldl (CStmt.execute outcome s.pc) (s.pc, run)
    Reaches₁ ((programOf ts).step outcome) s
      { s with
        rest := (t.loop ++ tailOf behind).drop 2, pc := x.1, tests := x.2.tests
        events := named (ended ++ x.2.events.map (t.name, ·)) } := by
  let alone : Run := ⟨[], s.tests, .running 0⟩
  have hbefore : run.events = run.events ++ alone.events := (List.append_nil _).symm
  have halone : run.tests = alone.tests := htests.symm
  obtain ⟨hpc, hfoldTests, hfoldEvents⟩ :=
    foldl_execute outcome s.pc (t.body l) s.pc halone hbefore
  have hline : ∀ event ∈ ((t.body l).foldl (CStmt.execute outcome s.pc) (s.pc, alone)).2.events,
      event.1 = s.pc := events_foldl_execute outcome s.pc (t.body l) s.pc nofun
  have hcalled := reaches_called outcome ts hstatus hrest
  intro x
  have hnamed : s.events ++ ((t.body l).foldl (CStmt.execute outcome s.pc)
      (s.pc, alone)).2.events.map (fun event => (funcName t.name s.pc, event.2)) =
        named (ended ++ x.2.events.map (t.name, ·)) := by
    rw [hfoldEvents, List.map_append, ← List.append_assoc, named_append, ← hevents, named,
      List.map_map]
    refine congrArg (s.events ++ ·) (List.map_congr_left fun event hevent => ?_)
    rw [← hline event hevent]
    rfl
  rw [call_eq (s := { s with rest := (t.loop ++ tailOf behind).drop 1 }) outcome _ ht hnames hfilled
    hl] at hcalled
  rw [← hnamed, hpc, hfoldTests]
  exact hcalled

/-- Outside the table both fail. -/
theorem reaches_fault (ht : t ∈ ts) (hnames : (ts.map fun t => uc t.name).Nodup)
    (hstatus : s.status = .running) (hrest : s.rest = t.loop ++ tailOf behind)
    (hpc : t.lines.length ≤ s.pc) :
    Reaches₁ ((programOf ts).step outcome) s
      { s with rest := (t.loop ++ tailOf behind).drop 1, status := .fault } := by
  have hcalled := reaches_called outcome ts hstatus hrest
  rw [call_eq_fault (s := { s with rest := (t.loop ++ tailOf behind).drop 1 }) outcome _ ht hnames
    hpc] at hcalled
  exact hcalled

/-- Behind the call the comparison decides between the next call and the end of the task. -/
theorem reaches_test (hts : ∃ before, ts = before ++ t :: behind)
    (hnames : (ts.map fun t => uc t.name).Nodup) (hstatus : s.status = .running)
    (hrest : s.rest = (t.loop ++ tailOf behind).drop 2) :
    Reaches₁ ((programOf ts).step outcome) s
      { s with
        rest := if s.pc = t.lines.length then tailOf behind else t.loop ++ tailOf behind } := by
  obtain ⟨before, hts⟩ := hts
  have ht : t ∈ ts := hts ▸ List.mem_append_right _ (List.mem_cons_self ..)
  have htest := (programOf ts).step_cons outcome hstatus hrest
  rw [Program.execute, lookup_defines ht hnames, after_endLabel hts hnames] at htest
  by_cases hend : s.pc = t.lines.length
  · rw [if_pos (congrArg some hend.symm)] at htest
    rw [if_pos hend]
    refine .tail (.single htest) ?_
    exact Program.step_cons (s := { s with rest := .label (endLabel t.name) :: tailOf behind })
      outcome _ hstatus rfl
  · rw [if_neg fun heq => hend (Option.some.inj heq).symm] at htest
    rw [if_neg hend]
    refine .tail (.single htest) ?_
    have hgoto := Program.step_cons (s := { s with rest := (t.loop ++ tailOf behind).drop 3 })
      outcome (programOf ts) hstatus rfl
    rw [Program.execute, after_callLabel hts hnames] at hgoto
    exact hgoto

theorem Turns.step_running {loop : Task → Run → Run} {ended : List (Text × ℕ × Act)} {run : Run}
    {pc : ℕ} (hrunning : run.status = .running pc) :
    Turns.step loop ⟨ended, t :: behind, run⟩ =
      if (loop t run).status = .ended then
        some ⟨ended ++ (loop t run).events.map (t.name, ·), behind,
          { Run.start with tests := (loop t run).tests }⟩
      else some ⟨ended, t :: behind, loop t run⟩ := by
  unfold Turns.step
  dsimp only
  rw [hrunning]

theorem Generated.step_outside {r : Run} {pc : ℕ} (hrunning : r.status = .running pc)
    (hpc : t.lines.length ≤ pc) :
    t.generated.step outcome r = { r with status := .fault } := by
  have hentry : t.generated.entry pc = none := if_neg (Nat.not_lt.mpr hpc)
  rw [Generated.step, hrunning]
  dsimp only
  rw [hentry]

/-- One step of a loop is one or more of `main`. -/
theorem exists_step (hnames : (ts.map fun t => uc t.name).Nodup)
    {ended : List (Text × ℕ × Act)} {run : Run} {pc : ℕ}
    (h : Related ts ⟨ended, t :: behind, run⟩ s) (hrunning : run.status = .running pc) :
    ∃ u' s', Turns.step (fun t => t.generated.step outcome) ⟨ended, t :: behind, run⟩ = some u' ∧
      Related ts u' s' ∧ Reaches₁ ((programOf ts).step outcome) s s' := by
  obtain ⟨before, hts⟩ := h.suffix
  have ht : t ∈ ts := hts ▸ List.mem_append_right _ (List.mem_cons_self ..)
  obtain ⟨rfl, hrest, hfilled⟩ := h.running t behind pc rfl hrunning
  have hstatus : s.status = .running := by
    rw [h.shows.2, Turns.status, hrunning]
  rw [Turns.step_running hrunning]
  by_cases hpc : s.pc < t.lines.length
  · have hl : t.lines[s.pc]? = some t.lines[s.pc] := List.getElem?_eq_getElem hpc
    have hcall := reaches_call outcome ht hnames hstatus hrest hfilled h.tests h.shows.1 hl
    rw [Generated.step_generated hrunning hl]
    dsimp only at hcall ⊢
    generalize (t.body t.lines[s.pc]).foldl (CStmt.execute outcome s.pc) (s.pc, run) = x at hcall ⊢
    let called : MainRun := { s with
      rest := (t.loop ++ tailOf behind).drop 2, pc := x.1, tests := x.2.tests
      events := named (ended ++ x.2.events.map (t.name, ·)) }
    have hreach : Reaches₁ ((programOf ts).step outcome) s { called with
        rest := if x.1 = t.lines.length then tailOf behind else t.loop ++ tailOf behind } :=
      hcall.trans (reaches_test (s := called) outcome ⟨before, hts.symm⟩ hnames hstatus rfl)
    by_cases hend : x.1 = t.lines.length
    · rw [if_pos hend] at hreach
      have hsuffix : behind <:+ ts := ⟨before ++ [t], by simp [← hts]⟩
      obtain ⟨s', hbegin, hrelated⟩ := exists_begin (s := { called with rest := tailOf behind })
        outcome hnames hsuffix hstatus rfl rfl
      have hended : (x.2.goOn t.lines.length x.1).status = .ended := if_pos hend
      exact ⟨_, s', if_pos hended, hrelated, hreach.trans hbegin⟩
    · rw [if_neg hend] at hreach
      have hgoes : (x.2.goOn t.lines.length x.1).status = .running x.1 := if_neg hend
      have hnot : (x.2.goOn t.lines.length x.1).status ≠ .ended := by
        rw [hgoes]
        exact nofun
      refine ⟨_, _, if_neg hnot, ⟨h.suffix, ⟨rfl, ?_⟩, rfl, hnot, ?_⟩, hreach⟩
      · rw [Turns.status, hgoes]
        exact hstatus
      · intro t' behind' pc hcons hpc
        cases hcons
        obtain rfl : x.1 = pc := Status.running.inj (hgoes.symm.trans hpc)
        exact ⟨rfl, rfl, hfilled⟩
  · rw [Generated.step_outside outcome hrunning (Nat.not_lt.mp hpc)]
    have hfault := reaches_fault outcome ht hnames hstatus hrest (Nat.not_lt.mp hpc)
    refine ⟨_, { s with rest := (t.loop ++ tailOf behind).drop 1, status := .fault },
      if_neg nofun, ⟨h.suffix, ⟨h.shows.1, rfl⟩, h.tests, nofun, ?_⟩, hfault⟩
    intro t' behind' pc _ hrun
    cases hrun

/-- **The loops in turn and `main`**: `main` goes through states that show what the loops have
done, and stops when they do. -/
theorem respects_programOf (hnames : (ts.map fun t => uc t.name).Nodup) :
    Respects (Turns.step fun t => t.generated.step outcome) ((programOf ts).step outcome)
      (Related ts) := by
  intro u s h
  obtain ⟨ended, rest, run⟩ := u
  cases rest with
  | nil =>
      have hreturned : s.status = .returned := h.shows.2
      exact Program.step_of_ne outcome (by rw [hreturned]; exact nofun)
  | cons t behind =>
      cases hrun : run.status with
      | running pc =>
          obtain ⟨u', s', hstep, hrelated, hreach⟩ := exists_step outcome hnames h hrun
          rw [hstep]
          exact ⟨s', hrelated, hreach⟩
      | ended => exact absurd hrun h.notEnded
      | fault =>
          have hfault : s.status = .fault := by
            rw [h.shows.2, Turns.status, hrun]
          have hnone : Turns.step (fun t => t.generated.step outcome) ⟨ended, t :: behind, run⟩ =
              none := by
            unfold Turns.step
            dsimp only
            rw [hrun]
          rw [hnone]
          exact Program.step_of_ne outcome (by rw [hfault]; exact nofun)

/-- `main` first sets the timers, while `pc` is zero. -/
theorem reaches_tailOf (ts : List Task) : Reaches ((programOf ts).step outcome) (programOf ts).start
    { (programOf ts).start with rest := tailOf ts } := by
  have htimer : ∀ (var : Text) (rest rest' : List MainStmt),
      (programOf ts).execute outcome { (programOf ts).start with rest } rest' (.assign var 0) =
        { (programOf ts).start with rest := rest' } := by
    intro var rest rest'
    have hpc : (if var = "pc".toList then 0 else (programOf ts).start.pc) = 0 := ite_self 0
    rw [Program.execute, hpc]
    rfl
  have hstatus : (programOf ts).start.status = .running := rfl
  have hfirst := (programOf ts).step_cons outcome hstatus (main_programOf ts)
  have hsecond := Program.step_cons (s := { (programOf ts).start with
    rest := .assign "blocking_timer".toList 0 :: tailOf ts }) outcome (programOf ts) hstatus rfl
  rw [htimer _ (.assign "blocking_timer".toList 0 :: tailOf ts)] at hsecond
  exact .tail (.single (hfirst.trans (congrArg some (htimer ..)))) hsecond

/-- **`main` runs the loops over the generated functions in turn**, whatever the conditions
turn out to be and wherever `pc` goes. -/
theorem runsInTurn_generated (hnames : (ts.map fun t => uc t.name).Nodup) :
    RunsInTurn (programOf ts) outcome (fun t => t.generated.step outcome) ts := by
  let timers : MainRun := { (programOf ts).start with rest := tailOf ts }
  have hnothing : timers.events = named [] := rfl
  obtain ⟨s₀, hbegin, hrelated⟩ := exists_begin (s := timers) outcome hnames (List.suffix_refl ts)
    rfl rfl hnothing
  have hstart := (reaches_tailOf outcome ts).trans hbegin.to_reflTransGen
  refine ⟨fun u hu => ?_, fun s hs => ?_⟩
  · obtain ⟨s, hs, hreach⟩ := tr_reaches (respects_programOf outcome hnames) hrelated hu
    exact ⟨s, hstart.trans hreach, hs.shows⟩
  · obtain ⟨u, s', hu, hs', hreach⟩ :=
      exists_related_of_reaches (respects_programOf outcome hnames) hstart hrelated hs
    refine ⟨u, hu, ?_, fun hstatus => ?_⟩
    · rw [← hs'.shows.1]
      exact prefix_of_reaches (fun _ _ h => Program.events_step h) hreach
    · obtain rfl := eq_of_reaches (Program.step_of_ne outcome hstatus) hreach
      exact hs'.shows

/-! ## The tasks themselves -/

/-- The same run, after the given number of earlier tests. -/
def Run.shift (r : Run) (k : ℕ) : Run := { r with tests := k + r.tests }

/-- The outcomes behind the first ones are those that a later task sees. -/
theorem Task.step_shift (t : Task) (k : ℕ) (r : Run) :
    t.step outcome (r.shift k) = (t.step (fun i => outcome (k + i)) r).shift k := by
  obtain ⟨events, tests, status⟩ := r
  cases status with
  | running line =>
      cases hl : t.lines[line]? with
      | none => simp [Task.step, Run.shift, hl]
      | some l =>
          simp only [Task.step, Run.shift, hl]
          cases l.stmt with
          | ifGoto indent gap₁ cond gap₂ gap₃ target =>
              simp [Task.execute, Run.goOn, Run.emit, Nat.add_assoc]
          | _ => rfl
  | ended => rfl
  | fault => rfl

/-- Where the task whose turn it is stands in a run of its own. -/
def Turns.InRun (u : Turns) (outcome : ℕ → Bool) : Prop :=
  ∀ t behind, u.rest = t :: behind →
    ∃ k n, u.run = (t.after (fun i => outcome (k + i)) n).shift k

theorem inRun_of_reaches (h : Reaches (Turns.step fun t => t.step outcome) (.start ts) u) :
    u.InRun outcome ∧ u.rest <:+ ts := by
  induction h with
  | refl =>
      refine ⟨fun t behind _ => ⟨0, 0, ?_⟩, List.suffix_refl _⟩
      rfl
  | @tail u u' _ hstep ih =>
      obtain ⟨hrun, hsuffix⟩ := ih
      obtain ⟨ended, rest, run⟩ := u
      cases rest with
      | nil => cases hstep
      | cons t behind =>
          cases hrunning : run.status with
          | running pc =>
              obtain ⟨k, n, rfl⟩ := hrun t behind rfl
              rw [Option.mem_def, Turns.step_running hrunning] at hstep
              split at hstep
              · obtain rfl := Option.some.inj hstep
                refine ⟨fun t' behind' _ => ⟨_, 0, rfl⟩, ?_⟩
                exact (List.suffix_cons t behind).trans hsuffix
              · obtain rfl := Option.some.inj hstep
                refine ⟨?_, hsuffix⟩
                intro t' behind' hcons
                cases hcons
                refine ⟨k, n + 1, ?_⟩
                rw [Task.step_shift, Task.after, Task.after, Function.iterate_succ_apply']
          | ended =>
              rw [Option.mem_def, Turns.step] at hstep
              simp [hrunning] at hstep
          | fault =>
              rw [Option.mem_def, Turns.step] at hstep
              simp [hrunning] at hstep

/-- Where no run of a task reaches a plain statement with a label, the loop over its functions
does what the task does. -/
theorem step_source (hnot : ∀ t ∈ ts, ∀ outcome n, ¬ t.AtDoubled (t.after outcome n))
    (h : Reaches (Turns.step fun t => t.step outcome) (.start ts) u) :
    Turns.step (fun t => t.step outcome) u =
      Turns.step (fun t => t.generated.step outcome) u := by
  obtain ⟨hrun, hsuffix⟩ := inRun_of_reaches outcome h
  obtain ⟨ended, rest, run⟩ := u
  cases rest with
  | nil => rfl
  | cons t behind =>
      have ht : t ∈ ts := hsuffix.subset (List.mem_cons_self ..)
      cases hrunning : run.status with
      | running pc =>
          obtain ⟨k, n, rfl⟩ := hrun t behind rfl
          have hagree : t.generated.step outcome
              ((t.after (fun i => outcome (k + i)) n).shift k) =
                t.step outcome ((t.after (fun i => outcome (k + i)) n).shift k) := by
            rcases t.inside_after (fun i => outcome (k + i)) n with hended | ⟨i, hi, hlt⟩
            · cases hended.symm.trans hrunning
            · have hl : t.lines[i]? = some t.lines[i] := List.getElem?_eq_getElem hlt
              refine step_agrees hi hl fun hdoubled => ?_
              exact hnot t ht _ n ⟨i, t.lines[i], hi, hl, hdoubled⟩
          rw [Turns.step_running hrunning, Turns.step_running hrunning, hagree]
      | ended => simp [Turns.step, hrunning]
      | fault => simp [Turns.step, hrunning]

/-- **`main` runs the tasks in turn**, where none of their runs reaches such a line. -/
theorem runsInTurn_source (hnames : (ts.map fun t => uc t.name).Nodup)
    (hnot : ∀ t ∈ ts, ∀ outcome n, ¬ t.AtDoubled (t.after outcome n)) :
    RunsInTurn (programOf ts) outcome (fun t => t.step outcome) ts := by
  obtain ⟨hshown, hdone⟩ := runsInTurn_generated outcome hnames
  have hsame : ∀ u, Reaches (Turns.step fun t => t.step outcome) (.start ts) u ↔
      Reaches (Turns.step fun t => t.generated.step outcome) (.start ts) u :=
    fun u => reaches_congr fun v hv => step_source outcome hnot hv
  refine ⟨fun u hu => hshown u ((hsame u).mp hu), fun s hs => ?_⟩
  obtain ⟨u, hu, hprefix⟩ := hdone s hs
  exact ⟨u, (hsame u).mpr hu, hprefix⟩

end Osh.Tasks
