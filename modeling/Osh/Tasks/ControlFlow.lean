import Osh.Tasks.GeneratedProgram
import Mathlib.Data.Nat.Find

/-!
# Control flow of the generated program

The loop over the generated functions goes from line to line as the source task does,
with one function called for each line executed. Only a plain statement with a label
takes it elsewhere: its function increments `pc` twice, which skips the next line, or
the comparison that ends the loop.

## Main definitions

* `Line.Doubled`: a plain statement with a label.
* `ControlPreserved`: the generated program does what the task does.
-/
namespace Osh.Tasks

variable {t : Task} {l : Line} {outcome : ℕ → Bool} {r : Run} {i n : ℕ}

/-- A plain statement with a label. -/
def Line.Doubled (l : Line) : Prop := l.label.isSome ∧ l.stmt.target? = none

instance : DecidablePred Line.Doubled := fun _ => inferInstanceAs (Decidable (_ ∧ _))

/-- The run stands at such a line. -/
def Task.AtDoubled (t : Task) (r : Run) : Prop :=
  ∃ i l, r.status = .running i ∧ t.lines[i]? = some l ∧ l.Doubled

/-- **Control flow is preserved**: the script generates a program which, whatever the
conditions turn out to be, executes the same statements and tests on the same lines as
the task, never calls an entry that is not in the table, and leaves the loop exactly when
the task falls off its end. -/
def ControlPreserved (t : Task) : Prop :=
  ∃ g, compile t.name t.source = some g ∧ ∀ outcome n,
    (g.after outcome n).observed = (t.after outcome n).observed ∧
      (g.after outcome n).status ≠ .fault

/-! ## The source task -/

theorem Task.position_lt (hl : l ∈ t.lines) {target : Text} (htarget : target ∈ l.stmt.target?) :
    t.position target < t.lines.length := by
  have hcount : (labelsOf t.lines).count target = 1 := t.defined l hl target htarget
  have hmem : target ∈ labelsOf t.lines := List.count_pos_iff.mp (by omega)
  obtain ⟨k, hk, hlabel⟩ := List.mem_filterMap.mp hmem
  exact List.findIdx_lt_length_of_exists ⟨k, hk, by simpa using hlabel⟩

/-- The run stands at a line of the task, or has ended. -/
def Task.Inside (t : Task) (r : Run) : Prop :=
  r.status = .ended ∨ ∃ i, r.status = .running i ∧ i < t.lines.length

theorem Task.inside_goOn (h : i ≤ t.lines.length) : t.Inside (r.goOn t.lines.length i) := by
  by_cases hi : i = t.lines.length
  · exact .inl (by simp [Run.goOn, hi])
  · exact .inr ⟨i, by simp [Run.goOn, hi], by omega⟩

theorem Task.step_eq (hrunning : r.status = .running i) (hl : t.lines[i]? = some l) :
    t.step outcome r = t.execute outcome i r l.stmt := by
  rw [Task.step, hrunning]
  dsimp only
  rw [hl]

theorem Task.inside_step (h : t.Inside r) : t.Inside (t.step outcome r) := by
  rcases h with hended | ⟨i, hrunning, hi⟩
  · exact .inl (by simp [Task.step, hended])
  · obtain ⟨l, hl⟩ : ∃ l, t.lines[i]? = some l := ⟨_, List.getElem?_eq_getElem hi⟩
    have hmem : l ∈ t.lines := List.mem_of_getElem? hl
    rw [Task.step_eq hrunning hl]
    cases hstmt : l.stmt with
    | plain text => exact Task.inside_goOn (i := i + 1) (by omega)
    | goto indent gap target =>
        have htarget : target ∈ l.stmt.target? := by simp [hstmt, Stmt.target?]
        exact Task.inside_goOn (Nat.le_of_lt (Task.position_lt hmem htarget))
    | ifGoto indent gap₁ cond gap₂ gap₃ target =>
        have htarget : target ∈ l.stmt.target? := by simp [hstmt, Stmt.target?]
        have hlt : t.position target < t.lines.length := Task.position_lt hmem htarget
        rw [Task.execute]
        refine Task.inside_goOn ?_
        split <;> omega

/-- The task never leaves its lines but at its end. -/
theorem Task.inside_after (t : Task) (outcome : ℕ → Bool) (n : ℕ) :
    t.Inside (t.after outcome n) := by
  induction n with
  | zero => exact .inr ⟨0, rfl, List.length_pos_iff.mpr t.nonempty⟩
  | succ n ih =>
      rw [Task.after, Function.iterate_succ_apply']
      exact Task.inside_step ih

/-! ## One line, one call -/

theorem foldl_plain (line pc : ℕ) (r : Run) (segs : List Text) :
    (segs.map CStmt.plain).foldl (CStmt.execute outcome line) (pc, r) =
      (pc, r.emit line (segs.map .plain)) := by
  induction segs generalizing r with
  | nil => simp [Run.emit]
  | cons seg segs ih =>
      rw [List.map_cons, List.foldl_cons, CStmt.execute, ih]
      simp [Run.emit]

theorem foldl_incPc (line pc : ℕ) (r : Run) (k : ℕ) :
    (List.replicate k CStmt.incPc).foldl (CStmt.execute outcome line) (pc, r) = (pc + k, r) := by
  induction k generalizing pc with
  | zero => rfl
  | succ k ih =>
      rw [List.replicate_succ, List.foldl_cons, CStmt.execute, ih]
      congr 1
      omega

theorem Generated.step_generated (hrunning : r.status = .running i) (hl : t.lines[i]? = some l) :
    t.generated.step outcome r =
      let (pc, r') := (t.body l).foldl (CStmt.execute outcome i) (i, r)
      r'.goOn t.lines.length pc := by
  rw [Generated.step, hrunning]
  dsimp only
  rw [Task.entry_generated hl]
  rfl

/-- A call does what the line does, unless it is a plain statement with a label. -/
theorem step_agrees (hrunning : r.status = .running i) (hl : t.lines[i]? = some l)
    (hnot : ¬ l.Doubled) : t.generated.step outcome r = t.step outcome r := by
  rw [Generated.step_generated hrunning hl, Task.step_eq hrunning hl, Task.body]
  cases hstmt : l.stmt with
  | plain text =>
      have hlabel : l.label.isSome = false := by
        simpa [Line.Doubled, hstmt, Stmt.target?] using hnot
      dsimp only
      rw [hlabel, List.foldl_append, foldl_plain, foldl_incPc]
      rfl
  | goto indent gap target => rfl
  | ifGoto indent gap₁ cond gap₂ gap₃ target => rfl

/-- If it is one, the next line is skipped. -/
theorem step_doubled (outcome : ℕ → Bool) (hrunning : r.status = .running i)
    (hl : t.lines[i]? = some l) (hdoubled : l.Doubled) :
    ∃ r' : Run, t.step outcome r = r'.goOn t.lines.length (i + 1) ∧
      t.generated.step outcome r = r'.goOn t.lines.length (i + 2) := by
  rw [Generated.step_generated hrunning hl, Task.step_eq hrunning hl, Task.body]
  cases hstmt : l.stmt with
  | plain text =>
      refine ⟨_, rfl, ?_⟩
      dsimp only
      rw [hdoubled.1, List.foldl_append, foldl_plain, foldl_incPc]
      rfl
  | goto indent gap target => simp [Line.Doubled, hstmt, Stmt.target?] at hdoubled
  | ifGoto indent gap₁ cond gap₂ gap₃ target => simp [Line.Doubled, hstmt, Stmt.target?] at hdoubled

/-- The runs are the same as long as no such line has been reached. -/
theorem after_agrees (h : ∀ m < n, ¬ t.AtDoubled (t.after outcome m)) :
    t.generated.after outcome n = t.after outcome n := by
  induction n with
  | zero => rfl
  | succ n ih =>
      have hn : t.generated.after outcome n = t.after outcome n := ih fun m hm => h m (by omega)
      have hnot : ¬ t.AtDoubled (t.after outcome n) := h n (by omega)
      have hstep : t.generated.step outcome (t.after outcome n) =
          t.step outcome (t.after outcome n) := by
        rcases t.inside_after outcome n with hended | ⟨i, hrunning, hi⟩
        · simp [Generated.step, Task.step, hended]
        · obtain ⟨l, hl⟩ : ∃ l, t.lines[i]? = some l := ⟨_, List.getElem?_eq_getElem hi⟩
          exact step_agrees hrunning hl fun hdoubled => hnot ⟨i, l, hrunning, hl, hdoubled⟩
      rw [Generated.after, Function.iterate_succ_apply', ← Generated.after, hn, hstep, Task.after,
        Task.after, Function.iterate_succ_apply']

/-! ## A line skipped -/

/-- Every line of the task leaves a trace of its own. -/
theorem events_execute (t : Task) (outcome : ℕ → Bool) (i : ℕ) (r : Run) {s : Stmt}
    (hvalid : s.Valid) :
    ∃ (act : Act) (acts : List Act), (t.execute outcome i r s).events =
      r.events ++ (act :: acts).map fun act => (i, act) := by
  cases s with
  | plain text =>
      obtain ⟨-, hne, -⟩ := plainSegments_eq hvalid.1
      obtain ⟨seg, segs, hsegs⟩ := List.exists_cons_of_ne_nil hne
      exact ⟨.plain seg, segs.map .plain, by simp [Task.execute, hsegs]⟩
  | goto indent gap target => exact ⟨.jump, [], rfl⟩
  | ifGoto indent gap₁ cond gap₂ gap₃ target => exact ⟨.test cond, [], rfl⟩

/-- What a function does is seen on its own line. -/
theorem events_foldl (outcome : ℕ → Bool) (line : ℕ) (body : List CStmt) (pc : ℕ) (r : Run) :
    ∃ acts : List Act, (body.foldl (CStmt.execute outcome line) (pc, r)).2.events =
      r.events ++ acts.map fun act => (line, act) := by
  induction body generalizing pc r with
  | nil => exact ⟨[], by simp⟩
  | cons stmt body ih =>
      rw [List.foldl_cons]
      cases stmt with
      | plain text =>
          obtain ⟨acts, hacts⟩ := ih pc (r.emit line [.plain text])
          refine ⟨.plain text :: acts, ?_⟩
          rw [CStmt.execute, hacts]
          simp
      | incPc => exact ih (pc + 1) r
      | setPc n =>
          obtain ⟨acts, hacts⟩ := ih n (r.emit line [.jump])
          refine ⟨.jump :: acts, ?_⟩
          rw [CStmt.execute, hacts]
          simp
      | branch cond n =>
          obtain ⟨acts, hacts⟩ := ih (if outcome r.tests then n else pc + 1)
            ({ r with tests := r.tests + 1 }.emit line [.test cond])
          refine ⟨.test cond :: acts, ?_⟩
          rw [CStmt.execute, hacts]
          simp

/-- After a plain statement with a label the two runs can be told apart. -/
theorem observed_ne (outcome : ℕ → Bool) (hrunning : r.status = .running i)
    (hl : t.lines[i]? = some l) (hdoubled : l.Doubled) :
    (t.generated.step outcome r).observed ≠ (t.step outcome r).observed ∨
      (t.generated.step outcome (t.generated.step outcome r)).observed ≠
        (t.step outcome (t.step outcome r)).observed := by
  have hi : i < t.lines.length := (List.getElem?_eq_some_iff.mp hl).1
  obtain ⟨r', hsource, hgenerated⟩ := step_doubled outcome hrunning hl hdoubled
  rw [hsource, hgenerated]
  by_cases hlast : i + 1 = t.lines.length
  · -- the task has ended, and the loop has missed its end
    left
    have hpast : i + 2 ≠ t.lines.length := by omega
    simp [Run.observed, Run.goOn, hlast, hpast]
  by_cases hnext : i + 2 = t.lines.length
  · -- the loop has ended, and the task has one more line
    left
    simp [Run.observed, Run.goOn, hlast, hnext]
  · -- the next trace is of the next line, or of the one behind it
    right
    have hskipped : i + 1 < t.lines.length := by omega
    have hbehind : i + 2 < t.lines.length := by omega
    have hsource1 : (r'.goOn t.lines.length (i + 1)).status = .running (i + 1) := by
      simp [Run.goOn, hlast]
    have hgenerated1 : (r'.goOn t.lines.length (i + 2)).status = .running (i + 2) := by
      simp [Run.goOn, hnext]
    have hl1 : t.lines[i + 1]? = some t.lines[i + 1] := List.getElem?_eq_getElem hskipped
    have hl2 : t.lines[i + 2]? = some t.lines[i + 2] := List.getElem?_eq_getElem hbehind
    rw [Task.step_eq hsource1 hl1, Generated.step_generated hgenerated1 hl2]
    have hvalid : t.lines[i + 1].stmt.Valid := (t.valid _ (List.getElem_mem hskipped)).1
    obtain ⟨act, acts, hacts⟩ := events_execute t outcome (i + 1)
      (r'.goOn t.lines.length (i + 1)) hvalid
    obtain ⟨acts', hacts'⟩ := events_foldl outcome (i + 2) (t.body t.lines[i + 2]) (i + 2)
      (r'.goOn t.lines.length (i + 2))
    intro hsame
    have htraces : r'.events ++ acts'.map (fun act => (i + 2, act)) =
        r'.events ++ (act :: acts).map fun act => (i + 1, act) :=
      calc
        _ = _ := hacts'.symm
        _ = _ := congrArg Prod.fst hsame
        _ = _ := hacts
    have hmem : (i + 1, act) ∈ acts'.map fun act => (i + 2, act) := by
      rw [List.append_cancel_left htraces]
      exact List.mem_cons_self ..
    obtain ⟨act', -, heq⟩ := List.mem_map.mp hmem
    have hline : i + 2 = i + 1 := congrArg Prod.fst heq
    omega

/-- **When control flow is preserved**: exactly when no condition contains the letters goto
and no run of the task reaches a plain statement with a label. -/
theorem controlPreserved_iff (t : Task) :
    ControlPreserved t ↔ (∀ l ∈ t.lines, ¬ l.stmt.MentionsGoto) ∧
      ∀ outcome n, ¬ t.AtDoubled (t.after outcome n) := by
  constructor
  · rintro ⟨g, hcompile, hsame⟩
    have hcond : ∀ l ∈ t.lines, ¬ l.stmt.MentionsGoto := by
      intro l hl hmentions
      simp [Task.compile_eq_none hl hmentions] at hcompile
    refine ⟨hcond, ?_⟩
    obtain rfl : t.generated = g := Option.some.inj ((Task.compile_eq hcond).symm.trans hcompile)
    intro outcome n hat
    classical
    -- the first time such a line is reached, the runs are still the same
    obtain ⟨m, ⟨i, l, hrunning, hl, hdoubled⟩, hfirst⟩ :
        ∃ m, t.AtDoubled (t.after outcome m) ∧ ∀ k < m, ¬ t.AtDoubled (t.after outcome k) := by
      have hex : ∃ m, t.AtDoubled (t.after outcome m) := ⟨n, hat⟩
      exact ⟨Nat.find hex, Nat.find_spec hex, fun k hk => Nat.find_min hex hk⟩
    have hagree : t.generated.after outcome m = t.after outcome m := after_agrees hfirst
    have h1 := (hsame outcome (m + 1)).1
    have h2 := (hsame outcome (m + 2)).1
    simp only [Generated.after, Task.after, Function.iterate_succ_apply'] at h1 h2
    rw [← Generated.after, ← Task.after, hagree] at h1 h2
    rcases observed_ne outcome hrunning hl hdoubled with hne | hne
    · exact hne h1
    · exact hne h2
  · rintro ⟨hcond, hnot⟩
    refine ⟨t.generated, Task.compile_eq hcond, ?_⟩
    intro outcome n
    rw [after_agrees fun m _ => hnot outcome m]
    refine ⟨rfl, ?_⟩
    rcases t.inside_after outcome n with hended | ⟨i, hrunning, -⟩
    · simp [hended]
    · simp [hrunning]

/-! ## The example task -/

/-- The first task of `example_tasks.c`, without its declarations. -/
def task1 : Task where
  name := "task1".toList
  lines := [
    ⟨none, .plain "    i=0;".toList, []⟩,
    ⟨some "INC".toList, .plain " ++i;".toList, []⟩,
    ⟨none, .plain "    printf(\"%d\\n\",i);".toList, []⟩,
    ⟨none, .plain "    m[i]=i;".toList, []⟩,
    ⟨none, .ifGoto "    ".toList " ".toList "i==5".toList " ".toList " ".toList "END".toList, []⟩,
    ⟨none, .goto "    ".toList " ".toList "INC".toList, []⟩,
    ⟨some "END".toList, .plain " printf(\"Done\\n\");".toList, []⟩]
  isName := by decide +kernel
  nonempty := List.cons_ne_nil _ _
  valid := by decide +kernel
  defined := by decide +kernel

/-- The line behind its first label is never executed. -/
theorem task1_not_preserved : ¬ ∀ t, ControlPreserved t := by
  intro hclaim
  obtain ⟨g, hcompile, hsame⟩ := hclaim task1
  have hsame3 := (hsame (fun _ => false) 3).1
  have hdiffer : ∀ g ∈ compile task1.name task1.source,
      (g.after (fun _ => false) 3).observed ≠ (task1.after (fun _ => false) 3).observed := by
    decide +kernel
  exact hdiffer g hcompile hsame3

end Osh.Tasks
