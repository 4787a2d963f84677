import Osh.Tasks.OneSubPerLine

/-!
# Source tasks and what they do

A task is a list of lines: plain statements, jumps and conditional jumps, each with at
most one label. Running it, and running the program that the script generates for it,
leaves a trace of the statements executed and the conditions tested; the outcomes of the
conditions are given from outside.

## Main definitions

* `Stmt`, `Line`, `Task`: source tasks, whose labels are defined.
* `Run`: what has been executed, and what comes next.
* `Task.step`, `Generated.step`: the execution of one line, and one call of the loop.
-/
namespace Osh.Tasks
open Regex

/-! ## Tasks -/

/-- A statement on a line. The white space is part of it. -/
inductive Stmt
  | plain (text : Text)
  /-- `goto target;` -/
  | goto (indent gap target : Text)
  /-- `if (cond) goto target;` -/
  | ifGoto (indent gap₁ cond gap₂ gap₃ target : Text)
deriving DecidableEq, Repr

def gotoText (gap target : Text) : Text := "goto".toList ++ (gap ++ (target ++ ";".toList))

def Stmt.text : Stmt → Text
  | .plain text => text
  | .goto indent gap target => indent ++ gotoText gap target
  | .ifGoto indent gap₁ cond gap₂ gap₃ target =>
      indent ++ ("if".toList ++ condText gap₁ cond gap₂ (gotoText gap₃ target))

def Stmt.target? : Stmt → Option Text
  | .plain _ => none
  | .goto _ _ target => some target
  | .ifGoto _ _ _ _ _ target => some target

def Blank (t : Text) : Prop := ∀ x ∈ t, isBlank x = true

instance : DecidablePred Blank := fun t =>
  decidable_of_iff (t.all isBlank = true) List.all_eq_true

/-- A name, as a label is one. -/
def IsName (t : Text) : Prop := t ≠ [] ∧ ∀ x ∈ t, isWord x = true

instance : DecidablePred IsName := fun t =>
  decidable_of_iff (t ≠ [] ∧ t.all isWord = true) (and_congr_right fun _ => List.all_eq_true)

/-- One or more complete statements that have nothing to do with control. -/
def IsPlain (t : Text) : Prop :=
  ∃ r ∈ Reader.start.read t, r.lex = .top ∧ r.current = [] ∧ r.done ≠ [] ∧
    ∀ seg ∈ r.done, classify seg = some (.plain seg)

instance : DecidablePred IsPlain := fun t =>
  inferInstanceAs (Decidable (∃ r ∈ Reader.start.read t, r.lex = .top ∧ r.current = [] ∧
    r.done ≠ [] ∧ ∀ seg ∈ r.done, classify seg = some (.plain seg)))

/-- The statements of a plain text. -/
def plainSegments (t : Text) : List Text := (Reader.start.read t).elim [] (·.done)

/-- A plain statement holds no goto, and a condition is a complete expression. -/
def Stmt.Valid : Stmt → Prop
  | .plain text => IsPlain text ∧ search gotoPattern text = none
  | .goto indent gap target => Blank indent ∧ (gap ≠ [] ∧ Blank gap) ∧ IsName target
  | .ifGoto indent gap₁ cond gap₂ gap₃ target =>
      Blank indent ∧ Blank gap₁ ∧ (cond ≠ [] ∧ '\n' ∉ cond ∧ Balanced cond ∧ !usesControl cond) ∧
        (gap₂ ≠ [] ∧ Blank gap₂) ∧ (gap₃ ≠ [] ∧ Blank gap₃) ∧ IsName target

instance : DecidablePred Stmt.Valid
  | .plain _ => inferInstanceAs (Decidable (_ ∧ _))
  | .goto _ _ _ => inferInstanceAs (Decidable (_ ∧ (_ ∧ _) ∧ _))
  | .ifGoto _ _ _ _ _ _ =>
      inferInstanceAs (Decidable (_ ∧ _ ∧ (_ ∧ _ ∧ _ ∧ _) ∧ (_ ∧ _) ∧ (_ ∧ _) ∧ _))

/-- A line: white space may stand behind the statement. -/
structure Line where
  label : Option Text
  stmt : Stmt
  trailing : Text
deriving DecidableEq, Repr

/-- A label stands in column 0. -/
def Line.text (l : Line) : Text :=
  match l.label with
  | some label => label ++ ':' :: (l.stmt.text ++ l.trailing)
  | none => l.stmt.text ++ l.trailing

/-- A plain statement does not begin like a label. -/
def Line.Valid (l : Line) : Prop :=
  l.stmt.Valid ∧ Blank l.trailing ∧ (∀ label ∈ l.label, IsName label) ∧
    (l.label = none → l.stmt.target? = none →
      splitLabel (l.stmt.text ++ l.trailing) = none)

instance : DecidablePred Line.Valid := fun _ =>
  inferInstanceAs (Decidable (_ ∧ _ ∧ _ ∧ (_ → _ → _)))

def labelsOf (lines : List Line) : List Text := lines.filterMap (·.label)

/-- A task body of one or more lines, in which each label jumped to is defined once. -/
structure Task where
  name : Text
  lines : List Line
  isName : IsName name
  nonempty : lines ≠ []
  valid : ∀ l ∈ lines, l.Valid
  defined : ∀ l ∈ lines, ∀ target ∈ l.stmt.target?, (labelsOf lines).count target = 1

/-- The lines of the task in the source file. -/
def Task.source (t : Task) : List Text := t.lines.map fun l => l.text ++ ['\n']

/-- The line that a label stands on. -/
def Task.position (t : Task) (label : Text) : ℕ := t.lines.findIdx fun l => l.label = some label

/-! ## Runs -/

/-- What is done on a line. -/
inductive Act
  | plain (text : Text)
  | jump
  | test (cond : Text)
deriving DecidableEq, Repr

inductive Status
  | running (pc : ℕ)
  | ended
  | fault
deriving DecidableEq, Repr

/-- Everything done so far, each with its line, the number of conditions tested, and
whether the run goes on. -/
structure Run where
  events : List (ℕ × Act)
  tests : ℕ
  status : Status
deriving DecidableEq, Repr

def Run.start : Run := ⟨[], 0, .running 0⟩

def Run.emit (r : Run) (line : ℕ) (acts : List Act) : Run :=
  { r with events := r.events ++ acts.map (line, ·) }

@[simp] theorem Run.events_emit (r : Run) (line : ℕ) (acts : List Act) :
    (r.emit line acts).events = r.events ++ acts.map fun act => (line, act) := rfl

/-- The run goes on at a line, or ends behind the last of `n` lines. -/
def Run.goOn (r : Run) (n line : ℕ) : Run :=
  { r with status := if line = n then .ended else .running line }

@[simp] theorem Run.events_goOn (r : Run) (n line : ℕ) : (r.goOn n line).events = r.events := rfl

/-- What can be seen of a run from outside. -/
def Run.observed (r : Run) : List (ℕ × Act) × Bool × Bool :=
  (r.events, r.status = .ended, r.status = .fault)

/-- The execution of the statement on a line, given the outcomes of the tests. -/
def Task.execute (t : Task) (outcome : ℕ → Bool) (line : ℕ) (r : Run) : Stmt → Run
  | .plain text =>
      (r.emit line ((plainSegments text).map .plain)).goOn t.lines.length (line + 1)
  | .goto _ _ target => (r.emit line [.jump]).goOn t.lines.length (t.position target)
  | .ifGoto _ _ cond _ _ target =>
      ({ r with tests := r.tests + 1 }.emit line [.test cond]).goOn t.lines.length
        (if outcome r.tests then t.position target else line + 1)

/-- The source task executes one line. -/
def Task.step (t : Task) (outcome : ℕ → Bool) (r : Run) : Run :=
  match r.status with
  | .running line =>
      match t.lines[line]? with
      | some l => t.execute outcome line r l.stmt
      | none => { r with status := .fault }
  | _ => r

/-- The execution of a statement in the function for a line. -/
def CStmt.execute (outcome : ℕ → Bool) (line : ℕ) : ℕ × Run → CStmt → ℕ × Run
  | (pc, r), .plain text => (pc, r.emit line [.plain text])
  | (pc, r), .incPc => (pc + 1, r)
  | (_, r), .setPc n => (n, r.emit line [.jump])
  | (pc, r), .branch cond n =>
      (if outcome r.tests then n else pc + 1,
        { r with tests := r.tests + 1 }.emit line [.test cond])

/-- The loop in `main`: `task_instrs[pc]();` and then `if (pc==NINSTRS) goto END;`. -/
def Generated.step (g : Generated) (outcome : ℕ → Bool) (r : Run) : Run :=
  match r.status with
  | .running pc =>
      match g.entry pc with
      | some body =>
          let (pc', r') := body.foldl (CStmt.execute outcome pc) (pc, r)
          r'.goOn g.ninstrs pc'
      | none => { r with status := .fault }
  | _ => r

/-- The source task after `n` lines. -/
def Task.after (t : Task) (outcome : ℕ → Bool) (n : ℕ) : Run := (t.step outcome)^[n] .start

/-- The generated program after `n` calls. -/
def Generated.after (g : Generated) (outcome : ℕ → Bool) (n : ℕ) : Run :=
  (g.step outcome)^[n] .start

end Osh.Tasks
