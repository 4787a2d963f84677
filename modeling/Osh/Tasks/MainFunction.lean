import Osh.Tasks.Script

/-!
# The generated `main`

The generated part of the output read as C, and what `main` does: it enters the functions
into the tables and calls them through the table, at the index `pc`, until `pc` has the value
that ends the task. The lines outside the tasks are the user's own and are not read; of the
declarations that were inside only the names are of interest.

## Main definitions

* `MainStmt`, `readMainLine`: the statements of `main`, and how a line is read.
* `IsIdentifier`, `readGlobal`: names in C, and the name that a declaration declares.
* `Program`, `Output.read`: the generated program, if the output is one.
* `MainRun`, `Program.step`: the execution of one statement of `main`.
-/
namespace Osh.Tasks
open Regex

/-! ## Reading -/

/-- The statements of `main`; a label is one of its own. -/
inductive MainStmt
  | label (name : Text)
  /-- `var=n;` -/
  | assign (var : Text) (n : ℕ)
  /-- `table[id]=func;` -/
  | entry (table : Text) (id : ℕ) (func : Text)
  /-- `table[pc]();` -/
  | call (table : Text)
  /-- `if (pc==const) goto target;` -/
  | ifPc (const target : Text)
  | goto (target : Text)
  /-- `return 0;` -/
  | ret
deriving DecidableEq, Repr

/-- A label and a semicolon. -/
def readTarget (t : Text) : Option Text :=
  if t.dropWhile isWord = ";".toList then some (t.takeWhile isWord) else none

/-- The rest of `table[id]=func;` -/
def readStore (table t : Text) : Option MainStmt := do
  let (id, t) ← readNat (← strip "[".toList t)
  let t ← strip "]=".toList t
  if t.dropWhile isWord = ";".toList then some (.entry table id (t.takeWhile isWord)) else none

/-- The rest of `var=n;` -/
def readAssign (var t : Text) : Option MainStmt := do
  let (n, t) ← readNat (← strip "=".toList t)
  if t = ";".toList then some (.assign var n) else none

/-- The rest of `if (pc==const) goto target;` -/
def readTest (t : Text) : Option MainStmt := do
  let t ← strip " (pc==".toList t
  let target ← strip ") goto ".toList (t.dropWhile isWord)
  return .ifPc (t.takeWhile isWord) (← readTarget target)

/-- A statement by its first word and the text behind it. White space may stand behind a
call. -/
def readByWord (word rest : Text) : Option MainStmt :=
  if word = "return".toList then if rest = " 0;".toList then some .ret else none
  else if word = "goto".toList then ((strip " ".toList rest).bind readTarget).map .goto
  else if word = "if".toList then readTest rest
  else match strip "[pc]();".toList rest with
    | some trailing => if trailing.all isBlank then some (.call word) else none
    | none => (readStore word rest).or (readAssign word rest)

/-- A statement without a label. -/
def readMainStmt (t : Text) : Option MainStmt :=
  readByWord (t.takeWhile isWord) (t.dropWhile isWord)

/-- A line of `main`, with the label in front if there is one. -/
def readMainLine (t : Text) : Option (List MainStmt) :=
  let t := t.dropWhile isBlank
  if t = [] ∨ "//".toList.isPrefixOf t then some []
  else match strip ":".toList (t.dropWhile isWord) with
    | some rest =>
        let rest := rest.dropWhile isBlank
        if rest = [] then some [.label (t.takeWhile isWord)]
        else do return [.label (t.takeWhile isWord), ← readMainStmt rest]
    | none => do return [← readMainStmt t]

/-- `#define name n` -/
def readDefine (t : Text) : Option (Text × ℕ) := do
  let t ← strip "#define ".toList t
  let (n, rest) ← readNat (← strip " ".toList (t.dropWhile isWord))
  if rest = [] then some (t.takeWhile isWord, n) else none

/-- `void (*name[size]) (void);`: the table, and the macro for its size. -/
def readTable (t : Text) : Option (Text × Text) := do
  let t ← strip "void (*".toList t
  let size ← strip "[".toList (t.dropWhile isWord)
  if size.dropWhile isWord = "]) (void);".toList then
    some (t.takeWhile isWord, size.takeWhile isWord)
  else none

/-! ## Names -/

/-- A name in C, or a keyword. -/
def IsIdentifier (t : Text) : Prop :=
  t ≠ [] ∧ t.head?.any Char.isDigit = false ∧ ∀ x ∈ t, x.isAlphanum = true ∨ x = '_'

instance : DecidablePred IsIdentifier := fun t =>
  decidable_of_iff (t ≠ [] ∧ t.head?.any Char.isDigit = false ∧
      t.all (fun x => x.isAlphanum || x == '_') = true) <|
    and_congr_right fun _ => and_congr_right fun _ => by simp

/-- The words that C keeps for itself. -/
def keywords : List Text :=
  ["auto", "break", "case", "char", "const", "continue", "default", "do", "double", "else",
    "enum", "extern", "float", "for", "goto", "if", "inline", "int", "long", "register",
    "restrict", "return", "short", "signed", "sizeof", "static", "struct", "switch", "typedef",
    "union", "unsigned", "void", "volatile", "while"].map String.toList

/-- What stands behind a name in a declaration. There are no brackets in a size. -/
def readDeclarator (t : Text) : Option Text :=
  match strip "[".toList t with
  | some size => (strip "]".toList (size.dropWhile (· ≠ ']'))).map (·.dropWhile isBlank)
  | none => some t

/-- `    static type name;` or `    static type name[size];`: the name. -/
def readGlobal (t : Text) : Option (List Text) := do
  let t := (← strip "    static ".toList t).dropWhile isBlank
  if [CType.int, .float, .char, .long, .double].any fun type => type.text = t.takeWhile isWord then
    let t := (t.dropWhile isWord).dropWhile isBlank
    let rest ← readDeclarator ((t.dropWhile isWord).dropWhile isBlank)
    if (← strip ";".toList rest).all isBlank then some [t.takeWhile isWord] else none
  else none

/-! ## Programs -/

structure Program where
  /-- The variables of the tasks. -/
  globals : List Text
  main : List MainStmt
  defines : List (Text × ℕ)
  tables : List (Text × Text)
  funcs : List (Text × List CStmt)
deriving DecidableEq, Repr

def MainStmt.label? : MainStmt → Option Text
  | label name => some name
  | _ => none

def MainStmt.target? : MainStmt → Option Text
  | ifPc _ target | goto target => some target
  | _ => none

namespace Program

def labels (p : Program) : List Text := p.main.filterMap MainStmt.label?

def macros (p : Program) : List Text := p.defines.map Prod.fst

/-- What the script itself defines: `main` and its variables, the macros, the tables and the
functions. -/
def generatedNames (p : Program) : List Text :=
  ["pc".toList, "system_timer".toList, "blocking_timer".toList, "main".toList] ++
    (p.macros ++ (p.tables.map Prod.fst ++ p.funcs.map Prod.fst))

/-- What is asked of a program: every label and every other name is defined once, a macro is not
a label, the names of the variables are names, and the label of a jump is defined. -/
structure WellFormed (p : Program) : Prop where
  labels : (p.labels ++ p.macros).Nodup
  names : (p.globals ++ p.generatedNames).Nodup
  globals : ∀ name ∈ p.globals, IsIdentifier name ∧ name ∉ keywords
  targets : ∀ stmt ∈ p.main, ∀ target ∈ stmt.target?, target ∈ p.labels

instance : DecidablePred WellFormed := fun p =>
  decidable_of_iff ((p.labels ++ p.macros).Nodup ∧ (p.globals ++ p.generatedNames).Nodup ∧
      (∀ name ∈ p.globals, IsIdentifier name ∧ name ∉ keywords) ∧
      ∀ stmt ∈ p.main, ∀ target ∈ stmt.target?, target ∈ p.labels)
    ⟨fun ⟨h₁, h₂, h₃, h₄⟩ => ⟨h₁, h₂, h₃, h₄⟩,
      fun h => ⟨h.labels, h.names, h.globals, h.targets⟩⟩

end Program

/-- A line behind `main` is a comment or a function. -/
def readFunctionLine (t : Text) : Option (List (Text × List CStmt)) :=
  if "//".toList.isPrefixOf t then some [] else do return [← readFunc t]

/-- Lines read one by one. -/
def readAll {α : Type} (read : Text → Option (List α)) (lines : List Text) : Option (List α) :=
  (lines.mapM read).map List.flatten

/-- The generated part of the output, read as C. -/
def Output.read (o : Output) : Option Program := do
  let p : Program := {
    globals := ← readAll readGlobal o.globals
    main := ← readAll readMainLine o.main
    defines := o.declarations.filterMap readDefine
    tables := o.declarations.filterMap readTable
    funcs := ← readAll readFunctionLine o.functions }
  if p.WellFormed then some p else none

/-- What the script makes of an input, if its generated part is a program. -/
def program (lines : List Text) : Option Program :=
  match script lines with
  | .ok o => o.read
  | .error _ => none

/-! ## Execution -/

inductive MainStatus
  | running
  | returned
  | fault
deriving DecidableEq, Repr

/-- The statements still to be executed, the variables, what has been done by which function,
and the number of conditions tested. -/
structure MainRun where
  rest : List MainStmt
  pc : ℕ
  tables : Text → ℕ → Option Text
  events : List (Text × Act)
  tests : ℕ
  status : MainStatus

namespace Program
variable (p : Program)

/-- Before `main` all variables are zero, and the entries of the tables are null. -/
def start : MainRun := ⟨p.main, 0, fun _ _ => none, [], 0, .running⟩

/-- The number of entries of a table. -/
def size (table : Text) : Option ℕ := do p.defines.lookup (← p.tables.lookup table)

/-- From the label on. -/
def after (target : Text) : List MainStmt := p.main.dropWhile (· ≠ .label target)

/-- The function that `table[pc]` points to; `none` outside the table and for a null pointer. -/
def callee (s : MainRun) (table : Text) : Option Text := do
  if s.pc < (← p.size table) then s.tables table s.pc else none

/-- `table[pc]();` -/
def call (outcome : ℕ → Bool) (s : MainRun) (table : Text) (rest : List MainStmt) : MainRun :=
  match p.callee s table with
  | none => { s with status := .fault }
  | some func =>
      match p.funcs.lookup func with
      | none => { s with status := .fault }
      | some body =>
          let (pc, r) := body.foldl (CStmt.execute outcome s.pc) (s.pc, ⟨[], s.tests, .running 0⟩)
          { s with
            rest, pc, tests := r.tests
            events := s.events ++ r.events.map fun event => (func, event.2) }

/-- The execution of a statement with the given ones behind it. The timers are not read. -/
def execute (outcome : ℕ → Bool) (s : MainRun) (rest : List MainStmt) : MainStmt → MainRun
  | .label _ => { s with rest }
  | .assign var n => { s with rest, pc := if var = "pc".toList then n else s.pc }
  | .entry table id func =>
      if (p.size table).any (id < ·) then
        { s with
          rest
          tables := fun t i => if t = table ∧ i = id then some func else s.tables t i }
      else { s with status := .fault }
  | .call table => p.call outcome s table rest
  | .ifPc const target =>
      { s with rest := if p.defines.lookup const = some s.pc then p.after target else rest }
  | .goto target => { s with rest := p.after target }
  | .ret => { s with rest := [], status := .returned }

/-- `main` executes one statement, unless it has returned. Behind its last one it returns. -/
def step (outcome : ℕ → Bool) (s : MainRun) : Option MainRun :=
  match s.status with
  | .running =>
      match s.rest with
      | stmt :: rest => some (p.execute outcome s rest stmt)
      | [] => some { s with status := .returned }
  | _ => none

end Program
end Osh.Tasks
