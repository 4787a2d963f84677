import Osh.Tasks.Reading

/-!
# One subroutine per line

The part of `transform_to_one_sub_per_line.pl` that turns the lines of a task into
functions, one for each line, and the code in `main` that fills the table of these
functions and calls them.

## Main definitions

* `labelsToLineNumbers`: the map from labels to lines.
* `rewriteLine`: the substitutions made on a line.
* `perLineFunctions`, `taskInstrs`: the functions, and the entries of the table.
* `Generated`, `compile`: the generated program, read as C.
-/
namespace Osh.Tasks
open Regex

/-! ## The patterns -/

/-- `^(\w+):` -/
def labelPattern : Regex := seq (group (many1 isWord)) (lit ":".toList)

/-- `goto\s+(\w+)` -/
def gotoPattern : Regex := seq (lit "goto".toList) (seq (many1 isSpace) (group (many1 isWord)))

/-- `^\s*if\s*\(.+?\)\s+goto` -/
def ifGotoPattern : Regex :=
  seq (many isSpace) (seq (lit "if".toList) (seq (many isSpace) (seq (lit "(".toList)
    (seq (many1Lazy isDot) (seq (lit ")".toList) (seq (many1 isSpace) (lit "goto".toList)))))))

/-- `goto.+$` -/
def gotoTailPattern : Regex := seq (lit "goto".toList) (seq (many1 isDot) endOfText)

/-! ## The functions -/

def chomp (line : Text) : Text := if line.getLast? = some '\n' then line.dropLast else line

/-- The label of a line and the text behind its colon. -/
def splitLabel (line : Text) : Option (Text × Text) :=
  (matchStart labelPattern line).map fun h => (h.groups.headD [], h.rest)

/-- `%labels_to_line_numbers`, from the given line number on: a later line overwrites an
earlier one. -/
def labelsToLineNumbers (lineNumber : ℕ) (labels : Text → Option ℕ) :
    List Text → Text → Option ℕ
  | [] => labels
  | line :: lines =>
      let labels' := match splitLabel (chomp line) with
        | some (label, _) => fun l => if l = label then some lineNumber else labels l
        | none => labels
      labelsToLineNumbers (lineNumber + 1) labels' lines

/-- A line number in the generated text; nothing for a label that is not in the map. -/
def idText : Option ℕ → Text
  | some id => natText id
  | none => []

/-- The label of a line is cut off, and then an increment appended. -/
def cutLabel (line : Text) : Text :=
  match splitLabel line with
  | some (_, rest) => rest ++ pcInc
  | none => line

/-- A jump is rewritten; to any other line an increment is appended. -/
def rewriteJump (labels : Text → Option ℕ) (line : Text) : Text :=
  match search gotoPattern line with
  | some (_, h) =>
      let id := idText (labels (h.groups.headD []))
      if (matchStart ifGotoPattern line).isSome then
        subst gotoTailPattern (fun _ => []) line ++ branchText id
      else setText id
  | none => line ++ pcInc

/-- The substitutions on a line. -/
def rewriteLine (labels : Text → Option ℕ) (line : Text) : Text :=
  rewriteJump labels (cutLabel line)

/-- The name of the function for a line. -/
def funcName (task : Text) (id : ℕ) : Text := task ++ "_line".toList ++ natText id

/-- `make_func` -/
def makeFunc (task line : Text) (id : ℕ) : Text :=
  "void ".toList ++ (funcName task id ++ ("(void) \x7b".toList ++ (line ++ ['}'])))

/-- The function definitions of a task. -/
def perLineFunctions (task : Text) (lines : List Text) : List Text :=
  let labels := labelsToLineNumbers 0 (fun _ => none) lines
  lines.zipIdx.map fun (line, id) => makeFunc task (rewriteLine labels (chomp line)) id

/-- The entry of the table that `generate_task_code` assigns. -/
def tableEntry (task : Text) (id : ℕ) : Text :=
  "    ".toList ++ (task ++ ("_instrs[".toList ++ (natText id ++ ("]=".toList ++
    (funcName task id ++ ";".toList)))))

/-- The assignments in `main`, one for each line. -/
def taskInstrs (task : Text) (lines : List Text) : List Text :=
  (List.range lines.length).map (tableEntry task)

/-! ## The generated program -/

/-- An assignment to an entry of the table: the index and the name of the function. -/
def readEntry (task t : Text) : Option (ℕ × Text) := do
  let t ← strip ("    ".toList ++ (task ++ "_instrs[".toList)) t
  let (id, t) ← readNat t
  let t ← strip "]=".toList t
  if t.dropWhile isWord = ";".toList then some (id, t.takeWhile isWord) else none

/-- A generated program: what the table holds, by index, the functions, by name, and the
constant that `pc` is compared with. -/
structure Generated where
  table : List (ℕ × Text)
  funcs : List (Text × List CStmt)
  ninstrs : ℕ
deriving DecidableEq, Repr

/-- The function that `task_instrs[pc]` points to, if there is such an entry. -/
def Generated.entry (g : Generated) (pc : ℕ) : Option (List CStmt) := do
  if pc < g.ninstrs then g.funcs.lookup (← g.table.lookup pc) else none

/-- What the script generates for a task, read as C. -/
def compile (task : Text) (lines : List Text) : Option Generated := do
  let table ← (taskInstrs task lines).mapM (readEntry task)
  let funcs ← (perLineFunctions task lines).mapM readFunc
  some ⟨table, funcs, lines.length⟩

end Osh.Tasks
