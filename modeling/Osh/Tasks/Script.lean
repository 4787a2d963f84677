import Mathlib.Data.Char
import Mathlib.Data.List.Lex
import Mathlib.Data.List.Sort
import Osh.Tasks.UniqueVariables

/-!
# What the script prints

The whole of `transform_to_one_sub_per_line.pl`: after the reading loop the lines outside the
tasks are printed again, then the declarations, a `main` that fills the tables and runs the
tasks one after the other, and the functions for the lines. Tasks and variables come in the
order of their names.

## Main definitions

* `Output`: the printed lines by their parts, and `Output.lines` all of them.
* `declarations`, `generateTaskCode`, `functionDefinitions`: what is printed for a task.
* `script`: the printed lines for an input, or the message with which the script dies.
-/
namespace Osh.Tasks
open Regex

/-- The upper case of a character of a name, in Latin-1. Three letters have it elsewhere. -/
def ucChar (c : Char) : Text :=
  if c.val = 0xB5 then [Char.ofNat 0x39C]
  else if c.val = 0xDF then ['S', 'S']
  else if c.val = 0xFF then [Char.ofNat 0x178]
  else if c.isLower ∨ (0xE0 ≤ c.val ∧ c.val ≤ 0xFE ∧ c.val ≠ 0xF7) then
    [Char.ofNat (c.toNat - 0x20)]
  else [c]

/-- `uc` -/
def uc (t : Text) : Text := t.flatMap ucChar

/-- `$NINSTRS_VAR` -/
def ninstrsVar (task : Text) : Text := "NINSTRS_".toList ++ uc task

/-- The table of the functions of a task. -/
def instrsVar (task : Text) : Text := task ++ "_instrs".toList

def callLabel (task : Text) : Text := "CALL_".toList ++ uc task

def endLabel (task : Text) : Text := "END_".toList ++ uc task

/-! ## The lines for a task -/

def defineLine (task : Text) (n : ℕ) : Text :=
  "#define ".toList ++ (ninstrsVar task ++ (" ".toList ++ natText n))

def tableLine (task : Text) : Text :=
  "void (*".toList ++ (instrsVar task ++ ("[".toList ++ (ninstrsVar task ++
    "]) (void);".toList)))

/-- `void task_line0(void);` -/
def prototype (task : Text) (id : ℕ) : Text :=
  "void ".toList ++ (funcName task id ++ "(void);".toList)

/-- The declarations before `main`. -/
def declarations (task : Text) (lines : List Text) : List Text :=
  ["// Declarations of per-line functions for ".toList ++ task, defineLine task lines.length,
    tableLine task] ++ (List.range lines.length).map (prototype task) ++ [[]]

def callLine (task : Text) : Text :=
  callLabel task ++ (": ".toList ++ (instrsVar task ++ "[pc]();       ".toList))

def testLine (task : Text) : Text :=
  "      if (pc==".toList ++ (ninstrsVar task ++ (") goto ".toList ++ (endLabel task ++
    ";".toList)))

def loopLine (task : Text) : Text := "      goto ".toList ++ (callLabel task ++ ";".toList)

/-- `generate_task_code` -/
def generateTaskCode (task : Text) (lines : List Text) : List Text :=
  [] :: (taskInstrs task lines ++ ["    pc=0;".toList, callLine task, testLine task,
    loopLine task, endLabel task ++ ":".toList, "      // return 0;".toList])

/-- The functions behind `main`. -/
def functionDefinitions (task : Text) (lines : List Text) : List Text :=
  ("// Generated per-line function code for ".toList ++ task) :: perLineFunctions task lines

/-! ## The output -/

/-- What is printed, part by part. -/
structure Output where
  /-- The lines outside the tasks. -/
  outside : List Text
  /-- The declarations that were inside. -/
  globals : List Text
  /-- The declarations for the tasks. -/
  declarations : List Text
  /-- The body of `main`. -/
  main : List Text
  functions : List Text

def mainStart : List Text :=
  ["static int pc;".toList, "static int system_timer;".toList, "static int blocking_timer;".toList,
    [], "int main()\x7b //\x7d".toList]

def mainEnd : List Text := ["\x7d".toList, []]

def Output.lines (o : Output) : List Text :=
  o.outside ++ o.globals ++ o.declarations ++ mainStart ++ o.main ++ mainEnd ++ o.functions

/-- `sort keys %tasks`, after `NO_TASK` has been deleted. -/
def taskNames (lines : List Text) : List Text :=
  ((lines.filterMap openedTask).dedup.filter (· ≠ NO_TASK)).insertionSort (· ≤ ·)

/-- `sort keys %globals`, with the values. -/
def sortedGlobals (globals : List Global) : List Global :=
  globals.insertionSort fun g h => g.var ≤ h.var

/-- What is printed for the given tasks. -/
def output (outside : List Text) (globals : List Global) (tasks : List (Text × List Text)) :
    Output where
  outside := outside
  globals := (sortedGlobals globals).map Global.line
  declarations := tasks.flatMap fun (task, lines) => declarations task lines
  main := ["    system_timer=0;".toList, "    blocking_timer=0;".toList] ++
    (tasks.flatMap fun (task, lines) => generateTaskCode task lines) ++ ["    return 0;".toList]
  functions := tasks.flatMap fun (task, lines) => functionDefinitions task lines

/-- Under `use strict` an entry that is not there is no array. -/
def undefinedArray : Text := "Can't use an undefined value as an ARRAY reference".toList

/-- The script: it dies in the reading loop, or where there is no line outside the tasks. -/
def script (lines : List Text) : Except Text Output := do
  let s ← readLines lines .start
  match s.tasks NO_TASK with
  | none => .error undefinedArray
  | some outside =>
      return output outside s.globals
        ((taskNames lines).map fun task => (task, (s.tasks task).getD []))

end Osh.Tasks
