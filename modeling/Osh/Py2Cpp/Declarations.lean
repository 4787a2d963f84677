import Osh.Lib.Capture
import Osh.Py2Cpp.Scope

/-!
# Collecting declarations

The tables that the analysis loop of `py2cpp.pl` fills in: `%func_args` has the types of the
parameters of a function and, under `def`, its return type; `%var_decls` has the types of its
variables. Each line adds to the entries of the function that the loop takes it to stand in,
and there are two passes over the lines, of which the second finds the tables of the first.

## Main definitions

* `Decls`, `Tables`: what a function has declared, and the two tables.
* `declareLine`: what a line adds; one definition for each kind of line that the loop tells
  apart.
* `collect`, `analysis`: a pass, and both of them.
-/
namespace Osh.Py2Cpp
open Regex

/-! ## Tables -/

/-- Names and their types. -/
abbrev Decls := List (Text × Text)

/-- A name gets a type, whether or not it had one. -/
def Decls.assign (x type : Text) : Decls → Decls
  | [] => [(x, type)]
  | (y, old) :: ds => if y = x then (x, type) :: ds else (y, old) :: Decls.assign x type ds

/-- `%func_args` and `%var_decls`. A function that is not in `%func_args` is `none`. -/
structure Tables where
  funcArgs : Text → Option Decls
  varDecls : Text → Decls

namespace Tables

/-- The tables at the start of the first pass. -/
def empty : Tables := ⟨fun _ => none, fun _ => []⟩

/-- The entries of a function in `%func_args`. -/
def args (t : Tables) (func : Text) : Decls := (t.funcArgs func).getD []

def setArgs (t : Tables) (func : Text) (ds : Decls) : Tables :=
  { t with funcArgs := Function.update t.funcArgs func (some ds) }

/-- A test for an entry of a function in `%func_args` creates the function's table. -/
def touch (t : Tables) (func : Text) : Tables := t.setArgs func (t.args func)

def assignArg (t : Tables) (func x type : Text) : Tables :=
  t.setArgs func ((t.args func).assign x type)

def assignVar (t : Tables) (func x type : Text) : Tables :=
  { t with varDecls := Function.update t.varDecls func ((t.varDecls func).assign x type) }

/-- The type of a variable, or else of a parameter, or else the one given. -/
def typeOf (t : Tables) (func : Text) (default : Text → Text) (x : Text) : Text :=
  match (t.varDecls func).lookup x with
  | some type => type
  | none => ((t.args func).lookup x).getD (default x)

/-- The types of some names in a `std::tuple`. -/
def tupleType (t : Tables) (func : Text) (default : Text → Text) (vars : List Text) : Text :=
  "std::tuple<".toList ++ (",".toList.intercalate (vars.map (t.typeOf func default)) ++
    ">".toList)

/-- `%func_args` is asked where `%var_decls` has no answer. -/
def touchUnless (t : Tables) (func : Text) (vars : List Text) : Tables :=
  if vars.all fun x => ((t.varDecls func).lookup x).isSome then t else t.touch func

section
variable (t : Tables) (func func' x type : Text) (ds : Decls) (vars : List Text)

@[simp] theorem args_setArgs :
    (t.setArgs func ds).args func' = if func' = func then ds else t.args func' := by
  simp only [args, setArgs, Function.update_apply]
  split <;> rfl

@[simp] theorem varDecls_setArgs : (t.setArgs func ds).varDecls = t.varDecls := rfl

@[simp] theorem args_touch : (t.touch func).args func' = t.args func' := by
  rw [touch, args_setArgs]
  split
  next h => rw [h]
  next => rfl

@[simp] theorem varDecls_touch : (t.touch func).varDecls = t.varDecls := rfl

@[simp] theorem args_touchUnless : (t.touchUnless func vars).args func' = t.args func' := by
  rw [touchUnless]
  split
  · rfl
  · exact args_touch t func func'

@[simp] theorem varDecls_touchUnless : (t.touchUnless func vars).varDecls = t.varDecls := by
  rw [touchUnless]
  split <;> rfl

@[simp] theorem args_assignArg : (t.assignArg func x type).args func' =
    if func' = func then (t.args func).assign x type else t.args func' :=
  args_setArgs t func func' _

@[simp] theorem varDecls_assignArg : (t.assignArg func x type).varDecls = t.varDecls := rfl

@[simp] theorem args_assignVar : (t.assignVar func x type).args = t.args := rfl

@[simp] theorem varDecls_assignVar : (t.assignVar func x type).varDecls func' =
    if func' = func then (t.varDecls func).assign x type else t.varDecls func' :=
  Function.update_apply ..

end
end Tables

/-! ## Types and patterns -/

def uint64 : Text := "uint64_t".toList

def vector : Text := "std::vector<uint64_t>".toList

def vectorRef : Text := "std::vector<uint64_t>&".toList

/-- The key of the return type. -/
def DEF : Text := "def".toList

/-- The type that is made up for a name. -/
def ownType (x : Text) : Text := x ++ "_t".toList

/-- The fields between the leftmost matches, at most `n` of them. -/
def fields (r : Regex) : ℕ → Text → List Text
  | 0, t => [t]
  | n + 1, t =>
      match search r t with
      | none => [t]
      | some (before, h) => before :: fields r n h.rest

/-- `split`, which leaves out the empty fields at the end. -/
def split (r : Regex) (t : Text) : List Text :=
  ((fields r t.length t).reverse.dropWhile List.isEmpty).reverse

/-- `\s*,\s*` -/
def commaPattern : Regex := seq (many isSpace) (seq (lit ",".toList) (many isSpace))

/-- `^\s*(\w+)\s*[\-\+]?=\s*(.+)\s*$` -/
def scalarPattern : Regex :=
  seq (many isSpace) (seq (group (many1 isWord)) (seq (many isSpace)
    (seq (opt (char fun c => c == '-' || c == '+')) (seq (lit "=".toList) (seq (many isSpace)
      (seq (group (many1 isDot)) (seq (many isSpace) endOfText)))))))

/-- `^\(([\w\s*,]+)\)$` -/
def tupleRhsPattern : Regex :=
  seq (lit "(".toList) (seq
    (group (many1 fun c => isWord c || isSpace c || c == '*' || c == ','))
      (seq (lit ")".toList) endOfText))

/-- `^\[(.+)\]$` -/
def listRhsPattern : Regex :=
  seq (lit "[".toList) (seq (group (many1 isDot)) (seq (lit "]".toList) endOfText))

/-- `^np.\w+` -/
def npRhsPattern : Regex := seq (lit "np".toList) (seq (char isDot) (many1 isWord))

/-- `^\s*\((.+)\)\s*=\s*(.+)\s*$` -/
def tuplePattern : Regex :=
  seq (many isSpace) (seq (lit "(".toList) (seq (group (many1 isDot)) (seq (lit ")".toList)
    (seq (many isSpace) (seq (lit "=".toList) (seq (many isSpace) (seq (group (many1 isDot))
      (seq (many isSpace) endOfText))))))))

/-- `^(\w+)$` -/
def wordRhsPattern : Regex := seq (group (many1 isWord)) endOfText

/-- `^\s*(\w+)\[` -/
def elementPattern : Regex :=
  seq (many isSpace) (seq (group (many1 isWord)) (lit "[".toList))

/-- `^\s*(\w+)\s*=\s*\[` -/
def listPattern : Regex :=
  seq (many isSpace) (seq (group (many1 isWord)) (seq (many isSpace) (seq (lit "=".toList)
    (seq (many isSpace) (lit "[".toList)))))

/-- `(\w+)\[` -/
def accessPattern : Regex := seq (group (many1 isWord)) (lit "[".toList)

/-- `^\s*for\s+(\w+)\s+in\s+(\w+)\s*:` -/
def forPattern : Regex :=
  seq (many isSpace) (seq (lit "for".toList) (seq (many1 isSpace) (seq (group (many1 isWord))
    (seq (many1 isSpace) (seq (lit "in".toList) (seq (many1 isSpace) (seq (group (many1 isWord))
      (seq (many isSpace) (lit ":".toList)))))))))

/-- `^\s+return\s*\((.+)\)` -/
def returnTuplePattern : Regex :=
  seq (many1 isSpace) (seq (lit "return".toList) (seq (many isSpace) (seq (lit "(".toList)
    (seq (group (many1 isDot)) (lit ")".toList)))))

/-- `^\s+return\s+\[` -/
def returnListPattern : Regex :=
  seq (many1 isSpace) (seq (lit "return".toList) (seq (many1 isSpace) (lit "[".toList)))

/-- `^\s+return\s+(\w+)` -/
def returnWordPattern : Regex :=
  seq (many1 isSpace) (seq (lit "return".toList) (seq (many1 isSpace) (group (many1 isWord))))

/-- What the first two groups of a pattern capture at the start of a text. -/
def captures (r : Regex) (t : Text) : Option (Text × Text) :=
  (matchStart r t).map fun h => (h.groups.headD [], h.groups.tail.headD [])

/-! ## What a line adds -/

/-- `def name(args):` -/
def declareFunction (func line : Text) (t : Tables) : Tables :=
  match captures defPattern line with
  | some (_, args) =>
      t.setArgs func ((split commaPattern args).foldl (fun ds x => ds.assign x (ownType x))
        [(DEF, "auto".toList)])
  | none => t

/-- The right-hand side is a tuple. -/
def declareTuple (func var rhs : Text) (t : Tables) : Tables :=
  match captures tupleRhsPattern rhs with
  | some (tupvars, _) =>
      let vars := split commaPattern tupvars
      (t.touchUnless func vars).assignVar func var (t.tupleType func (fun _ => uint64) vars)
  | none => t

/-- The right-hand side is an array. -/
def declareList (func var rhs : Text) (t : Tables) : Tables :=
  if (matchStart listRhsPattern rhs).isSome ∨ (matchStart npRhsPattern rhs).isSome then
    if ((t.varDecls func).lookup var).isSome then t.assignArg func var vectorRef
    else t.assignVar func var vector
  else t

/-- A scalar assignment, to a name that is no function. -/
def declareScalar (func line : Text) (t : Tables) : Tables :=
  match captures scalarPattern line with
  | some (var, rhs) =>
      let t := if (t.funcArgs var).isNone then t.assignVar func var uint64 else t
      declareList func var rhs (declareTuple func var rhs t)
  | none => t

/-- A variable on the left of a tuple assignment. -/
def declareTarget (func : Text) (t : Tables) (var : Text) : Tables :=
  if ((t.args func).lookup var).isNone ∧ ((t.varDecls func).lookup var).isNone then
    (t.touch func).assignVar func var (ownType var)
  else t.touch func

/-- A tuple assignment. -/
def declareTargets (func line : Text) (t : Tables) : Tables :=
  match captures tuplePattern line with
  | some (vartup, rhs) =>
      let vars := split commaPattern vartup
      let t := vars.foldl (declareTarget func) t
      if (matchStart wordRhsPattern rhs).isSome then
        (t.touchUnless func vars).assignVar func rhs (t.tupleType func (fun _ => uint64) vars)
      else t
  | none => t

/-- An assignment to an element, or of a list. -/
def declareArray (func line : Text) (t : Tables) : Tables :=
  match (captures elementPattern line).orElse fun _ => captures listPattern line with
  | some (arrayVar, _) =>
      let t :=
        if ((t.args func).lookup arrayVar).isSome then t.assignArg func arrayVar vectorRef
        else t.touch func
      t.assignVar func arrayVar vector
  | none => t

/-- The first array that is accessed. -/
def declareAccess (func line : Text) (t : Tables) : Tables :=
  match search accessPattern line with
  | some (_, h) =>
      let arrayVar := h.groups.headD []
      if ((t.args func).lookup arrayVar).isSome then t.assignArg func arrayVar vectorRef
      else if ((t.varDecls func).lookup arrayVar).isSome then
        (t.touch func).assignVar func arrayVar vector
      else t.touch func
  | none => t

/-- The head of a `for` loop. -/
def declareFor (func line : Text) (t : Tables) : Tables :=
  match captures forPattern line with
  | some (iter, arrayVar) => (t.assignVar func iter uint64).assignVar func arrayVar vector
  | none => t

/-- The return type. -/
def declareReturn (func line : Text) (t : Tables) : Tables :=
  match captures returnTuplePattern line with
  | some (tupvars, _) =>
      let vars := split commaPattern tupvars
      (t.touchUnless func vars).assignArg func DEF (t.tupleType func ownType vars)
  | none =>
      if (matchStart returnListPattern line).isSome then t.assignArg func DEF vector
      else
        match captures returnWordPattern line with
        | some (retval, _) =>
            match (t.args func).lookup retval, (t.varDecls func).lookup retval with
            | some type, _ | none, some type => t.assignArg func DEF type
            | none, none => t.touch func
        | none => t

/-- The line is blank or a comment. -/
def isSkipped (line : Text) : Bool :=
  (matchStart blankPattern line).isSome || (matchStart commentPattern line).isSome

/-- What a line adds, in the function that it is taken to stand in. -/
def declareLine (func line : Text) (t : Tables) : Tables :=
  if isSkipped line then t
  else
    declareReturn func line (declareFor func line (declareAccess func line
      (declareArray func line (declareTargets func line (declareScalar func line
        (declareFunction func line t))))))

/-! ## The two passes -/

/-- A line of a pass. An undefined `$current_func` is the empty key. -/
def collectLine (a : Scope × Tables) (line : Text) : Scope × Tables :=
  let scope := analyseLine a.1 line
  (scope, declareLine (scope.currentFunc.getD []) line a.2)

/-- A pass over the lines. -/
def collect (lines : List Text) (t : Tables) : Scope × Tables := lines.foldl collectLine (.start, t)

/-- Both passes. -/
def analysis (lines : List Text) : Scope × Tables := collect lines (collect lines .empty).2

end Osh.Py2Cpp
