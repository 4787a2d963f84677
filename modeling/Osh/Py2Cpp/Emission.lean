import Mathlib.Data.Char
import Mathlib.Data.List.Lex
import Mathlib.Data.List.Sort
import Osh.Py2Cpp.Declarations

/-!
# Emitting C++

The loop of `py2cpp.pl` that turns the lines of a Python file into C++ and the statements
after it. The line before and its indentation are at first those that the analysis ended
with. `$indent_step` and what is printed on the terminal are left out: nothing reads them.

## Main definitions

* `Emission`: the variables of the loop, with the innermost entry of the stack first.
* `rewriteLine`: what a line becomes, apart from braces that end blocks.
* `Emission.closeBlocks`: the braces that end blocks.
* `emitLine`, `emit`, `translate`: the body of the loop, the loop, and the files written.
-/
namespace Osh.Py2Cpp
open Regex

/-! ## Patterns -/

/-- `\{$` -/
def bracePattern : Regex := seq (lit "\x7b".toList) endOfText

/-- `from\s+(\w+)\s+import` -/
def fromPattern : Regex :=
  seq (lit "from".toList) (seq (many1 isSpace) (seq (group (many1 isWord)) (seq (many1 isSpace)
    (lit "import".toList))))

/-- `import\s+(\w+)` -/
def importPattern : Regex :=
  seq (lit "import".toList) (seq (many1 isSpace) (group (many1 isWord)))

/-- `^\s*def\s+(\w+)\((.+)\)` -/
def defHeadPattern : Regex :=
  seq (many isSpace) (seq (lit "def".toList) (seq (many1 isSpace) (seq (group (many1 isWord))
    (seq (lit "(".toList) (seq (group (many1 isDot)) (lit ")".toList))))))

/-- `^\s*(if|while)\s` -/
def ifPattern : Regex :=
  seq (many isSpace) (seq (group (alt (lit "if".toList) (lit "while".toList))) (char isSpace))

/-- `^\s*for\s(\w+)` -/
def forHeadPattern : Regex :=
  seq (many isSpace) (seq (lit "for".toList) (seq (char isSpace) (group (many1 isWord))))

/-- `^\s*elif\s` -/
def elifPattern : Regex := seq (many isSpace) (seq (lit "elif".toList) (char isSpace))

/-- `^\s*else\s*\{` -/
def elseHeadPattern : Regex :=
  seq (many isSpace) (seq (lit "else".toList) (seq (many isSpace) (lit "\x7b".toList)))

def isWordOrComma (c : Char) : Bool := isWord c || c == ','

/-- `^\s*\([\w,]+\)\s*=` -/
def tiePattern : Regex :=
  seq (many isSpace) (seq (lit "(".toList) (seq (many1 isWordOrComma) (seq (lit ")".toList)
    (seq (many isSpace) (lit "=".toList)))))

/-- `=\s*\([\w,]+\)\s*;$` -/
def makeTuplePattern : Regex :=
  seq (lit "=".toList) (seq (many isSpace) (seq (lit "(".toList) (seq (many1 isWordOrComma)
    (seq (lit ")".toList) (seq (many isSpace) (seq (lit ";".toList) endOfText))))))

/-- `^\s*return\s*\(.+?\)` -/
def returnsTuplePattern : Regex :=
  seq (many isSpace) (seq (lit "return".toList) (seq (many isSpace) (seq (lit "(".toList)
    (seq (many1Lazy isDot) (lit ")".toList)))))

/-- `return\s+` -/
def returnPattern : Regex := seq (lit "return".toList) (many1 isSpace)

def isCapital (c : Char) : Bool := c.isUpper

/-- `^\s*[A-Z][A-Z_0-9]+=` -/
def constantPattern : Regex :=
  seq (many isSpace) (seq (char isCapital)
    (seq (many1 fun c => isCapital c || c == '_' || c.isDigit) (lit "=".toList)))

/-- `^\s*\w+=(0x)?\d+` -/
def numberPattern : Regex :=
  seq (many isSpace) (seq (many1 isWord) (seq (lit "=".toList) (seq (opt (group (lit "0x".toList)))
    (many1 Char.isDigit))))

/-- `^\s*(\w+)=\[;$` -/
def listsPattern : Regex :=
  seq (many isSpace) (seq (group (many1 isWord)) (seq (lit "=[;".toList) endOfText))

/-- `^\s*\[[\w,]+\],?;$` -/
def rowPattern : Regex :=
  seq (many isSpace) (seq (lit "[".toList) (seq (many1 isWordOrComma) (seq (lit "]".toList)
    (seq (opt (lit ",".toList)) (seq (lit ";".toList) endOfText)))))

/-- `^\s*\(\w+,\[[\w,]+\]\)` -/
def labelledRowPattern : Regex :=
  seq (many isSpace) (seq (lit "(".toList) (seq (many1 isWord) (seq (lit ",[".toList)
    (seq (many1 isWordOrComma) (lit "])".toList)))))

/-- `^\s+\];$` -/
def listsEndPattern : Regex := seq (many1 isSpace) (seq (lit "];".toList) endOfText)

/-- `^\s+(else|elif)` -/
def elsePattern : Regex :=
  seq (many1 isSpace) (group (alt (lit "else".toList) (lit "elif".toList)))

/-- The first match of a text, replaced by another. -/
def substText (old new : String) : Text → Text := subst (lit old.toList) fun _ => new.toList

/-! ## What a line becomes -/

/-- The module that a line imports. -/
def importedModule (line : Text) : Option Text :=
  ((search fromPattern line).orElse fun _ => search importPattern line).map fun (_, h) =>
    h.groups.headD []

def includeLine (module : Text) : Text :=
  "#include \x22".toList ++ (module ++ ".h\x22".toList)

/-- `s/\{$/) {/` -/
def closeParen : Text → Text := subst bracePattern fun _ => ") \x7b".toList

/-- The head of a block that is no function with arguments, after its colon was replaced. -/
def blockHead (line : Text) : Text :=
  if (matchStart ifPattern line).isSome then
    closeParen (substText "while " "while (" (substText "if " "if (" line))
  else
    match captures forHeadPattern line with
    | some (var, _) =>
        subst (lit var) (fun _ => "auto ".toList ++ var)
          (substText " in " " : " (closeParen (substText "for " "for (" line)))
    | none =>
        if (matchStart elifPattern line).isSome then
          closeParen (substText "elif " " else if (" line)
        else if (matchStart elseHeadPattern line).isSome then substText "else " " else " line
        else line

/-- The left-hand side of a tuple assignment. -/
def tie (line : Text) : Text :=
  if (matchStart tiePattern line).isSome then substText "(" "std::tie(" line else line

/-- A row of a list of lists. -/
def row (line : Text) : Text :=
  substText ";" "" (substText "]" "\x7d" (substText "[" "\x7b_," line))

/-- A row with a label. Only the apostrophes go everywhere. -/
def labelledRow (line : Text) : Text :=
  substText ";" "" ((substText "]" "" (substText "[" "" (substText ")" "\x7d"
    (substText "(" "\x7b" line)))).filter fun c => c != '\x27')

/-- The rows are put between braces, and what ends them after. -/
def listLine (indent line : Text) : Text :=
  match captures listsPattern line with
  | some (vec, _) =>
      indent ++ ("std::vector< std::vector<uint64_t>> ".toList ++ (vec ++ "=\x7b".toList))
  | none =>
      if (matchStart rowPattern line).isSome then row line
      else if (matchStart labelledRowPattern line).isSome then labelledRow line
      else if (matchStart listsEndPattern line).isSome then indent ++ "\x7d;".toList
      else line

/-- The last of the rewriting, which tells apart tuples, constants and lists of lists. -/
def rewriteStatement (currentFunc indent line : Text) : Text :=
  if (search makeTuplePattern line).isSome then substText "=" "= std::make_tuple" line
  else if (matchStart returnsTuplePattern line).isSome then
    subst returnPattern (fun _ => "return std::make_tuple".toList) line
  else if (matchStart constantPattern line).isSome then "const uint64_t ".toList ++ line
  else if currentFunc = GLOBAL ∧ (matchStart numberPattern line).isSome then
    "uint64_t ".toList ++ line
  else listLine indent line

/-- `s/\s*$/;/` -/
def semicolon : Text → Text := subst blankPattern fun _ => ";".toList

/-- The colon at the end of the head of a block is replaced. -/
def openBody : Text → Text := subst blockPattern fun _ => " \x7b".toList

/-! ## Functions -/

/-- A type, or nothing where there is none, and a name. -/
def declaration (ds : Decls) (x : Text) : Text :=
  (ds.lookup x).getD [] ++ (" ".toList ++ x)

/-- The head of a definition, up to its last parenthesis. -/
def prototype (t : Tables) (indent func argtup : Text) : Text :=
  indent ++ ((((t.args func).lookup DEF).getD []) ++ (" ".toList ++ (func ++ ("(".toList ++
    (",".toList.intercalate ((split (lit ",".toList) argtup).map (declaration (t.args func))) ++
      ")".toList)))))

/-- The variables of a function that are not among its arguments, in order. -/
def locals (t : Tables) (func : Text) : List Text :=
  (((t.varDecls func).map Prod.fst).insertionSort (· ≤ ·)).filter fun x =>
    ((t.args func).lookup x).isNone

/-- The declarations at the start of a definition. -/
def declarations (t : Tables) (indent func : Text) : List Text :=
  (locals t func).map (fun x =>
    indent ++ ("    ".toList ++ (declaration (t.varDecls func) x ++ ";".toList))) ++
  [indent ++ "    uint64_t None=0;".toList]

/-! ## The loop -/

/-- The variables of the loop. -/
structure Emission where
  cppLines : List Text
  cppHeaderLines : List Text
  hasFunctions : ℕ
  currentFunc : Text
  prevIndent : Text
  prevLine : Text
  indentStack : List Text
  ndecls : ℕ

namespace Emission

def push (s : Emission) (lines : List Text) : Emission := { s with cppLines := s.cppLines ++ lines }

/-- The block that a line begins. -/
def openBlock (s : Emission) (indent : Text) : Emission :=
  if s.prevIndent.length < indent.length ∧ (search bracePattern s.prevLine).isSome then
    { s with indentStack := indent :: s.indentStack }
  else s

/-- The definition of a function, up to its body. -/
def define (t : Tables) (indent func argtup : Text) (s : Emission) : Emission :=
  { s with
    hasFunctions := s.hasFunctions + 1
    currentFunc := func
    cppHeaderLines := s.cppHeaderLines ++ [prototype t indent func argtup ++ ";".toList]
    cppLines := s.cppLines ++ (prototype t indent func argtup ++ "\x7b".toList) ::
      declarations t indent func
    ndecls := (locals t func).length + 1 }

/-- A number in decimal notation. -/
def decimal (n : ℕ) : Text := Nat.toDigits 10 n

/-- The line with the brace that uncovers the rest of the stack. -/
def closingBrace (s : Emission) (indent : Text) (rest : List Text) : Text :=
  rest.headD [] ++ ("\x7d//".toList ++ (decimal s.prevIndent.length ++ (" > ".toList ++
    decimal indent.length)))

/-- `while (length($indent_stack[-1]) > length($indent))`, by the stack. A brace goes in front
of an `else`, or before the definition just emitted, or to the end. -/
def popBraces (indent : Text) (skip : Bool) : List Text → Emission × Text → Emission × Text
  | [], (s, line) => (s, line)
  | top :: rest, (s, line) =>
      if indent.length < top.length then
        let brace := s.closingBrace indent rest
        let s := { s with indentStack := rest }
        match captures elsePattern line with
        | some (w, _) =>
            popBraces indent skip rest (s, subst (lit w) (fun _ => "\x7d ".toList ++ w) line)
        | none =>
            if skip then
              let i := s.cppLines.length - s.ndecls - 1
              let cppLines := s.cppLines.take i ++ ([brace, []] ++ s.cppLines.drop i)
              popBraces indent skip rest ({ s with cppLines }, line)
            else popBraces indent skip rest (s.push [brace], line)
      else (s, line)

/-- The blocks that a line ends. -/
def closeBlocks (indent : Text) (skip : Bool) (a : Emission × Text) : Emission × Text :=
  if indent.length < a.1.prevIndent.length then popBraces indent skip a.1.indentStack a else a

/-- `s/^\s*\#/\/\//` on a comment. -/
def comment (line : Text) : Text :=
  match matchStart commentPattern line with
  | some h => "//".toList ++ h.rest
  | none => line

/-- What becomes of a line, and whether it has been pushed. A definition has. -/
def body (t : Tables) (indent line : Text) (skip : Bool) (s : Emission) : Emission × Text × Bool :=
  if (search blockPattern line).isSome then
    match captures defHeadPattern (openBody line) with
    | some (func, argtup) =>
        (s.define t indent func argtup, prototype t indent func argtup ++ "\x7b".toList, true)
    | none => (s, blockHead (openBody line), skip)
  else (s, semicolon line, skip)

/-- A line of code, from the test for the head of a block on. -/
def finish (t : Tables) (indent line : Text) (skip : Bool) (s : Emission) : Emission :=
  let (s, line, skip) := s.body t indent line skip
  let line := rewriteStatement s.currentFunc indent (tie line)
  let (s, line) := closeBlocks indent skip (s, line)
  let s := { s with prevIndent := indent, prevLine := line }
  if skip then s else s.push [comment line]

/-- The body of the loop. -/
def emitLine (t : Tables) (s : Emission) (line : Text) : Emission :=
  if isSkipped line then s.push [comment line]
  else
    let indent := indentOf line
    let s := s.openBlock indent
    match importedModule line with
    | some module =>
        if module = "numpy".toList then s
        else
          let line := includeLine module
          { s.push [line] with prevLine := line, prevIndent := indent }.finish t indent line true
    | none => s.finish t indent line false

/-- The variables before the loop, for the values that the analysis ends with. -/
def start (scope : Scope) : Emission where
  cppLines := ["#include <tuple>".toList]
  cppHeaderLines := ["#include <vector>".toList, "#include <tuple>".toList]
  hasFunctions := 0
  currentFunc := GLOBAL
  prevIndent := scope.prevIndent
  prevLine := scope.prevLine
  indentStack := [[]]
  ndecls := 0

/-- The blocks that are open at the end. -/
def closeAll (s : Emission) : Emission :=
  if s.indentStack = [] then s else s.push [List.replicate (s.indentStack.length - 1) '}']

end Emission

/-- The loop. -/
def emit (a : Scope × Tables) (lines : List Text) : Emission :=
  lines.foldl (Emission.emitLine a.2) (.start a.1)

/-- What is there when the files are written. -/
def translated (lines : List Text) : Emission := (emit (analysis lines) lines).closeAll

/-- The `.cc` file, if one is written, and the `.h` file. -/
def translate (lines : List Text) : Option (List Text) × List Text :=
  let s := translated lines
  if s.hasFunctions ≠ 0 then (some s.cppLines, s.cppHeaderLines) else (none, s.cppLines)

end Osh.Py2Cpp
