import Osh.Lib.Regex

/-!
# Reading the generated C text

The script produces text, and what it does is what that text means as C. This module
reads as much of C as the body of a generated function uses: literals and comments are
skipped, brackets are counted, statements end at a semicolon outside all brackets. The
statements that set `pc` are recognised; every other statement is opaque.

## Main definitions

* `Lex`: where a reader of C text stands; `Lex.next` reads one character.
* `statements`: a text cut into its statements.
* `CStmt`: the statements told apart, and `classify`, which does it.
* `readBody`: the body of a function.
-/
namespace Osh.Tasks
open Regex

/-! ## Characters -/

/-- White space inside a line. -/
def isBlank (c : Char) : Bool := [' ', '\t', '\x0B', '\x0C', '\r'].contains c

/-- Inside what the reader stands: code (`slash`: a slash was read last), a string or a
character literal (`strEsc`, `chrEsc`: a backslash was read last), or a comment. -/
inductive Mode
  | code
  | slash
  | str
  | strEsc
  | chr
  | chrEsc
  | comment
  | commentStar
deriving DecidableEq, Repr

/-- The mode and the number of open brackets. -/
structure Lex where
  mode : Mode
  depth : ℕ
deriving DecidableEq, Repr

/-- A character of code. -/
def afterCode (depth : ℕ) (c : Char) : Option Lex :=
  if c = '\x22' then some ⟨.str, depth⟩
  else if c = '\x27' then some ⟨.chr, depth⟩
  else if c = '/' then some ⟨.slash, depth⟩
  else if c = '(' ∨ c = '[' ∨ c = '{' then some ⟨.code, depth + 1⟩
  else if c = ')' ∨ c = ']' ∨ c = '}' then
    match depth with
    | 0 => none
    | d + 1 => some ⟨.code, d⟩
  else some ⟨.code, depth⟩

/-- Reads one character; `none` for a bracket that closes nothing, and for a comment up to
the end of the line, which would swallow what the script appends. -/
def Lex.next (l : Lex) (c : Char) : Option Lex :=
  match l.mode with
  | .code => afterCode l.depth c
  | .slash =>
      if c = '/' then none
      else if c = '*' then some ⟨.comment, l.depth⟩
      else afterCode l.depth c
  | .str => some ⟨if c = '\x5C' then .strEsc else if c = '\x22' then .code else .str, l.depth⟩
  | .strEsc => some ⟨.str, l.depth⟩
  | .chr => some ⟨if c = '\x5C' then .chrEsc else if c = '\x27' then .code else .chr, l.depth⟩
  | .chrEsc => some ⟨.chr, l.depth⟩
  | .comment => some ⟨if c = '*' then .commentStar else .comment, l.depth⟩
  | .commentStar =>
      some ⟨if c = '/' then .code else if c = '*' then .commentStar else .comment, l.depth⟩

/-- Code outside all brackets. -/
def Lex.top : Lex := ⟨.code, 0⟩

/-- Reads a text. -/
def Lex.read (l : Lex) (t : Text) : Option Lex := t.foldlM Lex.next l

/-- Inside the text all that is opened is closed, and nothing else. -/
def Balanced (t : Text) : Prop := Lex.top.read t = some .top

instance : DecidablePred Balanced := fun _ => inferInstanceAs (Decidable (_ = _))

/-! ## Statements -/

/-- Where the reader stands, the statement it is in, and those before. -/
structure Reader where
  lex : Lex
  current : Text
  done : List Text
deriving DecidableEq, Repr

def Reader.start : Reader := ⟨.top, [], []⟩

def Reader.next (r : Reader) (c : Char) : Option Reader :=
  (r.lex.next c).map fun lex =>
    if c = ';' ∧ lex = .top then ⟨lex, [], r.done ++ [r.current ++ [c]]⟩
    else ⟨lex, r.current ++ [c], r.done⟩

def Reader.read (r : Reader) (t : Text) : Option Reader := t.foldlM Reader.next r

/-- The statements of a text that is complete. What follows the last semicolon is white
space or a statement that ends with a bracket. -/
def statements (t : Text) : Option (List Text) := do
  let r ← Reader.start.read t
  if r.lex = .top then some (if r.current.all isBlank then r.done else r.done ++ [r.current])
  else none

/-! ## The statements that set `pc` -/

/-- `plain` stands for every statement that has nothing to do with control. -/
inductive CStmt
  | plain (text : Text)
  /-- `pc++;` -/
  | incPc
  /-- `pc = n;` -/
  | setPc (n : ℕ)
  /-- `if (cond) \x7b pc =n; \x7d else \x7b pc++;\x7d` -/
  | branch (cond : Text) (n : ℕ)
deriving DecidableEq, Repr

/-- The text behind the given one. -/
def strip (w t : Text) : Option Text := if w.isPrefixOf t then some (t.drop w.length) else none

/-- A decimal number, and what follows it. -/
def readNat (t : Text) : Option (ℕ × Text) :=
  if t.takeWhile Char.isDigit = [] then none
  else some (Nat.ofDigitChars 10 (t.takeWhile Char.isDigit) 0, t.dropWhile Char.isDigit)

/-- The text up to the bracket that closes the one before it, and what follows that. -/
def readCond (l : Lex) : Text → Option (Text × Text)
  | [] => none
  | c :: cs =>
      if c = ')' ∧ l.depth = 0 ∧ (l.mode = .code ∨ l.mode = .slash) then some ([], cs)
      else do
        let (cond, rest) ← readCond (← l.next c) cs
        some (c :: cond, rest)

def readInc (t : Text) : Option CStmt := if t = "pc++;".toList then some .incPc else none

def readSet (t : Text) : Option CStmt := do
  let (n, t) ← readNat (← strip "pc = ".toList t)
  if t = ";".toList then some (.setPc n) else none

def readBranch (t : Text) : Option CStmt := do
  let t ← strip "if".toList t
  let t ← strip "(".toList (t.dropWhile isBlank)
  let (cond, t) ← readCond .top t
  let t ← strip "\x7b pc =".toList (t.dropWhile isBlank)
  let (n, t) ← readNat t
  if t = "; \x7d else \x7b pc++;\x7d".toList then some (.branch cond n) else none

/-- The words of a text outside its literals and comments. -/
def codeWords (l : Lex) (w : Text) : Text → List Text
  | [] => [w]
  | c :: cs =>
      match l.next c with
      | none => [w]
      | some l' =>
          if l'.mode = .code ∧ isWord c then codeWords l' (w ++ [c]) cs
          else w :: codeWords l' [] cs

/-- The text uses `pc`, jumps or returns. -/
def usesControl (t : Text) : Bool :=
  (codeWords .top [] t).any ["pc".toList, "goto".toList, "return".toList].contains

/-- A statement is one of those that set `pc`, or does nothing about control; the
generated functions contain no others. -/
def classify (s : Text) : Option CStmt :=
  let t := s.dropWhile isBlank
  match (readInc t).or ((readSet t).or (readBranch t)) with
  | some stmt => some stmt
  | none => if usesControl s then none else some (.plain s)

/-- The body of a function. -/
def readBody (t : Text) : Option (List CStmt) := do (← statements t).mapM classify

/-- A function definition `void name(void) \x7bbody\x7d`. -/
def readFunc (t : Text) : Option (Text × List CStmt) := do
  let t ← strip "void ".toList t
  let body ← strip "(void) \x7b".toList (t.dropWhile isWord)
  if body.getLast? = some '}' then
    let stmts ← readBody body.dropLast
    some (t.takeWhile isWord, stmts)
  else none

example : readBody "    pc = 12;".toList = some [.setPc 12] := by decide +kernel

example : readBody "if (s[i]==';') \x7b pc =3; \x7d else \x7b pc++;\x7d".toList =
    some [.branch "s[i]==';'".toList 3] := by decide +kernel

example : readBody "f(\"pc\", 'g'); x=1; pc++;".toList =
    some [.plain "f(\"pc\", 'g');".toList, .plain " x=1;".toList, .incPc] := by decide +kernel

end Osh.Tasks
