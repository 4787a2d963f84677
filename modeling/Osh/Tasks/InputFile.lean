import Mathlib.Data.List.Basic
import Osh.Lib.Lists
import Osh.Tasks.Rewriting
import Osh.Tasks.VariablePattern

/-!
# Input files

Files of tasks as the script expects them: between a line that opens a task and one that
closes it there are declarations, `type name;` or `type name[size];`, and statements, each
on a line of its own. Outside the tasks there are declarations, too, and any other lines that
open no task.

## Main definitions

* `Declaration`, `Statement`, `SourceTask`, `InputFile`: the parts of a file.
* `Declaration.IsSimple`: a declaration that the script can read.
* `MentionsType`: a type name stands before white space, somewhere on the line.

## Main results

* `search_header`, `isSome_footer`: the lines that open and close a task are recognised.
* `search_typePattern_iff`: which lines are taken for declarations.
* `Declaration.globalOf_line`: the global declaration that a declaration becomes.
* `Declaration.keyOf_line`: its variable, if it is simple.
-/
namespace Osh.Tasks
open Regex

/-- The types that the script knows. -/
inductive CType where
  | int | float | char | long | double
deriving DecidableEq, Repr

def CType.text : CType → Text
  | int => "int".toList
  | float => "float".toList
  | char => "char".toList
  | long => "long".toList
  | double => "double".toList

/-- A type name stands before white space, as a word or at the end of one. -/
def MentionsType (line : Text) : Prop :=
  ∃ (type : CType) (c : Char), isSpace c = true ∧ type.text ++ [c] <:+: line

/-! ## Files -/

/-- The parts of a line `type name;` or `type name[size];`. -/
structure DeclarationText where
  indent : Text
  type : CType
  gap : Text
  name : Text
  /-- What stands between the name and the bracket, and between the brackets. -/
  size : Option (Text × Text)
  gap' : Text
  /-- The end of the line, its newline included. -/
  trailing : Text

namespace DeclarationText

/-- The variable as it is written, with its size. -/
def var (d : DeclarationText) : Text :=
  d.name ++ match d.size with
    | some (gap, size) => gap ++ '[' :: (size ++ [']'])
    | none => []

def line (d : DeclarationText) : Text :=
  d.indent ++ (d.type.text ++ (d.gap ++ (d.var ++ (d.gap' ++ ';' :: d.trailing))))

end DeclarationText

/-- A declaration on a line that opens no task. The size may be any text. -/
structure Declaration extends DeclarationText where
  blank_indent : Blank indent
  gap_ne_nil : gap ≠ []
  blank_gap : Blank gap
  isName : IsName name
  size_oneLine : ∀ p ∈ size, Blank p.1 ∧ '\n' ∉ p.2
  blank_gap' : Blank gap'
  blank_trailing : Blank (chomp trailing)
  noStart : search subStartPattern toDeclarationText.line = none

namespace Declaration

/-- The global declaration that it should become. -/
def globalLine (d : Declaration) : Text := "    static ".toList ++ chomp d.line

/-- The entry of `%globals` that it becomes, if there is a variable on the line. -/
def global? (d : Declaration) (task : Text) : Option Global :=
  (keyOf d.line).map fun var => ⟨var, d.globalLine, task⟩

/-- There is no blank before the bracket, and the size is made of the characters of words. -/
def IsSimple (d : Declaration) : Prop :=
  ∀ p ∈ d.size, p.1 = [] ∧ ∀ x ∈ p.2, isWord x = true

instance : DecidablePred IsSimple := fun d =>
  decidable_of_iff (∀ p ∈ d.size, p.1 = [] ∧ p.2.all isWord = true) <|
    forall₂_congr fun _ _ => and_congr_right fun _ => List.all_eq_true

end Declaration

/-- A statement on a line. It is not blank, closes nothing, and does not begin with the name
of a type. -/
structure Statement where
  /-- The line with its newline. -/
  line : Text
  oneLine : '\n' ∉ line.dropLast
  notBlank : line.filter (fun c => !isSpace c) ≠ []
  notBrace : line.filter (fun c => !isSpace c) ≠ ['\x7d']
  noType : ∀ (type : CType) (rest : Text), line.dropWhile isSpace = type.text ++ rest →
    rest.head?.any isWord = true

/-- A line that begins with no type name at all. -/
def Statement.ofLine (line : Text) (oneLine : '\n' ∉ line.dropLast)
    (notBrace : line.filter (fun c => !isSpace c) ∉ [[], ['\x7d']])
    (noType : [CType.int, .float, .char, .long, .double].all (fun type =>
      !type.text.isPrefixOf (line.dropWhile isSpace)) = true) : Statement where
  line := line
  oneLine := oneLine
  notBlank := fun h => notBrace (h ▸ List.mem_cons_self ..)
  notBrace := fun h => notBrace (h ▸ List.mem_cons_of_mem _ (List.mem_cons_self ..))
  noType := by
    intro type rest h
    have hmem : type ∈ [CType.int, .float, .char, .long, .double] := by
      cases type <;> decide
    have hprefix := List.all_eq_true.mp noType type hmem
    rw [h, List.isPrefixOf_iff_prefix.mpr (List.prefix_append ..)] at hprefix
    cases hprefix

inductive BodyLine where
  | declaration (d : Declaration)
  | statement (s : Statement)

namespace BodyLine

def line : BodyLine → Text
  | declaration d => d.line
  | statement s => s.line

def declaration? : BodyLine → Option Declaration
  | declaration d => some d
  | statement _ => none

def statement? : BodyLine → Option Text
  | declaration _ => none
  | statement s => some s.line

end BodyLine

/-- `void name(void) \x7b` -/
def IsHeader (name line : Text) : Prop :=
  ∃ indent gap gap₁ gap₂ gap₃ gap₄ trailing : Text, Spaces indent ∧ gap ≠ [] ∧ Spaces gap ∧
    Spaces gap₁ ∧ Spaces gap₂ ∧ Spaces gap₃ ∧ Spaces gap₄ ∧ Spaces trailing ∧
    line = indent ++ ("void".toList ++ (gap ++ (name ++ (gap₁ ++ ("(".toList ++ (gap₂ ++
      ("void".toList ++ (gap₃ ++ (")".toList ++ (gap₄ ++ ("\x7b".toList ++ trailing)))))))))))

/-- A closing brace on a line of its own. -/
def IsFooter (line : Text) : Prop :=
  ∃ indent trailing : Text, Spaces indent ∧ Spaces trailing ∧ line = indent ++ '\x7d' :: trailing

structure SourceTask where
  name : Text
  header : Text
  body : List BodyLine
  footer : Text
  isName : IsName name
  isHeader : IsHeader name header
  isFooter : IsFooter footer

namespace SourceTask

def lines (t : SourceTask) : List Text := t.header :: (t.body.map BodyLine.line ++ [t.footer])

def declarations (t : SourceTask) : List Declaration := t.body.filterMap BodyLine.declaration?

/-- The lines of the task that are to be kept. -/
def statements (t : SourceTask) : List Text := t.body.filterMap BodyLine.statement?

end SourceTask

/-- A declaration outside all tasks, another line there, or a task. -/
inductive Item where
  | declaration (d : Declaration)
  | outside (line : Text) (h : search subStartPattern line = none)
      (hdeclaration : ∀ d : Declaration, line ≠ d.line)
  | task (t : SourceTask)

namespace Item

def lines : Item → List Text
  | declaration d => [d.line]
  | outside line _ _ => [line]
  | task t => t.lines

def task? : Item → Option SourceTask
  | task t => some t
  | _ => none

def declarations : Item → List Declaration
  | declaration d => [d]
  | outside _ _ _ => []
  | task t => t.declarations

end Item

/-- A file in which each task has a name of its own. -/
structure InputFile where
  items : List Item
  names_nodup : ((items.filterMap Item.task?).map SourceTask.name).Nodup

namespace InputFile

def lines (f : InputFile) : List Text := f.items.flatMap Item.lines

def tasks (f : InputFile) : List SourceTask := f.items.filterMap Item.task?

/-- The declarations inside the tasks. -/
def declarations (f : InputFile) : List Declaration := f.tasks.flatMap SourceTask.declarations

end InputFile

variable {t line name xs ys : Text} {h : Hit}

/-! ## White space and names -/

theorem Blank.spaces (ht : Blank t) : Spaces t := fun x hx => isSpace_of_isBlank (ht x hx)

theorem Spaces.append (hx : Spaces xs) (hy : Spaces ys) : Spaces (xs ++ ys) := by
  intro x h
  exact (List.mem_append.mp h).elim (hx x) (hy x)

theorem Spaces.notMem (ht : Spaces t) {c : Char} (hc : isSpace c = false) : c ∉ t := by
  intro hmem
  rw [ht c hmem] at hc
  cases hc

theorem IsName.notMem (ht : IsName t) {c : Char} (hc : isWord c = false) : c ∉ t := by
  intro hmem
  rw [ht.2 c hmem] at hc
  cases hc

/-- A name is not white space where it begins. -/
theorem IsName.head? (ht : IsName t) : (t ++ xs).head?.any isSpace = false :=
  head?_any_isSpace ht.1 ht.2

/-! ## The line that opens a task -/

/-- What the pattern captures is a name before white space and a parenthesis. -/
theorem of_mem_subStartPattern (hmem : h ∈ subStartPattern t) :
    ∃ gap gap' rest : Text, gap ≠ [] ∧ Spaces gap ∧ Spaces gap' ∧ IsName (h.groups.headD []) ∧
      t = "void".toList ++ (gap ++ (h.groups.headD [] ++ (gap' ++ '(' :: rest))) := by
  obtain ⟨a, ha, _, h₁, rfl⟩ := mem_seq_iff.mp hmem
  obtain ⟨b, hb, _, h₂, rfl⟩ := mem_seq_iff.mp h₁
  obtain ⟨_, hg, _, h₃, rfl⟩ := mem_seq_iff.mp h₂
  obtain ⟨c, hc, rfl⟩ := mem_group_iff.mp hg
  obtain ⟨d, hd, _, h₄, rfl⟩ := mem_seq_iff.mp h₃
  obtain ⟨e, he, k, -, rfl⟩ := mem_seq_iff.mp h₄
  obtain ⟨hat, -, hag⟩ := mem_lit_iff.mp ha
  obtain ⟨hbne, hbt, hb, hbg⟩ := mem_many1_iff.mp hb
  obtain ⟨hcne, hct, hc, hcg⟩ := mem_many1_iff.mp hc
  obtain ⟨hdt, hd, -⟩ := mem_many_iff.mp hd
  obtain ⟨het, -, -⟩ := mem_lit_iff.mp he
  have hgroup : ((a.append (b.append ({ c with groups := c.matched :: c.groups }.append
      (d.append (e.append k))))).groups).headD [] = c.matched := by
    simp [Hit.append, hag, hbg]
  rw [hgroup]
  refine ⟨b.matched, d.matched, e.rest, hbne, hb, hd, ⟨hcne, hc⟩, ?_⟩
  rw [hat, hbt, hct, hdt, het]
  rfl

/-- A line without a parenthesis opens no task. -/
theorem search_subStartPattern_eq_none (ht : '(' ∉ t) : search subStartPattern t = none := by
  rw [search_eq_none_iff]
  intro s hs
  refine List.eq_nil_iff_forall_not_mem.mpr fun h hmem => ?_
  obtain ⟨gap, gap', rest, -, -, -, -, hst⟩ := of_mem_subStartPattern hmem
  refine ht (hs.subset ?_)
  rw [hst]
  simp

/-- The line that opens a task is recognised, with the name of the task. -/
theorem search_header (hname : IsName name) (hline : IsHeader name line) :
    ∃ before h, search subStartPattern line = some (before, h) ∧ h.groups.headD [] = name := by
  obtain ⟨indent, gap, gap₁, gap₂, gap₃, gap₄, trailing, hindent, hgap, hsgap, hgap₁, hgap₂, hgap₃,
    hgap₄, -, rfl⟩ := hline
  have havoids : ∀ rest, Avoids "void".toList indent rest := by
    intro rest
    exact avoids_of_not_mem (hindent.notMem (by decide))
  have hne : subStartPattern ("void".toList ++ (gap ++ (name ++ (gap₁ ++ ("(".toList ++ (gap₂ ++
      ("void".toList ++ (gap₃ ++ (")".toList ++ (gap₄ ++ ("\x7b".toList ++ trailing))))))))))) ≠
      [] := by
    refine seq_ne_nil (mem_lit ..) ?_
    refine seq_ne_nil (mem_many1 hgap hsgap) ?_
    refine seq_ne_nil (mem_group_iff.mpr ⟨_, mem_many1 hname.1 hname.2, rfl⟩) ?_
    refine seq_ne_nil (mem_many hgap₁) ?_
    refine seq_ne_nil (mem_lit ..) ?_
    refine seq_ne_nil (mem_many hgap₂) ?_
    refine seq_ne_nil (mem_lit ..) ?_
    refine seq_ne_nil (mem_many hgap₃) ?_
    refine seq_ne_nil (mem_lit ..) ?_
    refine seq_ne_nil (mem_many hgap₄) ?_
    exact List.ne_nil_of_mem (mem_lit ..)
  obtain ⟨h, hmem, hhead⟩ := exists_head?_of_ne_nil hne
  refine ⟨indent ++ [], h, ?_, ?_⟩
  · have hsearch := search_of_head? hhead
    rw [subStartPattern, search_seq_lit (havoids _)]
    rw [subStartPattern] at hsearch
    rw [hsearch]
    rfl
  · obtain ⟨gap', gap₁', rest, -, hsgap', hgap₁', hname', heq⟩ := of_mem_subStartPattern hmem
    have hcut := append_inj_of_all (List.append_cancel_left heq) hsgap hsgap' hname.head?
      hname'.head?
    have hparen : ∀ {g r : Text}, Spaces g → (g ++ '(' :: r).head?.any isWord = false := by
      intro g r hg
      cases g with
      | nil => rfl
      | cons c g => exact not_isWord_of_isSpace (hg c (List.mem_cons_self ..))
    exact (append_inj_of_all hcut.2 hname.2 hname'.2 (hparen hgap₁) (hparen hgap₁')).1.symm

/-! ## The line that closes a task -/

/-- What the pattern for the end of a task matches is a brace and white space. -/
theorem filter_of_subEnd (hsome : (matchStart subEndPattern t).isSome = true) :
    t.filter (fun c => !isSpace c) = ['\x7d'] := by
  obtain ⟨h, hhead⟩ := Option.isSome_iff_exists.mp hsome
  obtain ⟨a, ha, _, h₁, rfl⟩ := mem_seq_iff.mp (List.mem_of_head? hhead)
  obtain ⟨b, hb, _, h₂, rfl⟩ := mem_seq_iff.mp h₁
  obtain ⟨c, hc, d, hd, rfl⟩ := mem_seq_iff.mp h₂
  obtain ⟨hat, ha, -⟩ := mem_many_iff.mp ha
  obtain ⟨hbt, -, -⟩ := mem_lit_iff.mp hb
  obtain ⟨hct, hc, -⟩ := mem_many_iff.mp hc
  have hrest := of_mem_endOfText hd
  have hfilter : ∀ {u : Text}, (∀ x ∈ u, isSpace x = true) →
      u.filter (fun c => !isSpace c) = [] := by
    intro u hu
    refine List.filter_eq_nil_iff.mpr fun x hx => ?_
    simp [hu x hx]
  have hend : c.rest.filter (fun c => !isSpace c) = [] := by
    rcases hrest with hrest | hrest <;> rw [hrest] <;> rfl
  rw [hat, hbt, hct, List.filter_append, List.filter_append, List.filter_append, hfilter ha,
    hfilter hc, hend]
  rfl

theorem isSome_footer (hline : IsFooter line) : (matchStart subEndPattern line).isSome = true := by
  obtain ⟨indent, trailing, hindent, htrailing, rfl⟩ := hline
  have hne : subEndPattern (indent ++ ("\x7d".toList ++ (trailing ++ []))) ≠ [] := by
    refine seq_ne_nil (mem_many hindent) ?_
    refine seq_ne_nil (mem_lit ..) ?_
    refine seq_ne_nil (mem_many htrailing) ?_
    simp [endOfText]
  obtain ⟨h, -, hhead⟩ := exists_head?_of_ne_nil hne
  rw [List.append_nil] at hhead
  exact Option.isSome_iff_exists.mpr ⟨h, hhead⟩

theorem search_footer (hline : IsFooter line) : search subStartPattern line = none := by
  obtain ⟨indent, trailing, hindent, htrailing, rfl⟩ := hline
  refine search_subStartPattern_eq_none fun hmem => ?_
  rcases List.mem_append.mp hmem with hmem | hmem
  · exact hindent.notMem (by decide) hmem
  · rcases List.mem_cons.mp hmem with hmem | hmem
    · exact absurd hmem (by decide)
    · exact htrailing.notMem (by decide) hmem

/-! ## Lines with the name of a type -/

theorem typePattern_ne_nil_iff : typePattern t ≠ [] ↔
    ∃ (type : CType) (c : Char), isSpace c = true ∧ type.text ++ [c] <+: t := by
  constructor
  · intro hne
    obtain ⟨h, hmem, -⟩ := exists_head?_of_ne_nil hne
    obtain ⟨a, ha, b, hb, rfl⟩ := mem_seq_iff.mp hmem
    obtain ⟨type, ha⟩ : ∃ type : CType, a ∈ lit type.text t := by
      simp only [alt, List.mem_append] at ha
      rcases ha with ha | ha | ha | ha | ha
      · exact ⟨.int, ha⟩
      · exact ⟨.float, ha⟩
      · exact ⟨.char, ha⟩
      · exact ⟨.long, ha⟩
      · exact ⟨.double, ha⟩
    obtain ⟨hat, -, -⟩ := mem_lit_iff.mp ha
    obtain ⟨hbne, hbt, hb, -⟩ := mem_many1_iff.mp hb
    obtain ⟨c, cs, hcs⟩ := List.exists_cons_of_ne_nil hbne
    refine ⟨type, c, hb c (hcs ▸ List.mem_cons_self ..), cs ++ b.rest, ?_⟩
    rw [hat, hbt, hcs]
    simp
  · rintro ⟨type, c, hc, rest, rfl⟩
    rw [List.append_assoc]
    have hspace : many1 isSpace ([c] ++ rest) ≠ [] := by
      rw [Ne, many1_eq_nil_iff]
      simp [hc]
    have htype : (⟨type.text, [], [c] ++ rest⟩ : Hit) ∈
        alt (lit "int".toList) (alt (lit "float".toList) (alt (lit "char".toList)
          (alt (lit "long".toList) (lit "double".toList)))) (type.text ++ ([c] ++ rest)) := by
      simp only [alt, List.mem_append]
      cases type with
      | int => exact .inl (mem_lit ..)
      | float => exact .inr (.inl (mem_lit ..))
      | char => exact .inr (.inr (.inl (mem_lit ..)))
      | long => exact .inr (.inr (.inr (.inl (mem_lit ..))))
      | double => exact .inr (.inr (.inr (.inr (mem_lit ..))))
    exact seq_ne_nil htype hspace

/-- The lines that are taken for declarations: those on which a type name stands before white
space. -/
theorem search_typePattern_iff : (search typePattern t).isSome = true ↔ MentionsType t := by
  have hnone : search typePattern t = none ↔ ¬ MentionsType t := by
    rw [search_eq_none_iff]
    constructor
    · rintro hall ⟨type, c, hc, a, b, rfl⟩
      exact typePattern_ne_nil_iff.mpr ⟨type, c, hc, b, rfl⟩ (hall _ ⟨a, by simp⟩)
    · intro hnot s hs
      by_contra hne
      obtain ⟨type, c, hc, hprefix⟩ := typePattern_ne_nil_iff.mp hne
      exact hnot ⟨type, c, hc, hprefix.isInfix.trans hs.isInfix⟩
  rw [← Option.ne_none_iff_isSome, Ne, hnone, not_not]

instance : DecidablePred MentionsType := fun _ => decidable_of_iff _ search_typePattern_iff

/-! ## Declarations -/

theorem CType.isWord_text (type : CType) : ∀ x ∈ type.text, isWord x = true := by
  cases type <;> exact List.all_eq_true.mp (by decide +kernel)

/-- No type is empty or begins like `static`. -/
theorem CType.head?_text (type : CType) : ∃ c cs, type.text = c :: cs ∧ c ≠ 's' := by
  cases type <;> exact ⟨_, _, rfl, by decide⟩

/-- White space up to the newline. -/
theorem of_blank_chomp (ht : Blank (chomp t)) : Spaces t ∧ '\n' ∉ t.dropLast := by
  by_cases hlast : t.getLast? = some '\n'
  · rw [chomp, if_pos hlast] at ht
    have hspaces : Spaces (t.dropLast ++ ['\n']) :=
      ht.spaces.append (List.forall_mem_singleton.mpr (by decide))
    rw [List.dropLast_append_getLast? _ hlast] at hspaces
    exact ⟨hspaces, ht.not_mem (by decide)⟩
  · rw [chomp, if_neg hlast] at ht
    exact ⟨ht.spaces, fun hmem => ht.not_mem (by decide) (List.mem_of_mem_dropLast hmem)⟩

/-- The variable that a line is kept under in `%globals`. -/
theorem map_headD_varPattern (hline : '\n' ∉ line.dropLast) :
    (matchStart varPattern line).map (fun h => h.groups.headD []) = keyOf line := by
  have hcaptures := captures_varPattern hline
  cases hmatch : matchStart varPattern line with
  | none =>
      rw [captures, hmatch] at hcaptures
      exact (Option.map_eq_none_iff.mp hcaptures.symm).symm
  | some h =>
      rw [captures, hmatch] at hcaptures
      obtain ⟨v, hv, hgroups⟩ := Option.map_eq_some_iff.mp hcaptures.symm
      rw [Option.map_some, ← hgroups, hv]
      rfl

namespace Declaration
variable {d : Declaration}

theorem line_eq (d : Declaration) : d.line =
    (d.indent ++ (d.type.text ++ (d.gap ++ (d.var ++ d.gap')))) ++ ';' :: d.trailing := by
  simp [DeclarationText.line]

/-- A declaration begins with a word. -/
theorem ne_line (d : Declaration) (h : (line.dropWhile isSpace).head?.any isWord = false) :
    line ≠ d.line := by
  rintro rfl
  obtain ⟨c, cs, htext, -⟩ := d.type.head?_text
  have hc : isWord c = true := d.type.isWord_text c (htext ▸ List.mem_cons_self ..)
  have hdrop : d.line.dropWhile isSpace =
      d.type.text ++ (d.gap ++ (d.var ++ (d.gap' ++ ';' :: d.trailing))) := by
    refine dropWhile_append_of_all d.blank_indent.spaces ?_
    rw [htext]
    exact not_isSpace_of_isWord hc
  rw [hdrop, htext] at h
  exact absurd hc (Bool.eq_false_iff.mp h)

theorem notMem_var (d : Declaration) : '\n' ∉ d.var := by
  have hsize : '\n' ∉ d.var.drop d.name.length := by
    rw [DeclarationText.var, List.drop_left]
    cases hsize : d.size with
    | none => exact List.not_mem_nil
    | some p =>
        obtain ⟨hgap, hp⟩ := d.size_oneLine p hsize
        have hgap' : '\n' ∉ p.1 := hgap.not_mem (by decide)
        simp [hgap', hp]
  have hvar : d.var = d.name ++ d.var.drop d.name.length := by
    rw [DeclarationText.var, List.drop_left]
  rw [hvar, List.mem_append]
  exact not_or.mpr ⟨d.isName.notMem (by decide), hsize⟩

/-- A declaration is one line. -/
theorem oneLine (d : Declaration) : '\n' ∉ d.line.dropLast := by
  have hfront : '\n' ∉ d.indent ++ (d.type.text ++ (d.gap ++ (d.var ++ d.gap'))) := by
    have hblank : ∀ {t : Text}, Blank t → '\n' ∉ t := fun h => h.not_mem (by decide)
    have htype : '\n' ∉ d.type.text := fun h => absurd (d.type.isWord_text _ h) (by decide)
    simp [hblank d.blank_indent, htype, hblank d.blank_gap, d.notMem_var, hblank d.blank_gap']
  rw [line_eq, List.dropLast_append_cons, List.mem_append]
  refine not_or.mpr ⟨hfront, fun hmem => ?_⟩
  by_cases hnil : d.trailing = []
  · rw [hnil] at hmem
    exact absurd hmem List.not_mem_nil
  · rw [List.dropLast_cons_of_ne_nil hnil] at hmem
    rcases List.mem_cons.mp hmem with hmem | hmem
    · exact absurd hmem (by decide)
    · exact (of_blank_chomp d.blank_trailing).2 hmem

theorem not_isSome_subEnd (d : Declaration) :
    ¬ (matchStart subEndPattern d.line).isSome = true := by
  intro hsome
  have hmem : ';' ∈ d.line.filter (fun c => !isSpace c) := by
    refine List.mem_filter.mpr ⟨?_, by decide⟩
    rw [line_eq]
    simp
  rw [filter_of_subEnd hsome] at hmem
  exact absurd hmem (by decide)

theorem mentionsType (d : Declaration) : MentionsType d.line := by
  obtain ⟨c, cs, hcs⟩ := List.exists_cons_of_ne_nil d.gap_ne_nil
  refine ⟨d.type, c, d.blank_gap.spaces c (hcs ▸ List.mem_cons_self ..), d.indent,
    cs ++ (d.var ++ (d.gap' ++ ';' :: d.trailing)), ?_⟩
  simp [DeclarationText.line, hcs]

/-- Cutting off the newline leaves the type where it is. -/
theorem prefix_chomp_line (d : Declaration) : d.indent ++ d.type.text <+: chomp d.line := by
  have hline : d.line = (d.indent ++ d.type.text) ++
      (d.gap ++ (d.var ++ (d.gap' ++ ';' :: d.trailing))) := by
    simp [DeclarationText.line]
  have hne : d.gap ++ (d.var ++ (d.gap' ++ ';' :: d.trailing)) ≠ [] := by
    simp
  unfold chomp
  split
  · rw [hline, List.dropLast_append_of_ne_nil hne]
    exact List.prefix_append _ _
  · rw [hline]
    exact List.prefix_append _ _

/-- Nothing is cut off: the line does not begin with `static`. -/
theorem cutStatic_line (d : Declaration) : cutStatic (chomp d.line) = chomp d.line := by
  have hnone : matchStart staticPattern (chomp d.line) = none := by
    rw [matchStart, List.head?_eq_none_iff]
    refine List.eq_nil_iff_forall_not_mem.mpr fun h hmem => ?_
    obtain ⟨a, ha, _, h₁, rfl⟩ := mem_seq_iff.mp hmem
    obtain ⟨b, hb, c, -, rfl⟩ := mem_seq_iff.mp h₁
    obtain ⟨hat, ha, -⟩ := mem_many_iff.mp ha
    obtain ⟨hbt, -, -⟩ := mem_lit_iff.mp hb
    obtain ⟨rest, hrest⟩ := d.prefix_chomp_line
    rw [hat, hbt, List.append_assoc] at hrest
    obtain ⟨t, ts, htext, hne⟩ := d.type.head?_text
    have hword : isWord t = true := d.type.isWord_text t (htext ▸ List.mem_cons_self ..)
    rw [htext] at hrest
    have hcut := append_inj_of_all hrest d.blank_indent.spaces ha (not_isSpace_of_isWord hword) rfl
    exact hne (List.cons.inj hcut.2).1
  rw [cutStatic, hnone]

/-- **A declaration becomes a global declaration**, if there is a variable on the line. -/
theorem globalOf_line (d : Declaration) {task : Text} (htask : task ≠ NO_TASK) :
    globalOf task d.line = d.global? task := by
  have htype := search_typePattern_iff.mpr d.mentionsType
  rw [globalOf, d.noStart, global?, ← map_headD_varPattern d.oneLine, Option.map_map]
  simp only [if_neg d.not_isSome_subEnd, if_pos (And.intro htask htype), d.cutStatic_line]
  rfl

/-- The variable of a simple declaration is written as it is declared. -/
theorem keyOf_line (h : d.IsSimple) : keyOf d.line = some d.var := by
  have hvar : isVariable d.var = true := by
    cases hsize : d.size with
    | none =>
        refine isVariable_iff.mpr ⟨d.name, [], [], [], d.isName, .inl rfl, nofun, .inl rfl, ?_⟩
        simp [DeclarationText.var, hsize]
    | some p =>
        obtain ⟨hgap, hword⟩ := h p hsize
        refine isVariable_iff.mpr
          ⟨d.name, ['['], p.2, [']'], d.isName, .inr rfl, hword, .inr rfl, ?_⟩
        simp [DeclarationText.var, hsize, hgap]
  have hfront : d.indent ++ d.type.text ≠ [] := by
    obtain ⟨c, cs, htext, -⟩ := d.type.head?_text
    rw [htext]
    exact List.append_ne_nil_of_right_ne_nil _ (List.cons_ne_nil c cs)
  have hline : d.line = (d.indent ++ d.type.text) ++
      (d.gap ++ (d.var ++ (d.gap' ++ ';' :: d.trailing))) := by
    simp [DeclarationText.line]
  rw [hline]
  exact keyOf_append hfront d.gap_ne_nil d.blank_gap.spaces hvar d.blank_gap'.spaces
    (of_blank_chomp d.blank_trailing).1

/-- The name is the part of the variable before a bracket. -/
theorem takeWhile_var (d : Declaration) : d.var.takeWhile isWord = d.name := by
  refine takeWhile_append_of_all d.isName.2 ?_
  cases hsize : d.size with
  | none => rfl
  | some p =>
      obtain ⟨gap, size⟩ := p
      cases gap with
      | nil => rfl
      | cons c gap =>
          have hc : isBlank c = true := (d.size_oneLine _ hsize).1 c (List.mem_cons_self ..)
          exact isWord_of_isBlank hc

end Declaration

/-! ## Statements -/

namespace Statement

theorem not_isSome_subEnd (s : Statement) : ¬ (matchStart subEndPattern s.line).isSome = true :=
  fun hsome => s.notBrace (filter_of_subEnd hsome)

theorem not_isSome_blank (s : Statement) : ¬ (matchStart blankPattern s.line).isSome = true := by
  intro hsome
  obtain ⟨h, hhead⟩ := Option.isSome_iff_exists.mp hsome
  obtain ⟨a, ha, b, hb, rfl⟩ := mem_seq_iff.mp (List.mem_of_head? hhead)
  obtain ⟨hat, ha, -⟩ := mem_many_iff.mp ha
  have hspaces : ∀ x ∈ s.line, isSpace x = true := by
    have hrest := of_mem_endOfText hb
    intro x hx
    rw [hat, List.mem_append] at hx
    rcases hx with hx | hx
    · exact ha x hx
    · rcases hrest with hrest | hrest
      · rw [hrest] at hx
        exact absurd hx List.not_mem_nil
      · rw [hrest] at hx
        obtain rfl := List.mem_singleton.mp hx
        decide
  refine s.notBlank (List.filter_eq_nil_iff.mpr fun x hx => ?_)
  simp [hspaces x hx]

end Statement

end Osh.Tasks
