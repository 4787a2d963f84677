import Osh.Lib.Braces
import Osh.Py2Cpp.Emission

/-!
# What rewriting does to braces

The rewriting of a line adds no braces but the one at the end of the head of a block. Lines
that belong to a list of lists are the exception.

## Main definitions

* `Keeps`: a text is changed, but not its braces.
* `isListLine`: the lines that `listLine` changes.

## Main results

* `endsOpen_openBody`, `keeps_blockHead`, `keeps_rewriteStatement`: the brace that the head
  of a block gets, and rewriting that adds none.
-/
namespace Osh.Py2Cpp
open Regex

/-- The second text has the braces of the first, and ends with an open one if that does. -/
structure Keeps (t t' : Text) : Prop where
  braces : braces t' = braces t
  last : t.getLast? = some '{' → t'.getLast? = some '{'

/-- The text ends with its only brace. -/
structure EndsOpen (t : Text) : Prop where
  braces : braces t = ['{']
  last : t.getLast? = some '{'

/-- The pattern matches something, but no braces. -/
def Unbraced (r : Regex) : Prop := ∀ t, ∀ h ∈ r t, h.matched ≠ [] ∧ braces h.matched = []

section
variable {r : Regex} {t t' u w : Text}

theorem Keeps.refl (t : Text) : Keeps t t := ⟨rfl, id⟩

theorem Keeps.trans (h : Keeps t t') (h' : Keeps t' u) : Keeps t u :=
  ⟨h'.braces.trans h.braces, fun hlast => h'.last (h.last hlast)⟩

theorem EndsOpen.keeps (h : EndsOpen t) (hk : Keeps t t') : EndsOpen t' :=
  ⟨hk.braces.trans h.braces, hk.last h.last⟩

/-- A replacement without braces. -/
theorem Unbraced.keeps [Reads r] (hr : Unbraced r) (hw : Osh.braces w = []) (t : Text) :
    Keeps t (subst r (fun _ => w) t) := by
  constructor
  · refine filter_subst (fun s h hmem => ?_) t
    exact hw.trans (hr s h hmem).2.symm
  · refine fun hlast => getLast?_subst (fun s h hmem => ?_) hlast
    obtain ⟨hne, hmatched⟩ := hr s h hmem
    refine ⟨hne, fun hbrace => ?_⟩
    exact Bool.true_eq_false_eq_False (braces_eq_nil_iff.mp hmatched _ hbrace)

theorem unbraced_lit (hne : w ≠ []) (hw : Osh.braces w = []) : Unbraced (lit w) := by
  intro s h hmem
  rw [(mem_lit_iff.mp hmem).2.1]
  exact ⟨hne, hw⟩

theorem keeps_substText {old new : String} (t : Text) (hne : old.toList ≠ [])
    (hold : Osh.braces old.toList = []) (hnew : Osh.braces new.toList = []) :
    Keeps t (substText old new t) :=
  (unbraced_lit hne hold).keeps hnew t

/-- A text without braces is put in front. -/
theorem keeps_append (hw : Osh.braces w = []) (t : Text) : Keeps t (w ++ t) := by
  constructor
  · rw [braces_append, hw, List.nil_append]
  · intro hlast
    rw [List.getLast?_append, hlast]
    rfl

/-- A text without braces is left without. -/
theorem braces_subst [Reads r] (hw : braces w = []) (ht : braces t = []) :
    braces (subst r (fun _ => w) t) = [] := by
  rw [subst]
  cases hsearch : search r t with
  | none => exact ht
  | some found =>
      obtain ⟨before, k⟩ := found
      rw [(reads_of_search hsearch).1, braces_append, braces_append] at ht
      simp only [List.append_eq_nil_iff] at ht
      simp [hw, ht]

theorem not_isBrace_of_isSpace {c : Char} (hc : isSpace c = true) : isBrace c = false := by
  simp only [isSpace, List.contains_eq_mem, List.mem_cons, List.not_mem_nil, or_false,
    decide_eq_true_eq] at hc
  rcases hc with rfl | rfl | rfl | rfl | rfl | rfl | rfl | rfl <;> rfl

theorem braces_spaces (hw : ∀ c ∈ w, isSpace c = true) : braces w = [] :=
  braces_eq_nil_iff.mpr fun c hc => not_isBrace_of_isSpace (hw c hc)

theorem not_isBrace_of_isWord {c : Char} (hc : isWord c = true) : isBrace c = false := by
  by_contra hbrace
  simp only [isBrace, Bool.not_eq_false, Bool.or_eq_true, beq_iff_eq] at hbrace
  rcases hbrace with rfl | rfl <;> exact absurd hc (by decide)

end

/-! ## Patterns -/

instance : Reads blankPattern := by
  unfold blankPattern
  infer_instance

instance : Reads indentPattern := by
  unfold indentPattern
  infer_instance

instance : Reads blockPattern := by
  unfold blockPattern
  infer_instance

instance : AtEnd blockPattern := by
  unfold blockPattern
  infer_instance

instance : Reads defPattern := by
  unfold defPattern
  infer_instance

instance : Reads commaPattern := by
  unfold commaPattern
  infer_instance

instance : Reads scalarPattern := by
  unfold scalarPattern
  infer_instance

instance : Reads tuplePattern := by
  unfold tuplePattern
  infer_instance

instance : Reads elementPattern := by
  unfold elementPattern
  infer_instance

instance : Reads listPattern := by
  unfold listPattern
  infer_instance

instance : Reads accessPattern := by
  unfold accessPattern
  infer_instance

instance : Reads forPattern := by
  unfold forPattern
  infer_instance

instance : Reads returnTuplePattern := by
  unfold returnTuplePattern
  infer_instance

instance : Reads fromPattern := by
  unfold fromPattern
  infer_instance

instance : Reads importPattern := by
  unfold importPattern
  infer_instance

instance : Reads bracePattern := by
  unfold bracePattern
  infer_instance

instance : AtEnd bracePattern := by
  unfold bracePattern
  infer_instance

instance : Reads returnPattern := by
  unfold returnPattern
  infer_instance

instance : Reads defHeadPattern := by
  unfold defHeadPattern
  infer_instance

/-! ## Rewriting -/

section
variable {t : Text}

/-- A line that belongs to a list of lists. -/
def isListLine (line : Text) : Bool :=
  (matchStart listsPattern line).isSome || (matchStart rowPattern line).isSome ||
    (matchStart labelledRowPattern line).isSome || (matchStart listsEndPattern line).isSome

theorem listLine_eq (h : isListLine t = false) (indent : Text) : listLine indent t = t := by
  simp only [isListLine, Bool.or_eq_false_iff, Option.isSome_eq_false_iff,
    Option.isNone_iff_eq_none] at h
  simp [listLine, captures, h]

theorem keeps_tie (t : Text) : Keeps t (tie t) := by
  rw [tie]
  split
  · exact keeps_substText t (by decide) rfl rfl
  · exact .refl t

theorem unbraced_returnPattern : Unbraced returnPattern := by
  intro s h hmem
  obtain ⟨a, ha, b, hb, rfl⟩ := mem_seq_iff.mp hmem
  obtain ⟨-, hmatched, -⟩ := mem_lit_iff.mp ha
  obtain ⟨-, -, hspaces, -⟩ := mem_many1_iff.mp hb
  rw [Hit.append, braces_append, hmatched, braces_spaces hspaces]
  exact ⟨by simp, rfl⟩

theorem keeps_rewriteStatement (h : isListLine t = false) (currentFunc indent : Text) :
    Keeps t (rewriteStatement currentFunc indent t) := by
  rw [rewriteStatement, listLine_eq h]
  split
  · exact keeps_substText t (by decide) rfl rfl
  split
  · exact unbraced_returnPattern.keeps rfl t
  split
  · exact keeps_append rfl t
  split
  · exact keeps_append rfl t
  · exact .refl t

theorem braces_semicolon (ht : braces t = []) : braces (semicolon t) = [] :=
  braces_subst rfl ht

/-- The head of a block gets a brace, at its end. -/
theorem endsOpen_openBody (ht : braces t = []) (hline : '\n' ∉ t)
    (hblock : (search blockPattern t).isSome = true) : EndsOpen (openBody t) := by
  obtain ⟨⟨before, k⟩, hsearch⟩ := Option.isSome_iff_exists.mp hblock
  have htext := (reads_of_search hsearch).1
  have hrest := rest_of_search hline hsearch
  rw [openBody, subst, hsearch]
  show EndsOpen (before ++ " \x7b".toList ++ k.rest)
  rw [htext, hrest] at ht
  simp only [braces_append, List.append_eq_nil_iff] at ht
  rw [hrest]
  constructor
  · simp [ht]
    rfl
  · simp

theorem keeps_closeParen (t : Text) : Keeps t (closeParen t) := by
  have hmatched : ∀ s, ∀ h ∈ bracePattern s, h.matched = ['{'] := by
    intro s h hmem
    obtain ⟨a, ha, b, hb, rfl⟩ := mem_seq_iff.mp hmem
    rw [endOfText] at hb
    split at hb
    · obtain rfl := List.mem_singleton.mp hb
      rw [Hit.append, (mem_lit_iff.mp ha).2.1]
      rfl
    · exact absurd hb List.not_mem_nil
  constructor
  · refine filter_subst (fun s h hmem => ?_) t
    rw [hmatched s h hmem]
    rfl
  · intro hlast
    rw [closeParen, subst]
    cases hsearch : search bracePattern t with
    | none => exact hlast
    | some found =>
        obtain ⟨before, k⟩ := found
        obtain ⟨htext, s, hmem⟩ := reads_of_search hsearch
        show (before ++ ") \x7b".toList ++ k.rest).getLast? = some '{'
        rcases AtEnd.rest s k hmem with hrest | hrest
        · rw [hrest]
          simp
        · rw [htext, hrest] at hlast
          simp at hlast

/-- The variable of a `for` loop. -/
theorem unbraced_forVar {var group : Text} (h : captures forHeadPattern t = some (var, group)) :
    Unbraced (lit var) := by
  obtain ⟨k, hk, heq⟩ := Option.map_eq_some_iff.mp h
  obtain ⟨a, ha, _, h₁, rfl⟩ := mem_seq_iff.mp (mem_of_matchStart hk)
  obtain ⟨b, hb, _, h₂, rfl⟩ := mem_seq_iff.mp h₁
  obtain ⟨c, hc, _, h₃, rfl⟩ := mem_seq_iff.mp h₂
  obtain ⟨v, hv, rfl⟩ := mem_group_iff.mp h₃
  obtain ⟨-, -, hag⟩ := mem_many_iff.mp ha
  obtain ⟨-, -, hbg⟩ := mem_lit_iff.mp hb
  obtain ⟨-, -, -, -, hcg⟩ := mem_char_iff.mp hc
  obtain ⟨hne, -, hword, -⟩ := mem_many1_iff.mp hv
  obtain rfl : v.matched = var := by
    simpa [Hit.append, hag, hbg, hcg] using congrArg Prod.fst heq
  exact unbraced_lit hne (braces_eq_nil_iff.mpr fun c hc => not_isBrace_of_isWord (hword c hc))

theorem keeps_blockHead (t : Text) : Keeps t (blockHead t) := by
  rw [blockHead]
  split
  · exact ((keeps_substText t (by decide) rfl rfl).trans
      (keeps_substText _ (by decide) rfl rfl)).trans (keeps_closeParen _)
  split
  next var group hfor =>
    have hvar := unbraced_forVar hfor
    have hbraces : Osh.braces var = [] := (hvar var ⟨var, [], []⟩
      (by simpa using mem_lit var [])).2
    have hauto : Osh.braces ("auto ".toList ++ var) = [] := by
      rw [braces_append, hbraces]
      rfl
    exact (((keeps_substText t (by decide) rfl rfl).trans (keeps_closeParen _)).trans
      (keeps_substText _ (by decide) rfl rfl)).trans (hvar.keeps hauto _)
  next =>
    split
    · exact (keeps_substText t (by decide) rfl rfl).trans (keeps_closeParen _)
    split
    · exact keeps_substText t (by decide) rfl rfl
    · exact .refl t

/-- A comment keeps its braces. -/
theorem braces_comment (t : Text) : braces (Emission.comment t) = braces t := by
  rw [Emission.comment]
  split
  next h hmatch =>
    obtain ⟨a, ha, b, hb, rfl⟩ := mem_seq_iff.mp (mem_of_matchStart hmatch)
    obtain ⟨hat, hspaces, -⟩ := mem_many_iff.mp ha
    obtain ⟨hbt, -, -⟩ := mem_lit_iff.mp hb
    rw [hat, hbt]
    simp only [Hit.append, braces_append, braces_spaces hspaces]
    rfl
  next => rfl

end

end Osh.Py2Cpp
