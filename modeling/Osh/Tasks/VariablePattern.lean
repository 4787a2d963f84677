import Osh.Tasks.Input
import Osh.Tasks.Source

/-!
# The variable on a line

What the pattern `^.+\s+(\w+\[?\w*\]?)\s*;` captures, said without it. The search goes from the
end of the line backwards, since `.+` takes as much as it can: what is captured is the last
text between white space and a semicolon that reads like a name, with an opening bracket, a
word and a closing bracket behind it or only some of these. So `int a[N + 1];` makes the
variable `1]`, and `int a [4];` none.

## Main definitions

* `isVariable`: a name, perhaps with a bracket, a word and a bracket.
* `keyOf`: the variable on a line.

## Main results

* `captures_varPattern`: it is what the pattern captures.
* `keyOf_append`: the variable before the only semicolon of a line.
-/
namespace Osh.Tasks
open Regex

/-- White space, of which a newline may be part. -/
def Spaces (t : Text) : Prop := ∀ x ∈ t, isSpace x = true

instance : DecidablePred Spaces := fun t =>
  decidable_of_iff (t.all isSpace = true) List.all_eq_true

/-! ## The variable -/

/-- A closing bracket, or nothing. -/
def isClosing (t : Text) : Bool := t.isEmpty || t == [']']

/-- A word, and then perhaps a bracket, a word and a bracket. -/
def isVariable (v : Text) : Bool :=
  let rest := v.dropWhile isWord
  v.head?.any isWord &&
    (isClosing rest || rest.head? = some '[' && isClosing (rest.tail.dropWhile isWord))

/-- The variable at the start of a text, if white space and a semicolon are behind it. -/
def variableAt (t : Text) : Option Text :=
  let v := t.takeWhile fun c => !isSpace c && c != ';'
  let rest := t.dropWhile fun c => !isSpace c && c != ';'
  if isVariable v ∧ (rest.dropWhile isSpace).head? = some ';' then some v else none

/-- The last variable that stands between white space and a semicolon. -/
def lastVariable : Text → Option Text
  | [] => none
  | c :: t => (lastVariable t).or (if isSpace c then variableAt t else none)

/-- The variable on a line. Something must stand before the white space. -/
def keyOf (line : Text) : Option Text := lastVariable line.tail

example : keyOf "    int a[4];\n".toList = some "a[4]".toList := by decide +kernel

example : keyOf "    int a[N + 1];\n".toList = some "1]".toList := by decide +kernel

example : keyOf "    int a [4];\n".toList = none := by decide +kernel

/-! ## The parts of the pattern -/

/-- `\w+\[?\w*\]?` -/
def variablePattern : Regex :=
  seq (many1 isWord) (seq (opt (lit "[".toList)) (seq (many isWord) (opt (lit "]".toList))))

/-- `(\w+\[?\w*\]?)\s*;` -/
def endPattern : Regex := seq (group variablePattern) (seq (many isSpace) (lit ";".toList))

/-- `\s+(\w+\[?\w*\]?)\s*;` -/
def gapPattern : Regex := seq (many1 isSpace) endPattern

theorem varPattern_eq : varPattern = seq (many1 isDot) gapPattern := rfl

variable {t v w gap line : Text} {h : Hit} {c : Char}

theorem isClosing_iff : isClosing t = true ↔ t = [] ∨ t = [']'] := by simp [isClosing]

theorem isVariable_iff : isVariable v = true ↔ ∃ name opening size closing : Text,
    IsName name ∧ (opening = [] ∨ opening = ['[']) ∧ (∀ x ∈ size, isWord x = true) ∧
      (closing = [] ∨ closing = [']']) ∧ v = name ++ (opening ++ (size ++ closing)) := by
  constructor
  · intro h
    obtain ⟨hhead, hrest⟩ := Bool.and_eq_true_iff.mp h
    have hname : IsName (v.takeWhile isWord) := by
      refine ⟨fun hnil => ?_, fun x hx => List.mem_takeWhile_imp hx⟩
      cases v with
      | nil => cases hhead
      | cons c v =>
          have hc : isWord c = true := hhead
          simp [hc] at hnil
    have hv : v = v.takeWhile isWord ++ v.dropWhile isWord := List.takeWhile_append_dropWhile.symm
    rcases Bool.or_eq_true_iff.mp hrest with hrest | hrest
    · exact ⟨_, [], [], v.dropWhile isWord, hname, .inl rfl,
        fun x hx => absurd hx List.not_mem_nil, isClosing_iff.mp hrest, hv⟩
    · obtain ⟨hbracket, hrest⟩ := Bool.and_eq_true_iff.mp hrest
      obtain ⟨size, hsize⟩ := List.head?_eq_some_iff.mp (of_decide_eq_true hbracket)
      rw [hsize] at hv hrest
      refine ⟨_, ['['], size.takeWhile isWord, size.dropWhile isWord, hname, .inr rfl,
        fun x hx => List.mem_takeWhile_imp hx, isClosing_iff.mp hrest, ?_⟩
      rw [List.takeWhile_append_dropWhile]
      exact hv
  · rintro ⟨name, opening, size, closing, hname, hopening, hsize, hclosing, rfl⟩
    have hend : closing.head?.any isWord = false := by
      rcases hclosing with rfl | rfl <;> rfl
    obtain ⟨c, cs, rfl⟩ := List.exists_cons_of_ne_nil hname.1
    refine Bool.and_eq_true_iff.mpr ⟨hname.2 c (List.mem_cons_self ..), ?_⟩
    rcases hopening with rfl | rfl
    · have hall : ∀ x ∈ (c :: cs) ++ size, isWord x = true := by
        intro x hx
        exact (List.mem_append.mp hx).elim (hname.2 x) (hsize x)
      rw [List.nil_append, ← List.append_assoc, dropWhile_append_of_all hall hend]
      exact Bool.or_eq_true_iff.mpr (.inl (isClosing_iff.mpr hclosing))
    · have hends : isClosing ((size ++ closing).dropWhile isWord) = true := by
        rw [dropWhile_append_of_all hsize hend]
        exact isClosing_iff.mpr hclosing
      rw [dropWhile_append_of_all hname.2 rfl]
      exact Bool.or_eq_true_iff.mpr (.inr (Bool.and_eq_true_iff.mpr ⟨rfl, hends⟩))

/-- A variable has no white space and no semicolon in it. -/
theorem of_isVariable (hv : isVariable v = true) :
    ∀ x ∈ v, (!isSpace x && x != ';') = true := by
  obtain ⟨name, opening, size, closing, hname, hopening, hsize, hclosing, rfl⟩ :=
    isVariable_iff.mp hv
  have hword : ∀ x, isWord x = true → (!isSpace x && x != ';') = true := by
    intro x hx
    have hne : x ≠ ';' := by
      rintro rfl
      exact absurd hx (by decide)
    simp [not_isSpace_of_isWord hx, hne]
  simp only [List.mem_append]
  rintro x (hx | hx | hx | hx)
  · exact hword x (hname.2 x hx)
  · rcases hopening with rfl | rfl
    · exact absurd hx List.not_mem_nil
    · obtain rfl := List.mem_singleton.mp hx
      decide
  · exact hword x (hsize x hx)
  · rcases hclosing with rfl | rfl
    · exact absurd hx List.not_mem_nil
    · obtain rfl := List.mem_singleton.mp hx
      decide

theorem mem_variablePattern_iff : h ∈ variablePattern t ↔
    isVariable h.matched = true ∧ t = h.matched ++ h.rest ∧ h.groups = [] := by
  constructor
  · intro hmem
    obtain ⟨a, ha, _, h₁, rfl⟩ := mem_seq_iff.mp hmem
    obtain ⟨b, hb, _, h₂, rfl⟩ := mem_seq_iff.mp h₁
    obtain ⟨c, hc, d, hd, rfl⟩ := mem_seq_iff.mp h₂
    obtain ⟨hane, hat, ha, hag⟩ := mem_many1_iff.mp ha
    obtain ⟨hb, hbt, hbg⟩ := mem_opt_lit_iff.mp hb
    obtain ⟨hct, hc, hcg⟩ := mem_many_iff.mp hc
    obtain ⟨hd, hdt, hdg⟩ := mem_opt_lit_iff.mp hd
    refine ⟨isVariable_iff.mpr ⟨_, _, _, _, ⟨hane, ha⟩, hb, hc, hd, rfl⟩, ?_, ?_⟩
    · rw [hat, hbt, hct, hdt]
      simp [Hit.append]
    · simp [Hit.append, hag, hbg, hcg, hdg]
  · obtain ⟨matched, groups, rest⟩ := h
    rintro ⟨hvar, rfl, rfl⟩
    obtain ⟨name, opening, size, closing, hname, hopening, hsize, hclosing, rfl⟩ :=
      isVariable_iff.mp hvar
    have htext : (name ++ (opening ++ (size ++ closing))) ++ rest =
        name ++ (opening ++ (size ++ (closing ++ rest))) := by simp
    dsimp only
    rw [htext]
    exact mem_seq_iff.mpr ⟨_, mem_many1 hname.1 hname.2, _, mem_seq_iff.mpr
      ⟨⟨opening, [], size ++ (closing ++ rest)⟩, mem_opt_lit_iff.mpr ⟨hopening, rfl, rfl⟩, _,
        mem_seq_iff.mpr ⟨_, mem_many hsize, ⟨closing, [], rest⟩,
          mem_opt_lit_iff.mpr ⟨hclosing, rfl, rfl⟩, rfl⟩, rfl⟩, rfl⟩

theorem mem_endPattern_iff : h ∈ endPattern t ↔ ∃ v gap : Text, isVariable v = true ∧ Spaces gap ∧
    t = v ++ (gap ++ ';' :: h.rest) ∧ h.matched = v ++ (gap ++ [';']) ∧ h.groups = [v] := by
  constructor
  · intro hmem
    obtain ⟨_, hg, _, h₁, rfl⟩ := mem_seq_iff.mp hmem
    obtain ⟨v, hv, rfl⟩ := mem_group_iff.mp hg
    obtain ⟨a, ha, b, hb, rfl⟩ := mem_seq_iff.mp h₁
    obtain ⟨hvar, ht, hvg⟩ := mem_variablePattern_iff.mp hv
    obtain ⟨hat, ha, hag⟩ := mem_many_iff.mp ha
    obtain ⟨hbt, hb, hbg⟩ := mem_lit_iff.mp hb
    refine ⟨v.matched, a.matched, hvar, ha, ?_, ?_, ?_⟩
    · rw [ht, hat, hbt]
      rfl
    · rw [Hit.append, Hit.append, hb]
      rfl
    · simp [Hit.append, hvg, hag, hbg]
  · obtain ⟨matched, groups, rest⟩ := h
    rintro ⟨v, gap, hvar, hgap, rfl, rfl, rfl⟩
    have hv : (⟨v, [], gap ++ ';' :: rest⟩ : Hit) ∈
        variablePattern (v ++ (gap ++ ';' :: rest)) :=
      mem_variablePattern_iff.mpr ⟨hvar, rfl, rfl⟩
    exact mem_seq_iff.mpr ⟨_, mem_group_iff.mpr ⟨_, hv, rfl⟩, _,
      mem_seq_iff.mpr ⟨_, mem_many hgap, _, mem_lit ";".toList rest, rfl⟩, rfl⟩

/-! ## What is captured -/

theorem variableAt_eq_some_iff : variableAt t = some v ↔
    isVariable v = true ∧ ∃ gap rest : Text, Spaces gap ∧ t = v ++ (gap ++ ';' :: rest) := by
  constructor
  · intro h
    obtain ⟨⟨hvar, hsemi⟩, hv⟩ := Option.ite_none_right_eq_some.mp h
    obtain rfl := Option.some.inj hv
    obtain ⟨rest, hrest⟩ := List.head?_eq_some_iff.mp hsemi
    refine ⟨hvar, (t.dropWhile fun c => !isSpace c && c != ';').takeWhile isSpace, rest,
      fun x hx => List.mem_takeWhile_imp hx, ?_⟩
    rw [← hrest, List.takeWhile_append_dropWhile, List.takeWhile_append_dropWhile]
  · rintro ⟨hvar, gap, rest, hgap, rfl⟩
    have hend : (gap ++ ';' :: rest).head?.any (fun c => !isSpace c && c != ';') = false := by
      cases gap with
      | nil => rfl
      | cons c gap => simp [hgap c (List.mem_cons_self ..)]
    have hsemi : (gap ++ ';' :: rest).dropWhile isSpace = ';' :: rest :=
      dropWhile_append_of_all hgap rfl
    unfold variableAt
    dsimp only
    rw [takeWhile_append_of_all (of_isVariable hvar) hend,
      dropWhile_append_of_all (of_isVariable hvar) hend, hsemi]
    exact if_pos ⟨hvar, rfl⟩

theorem captures_endPattern (t : Text) :
    captures endPattern t = (variableAt t).map fun v => [v] := by
  cases hv : variableAt t with
  | none =>
      refine captures_eq_none_iff.mpr (List.eq_nil_iff_forall_not_mem.mpr fun h hmem => ?_)
      obtain ⟨v, gap, hvar, hgap, ht, -, -⟩ := mem_endPattern_iff.mp hmem
      have hsome := variableAt_eq_some_iff.mpr ⟨hvar, gap, h.rest, hgap, ht⟩
      rw [hv] at hsome
      cases hsome
  | some v =>
      obtain ⟨hvar, gap, rest, hgap, rfl⟩ := variableAt_eq_some_iff.mp hv
      have hmem : (⟨v ++ (gap ++ [';']), [v], rest⟩ : Hit) ∈
          endPattern (v ++ (gap ++ ';' :: rest)) :=
        mem_endPattern_iff.mpr ⟨v, gap, hvar, hgap, rfl, rfl, rfl⟩
      obtain ⟨k, hk, hhead⟩ := exists_head?_of_ne_nil (List.ne_nil_of_mem hmem)
      -- whatever is preferred captures the same
      obtain ⟨u, gap', hu, hgap', heq, -, hgroups⟩ := mem_endPattern_iff.mp hk
      have hvu := variableAt_eq_some_iff.mpr ⟨hu, gap', k.rest, hgap', heq⟩
      rw [hv] at hvu
      obtain rfl := Option.some.inj hvu
      rw [captures, matchStart, hhead, Option.map_some, Option.map_some, hgroups]

/-- Where no variable stands behind it, white space is directly in front of the variable. -/
theorem captures_gapPattern (ht : captures gapPattern t = none) :
    captures gapPattern (c :: t) =
      (if isSpace c then variableAt t else none).map fun v => [v] := by
  by_cases hc : isSpace c = true
  · have hspaces : captures (seq (many isSpace) endPattern) t = captures endPattern t := by
      cases t with
      | nil => rw [captures, matchStart, seq_many_of_not rfl, captures, matchStart]
      | cons d t =>
          by_cases hd : isSpace d = true
          · rw [gapPattern, captures_seq_many1_cons hd] at ht
            rw [captures_seq_many_cons hd, ht, Option.none_or]
          · have hhead : (d :: t).head?.any isSpace = false := Bool.eq_false_iff.mpr hd
            rw [captures, matchStart, seq_many_of_not hhead, captures, matchStart]
    rw [gapPattern, captures_seq_many1_cons hc, hspaces, captures_endPattern, if_pos hc]
  · have hhead : (c :: t).head?.any isSpace = false := Bool.eq_false_iff.mpr hc
    rw [gapPattern, captures_seq_many1_of_not hhead, if_neg hc]
    rfl

/-- In a text of one line a newline is the last character. -/
theorem isDot_of_notMem (ht : '\n' ∉ (c :: t).dropLast) (hne : t ≠ []) :
    isDot c = true ∧ '\n' ∉ t.dropLast := by
  rw [List.dropLast_cons_of_ne_nil hne, List.mem_cons, not_or] at ht
  exact ⟨by simpa [isDot] using Ne.symm ht.1, ht.2⟩

theorem captures_lastVariable (ht : '\n' ∉ t.dropLast) :
    captures (seq (many isDot) gapPattern) t = (lastVariable t).map fun v => [v] := by
  induction t with
  | nil =>
      rw [captures, matchStart, seq_many_of_not rfl]
      rfl
  | cons c t ih =>
      by_cases hnil : t = []
      · subst hnil
        have hgap : captures gapPattern [c] = none := by
          rw [captures_gapPattern rfl]
          split <;> rfl
        have hlast : lastVariable [c] = none := by
          rw [lastVariable]
          split <;> rfl
        rw [hlast]
        by_cases hc : isDot c = true
        · rw [captures_seq_many_cons hc, ih List.not_mem_nil, hgap]
          rfl
        · have hhead : [c].head?.any isDot = false := Bool.eq_false_iff.mpr hc
          rwa [captures, matchStart, seq_many_of_not hhead]
      · obtain ⟨hc, hrest⟩ := isDot_of_notMem ht hnil
        rw [captures_seq_many_cons hc, lastVariable, ih hrest]
        cases hlast : lastVariable t with
        | some v => rfl
        | none =>
            have hbehind : captures gapPattern t = none := by
              have hnone := ih hrest
              rw [hlast] at hnone
              obtain ⟨d, t, rfl⟩ := List.exists_cons_of_ne_nil hnil
              by_cases hd : isDot d = true
              · rw [captures_seq_many_cons hd] at hnone
                exact (Option.or_eq_none_iff.mp hnone).2
              · have hhead : (d :: t).head?.any isDot = false := Bool.eq_false_iff.mpr hd
                rwa [captures, matchStart, seq_many_of_not hhead] at hnone
            rw [captures_gapPattern hbehind]
            rfl

/-- **What the pattern for the variable captures on a line.** -/
theorem captures_varPattern (hline : '\n' ∉ line.dropLast) :
    captures varPattern line = (keyOf line).map fun v => [v] := by
  rw [varPattern_eq]
  cases line with
  | nil => rfl
  | cons c t =>
      by_cases hnil : t = []
      · subst hnil
        by_cases hc : isDot c = true
        · exact (captures_seq_many1_cons hc ..).trans (captures_lastVariable List.not_mem_nil)
        · have hhead : [c].head?.any isDot = false := Bool.eq_false_iff.mpr hc
          exact captures_seq_many1_of_not hhead _
      · obtain ⟨hc, hrest⟩ := isDot_of_notMem hline hnil
        exact (captures_seq_many1_cons hc ..).trans (captures_lastVariable hrest)

/-! ## Lines with one variable -/

theorem variableAt_eq_none (ht : t.head?.any isWord = false) : variableAt t = none := by
  refine Option.eq_none_iff_forall_ne_some.mpr fun v hv => ?_
  obtain ⟨hvar, gap, rest, -, rfl⟩ := variableAt_eq_some_iff.mp hv
  obtain ⟨name, opening, size, closing, hname, -, -, -, rfl⟩ := isVariable_iff.mp hvar
  obtain ⟨c, cs, rfl⟩ := List.exists_cons_of_ne_nil hname.1
  have hc : isWord c = false := ht
  exact absurd (hname.2 c (List.mem_cons_self ..)) (Bool.eq_false_iff.mp hc)

theorem lastVariable_append_of_not (hw : ∀ x ∈ w, isSpace x = false) (t : Text) :
    lastVariable (w ++ t) = lastVariable t := by
  induction w with
  | nil => rfl
  | cons c w ih =>
      have hc : isSpace c = false := hw c (List.mem_cons_self ..)
      rw [List.cons_append, lastVariable, ih fun x hx => hw x (List.mem_cons_of_mem c hx), hc]
      exact Option.or_none

/-- White space with no word behind it. -/
theorem lastVariable_spaces (hgap : Spaces gap) (ht : t.head?.any isWord = false) :
    lastVariable (gap ++ t) = lastVariable t := by
  induction gap with
  | nil => rfl
  | cons c gap ih =>
      have hgap' : Spaces gap := fun x hx => hgap x (List.mem_cons_of_mem c hx)
      have hhead : (gap ++ t).head?.any isWord = false := by
        cases gap with
        | nil => exact ht
        | cons d gap => exact not_isWord_of_isSpace (hgap' d (List.mem_cons_self ..))
      rw [List.cons_append, lastVariable, ih hgap', variableAt_eq_none hhead, ite_self,
        Option.or_none]

theorem lastVariable_append (w : Text) (ht : lastVariable t = some v) :
    lastVariable (w ++ t) = some v := by
  induction w with
  | nil => exact ht
  | cons c w ih =>
      rw [List.cons_append, lastVariable, ih]
      rfl

/-- Between white space and the semicolon stands a variable, and nothing behind that. -/
theorem keyOf_append {front gap' trailing : Text} (hfront : front ≠ []) (hne : gap ≠ [])
    (hgap : Spaces gap) (hv : isVariable v = true) (hgap' : Spaces gap')
    (htrailing : Spaces trailing) :
    keyOf (front ++ (gap ++ (v ++ (gap' ++ ';' :: trailing)))) = some v := by
  have htrail : lastVariable trailing = none := by
    have hnil := lastVariable_spaces (t := []) htrailing rfl
    rwa [List.append_nil] at hnil
  have hnone : lastVariable (v ++ (gap' ++ ';' :: trailing)) = none := by
    have hspaces : ∀ x ∈ v, isSpace x = false := by
      intro x hx
      simpa using (Bool.and_eq_true_iff.mp (of_isVariable hv x hx)).1
    rw [lastVariable_append_of_not hspaces, lastVariable_spaces hgap' rfl, lastVariable, htrail]
    rfl
  have hat : variableAt (v ++ (gap' ++ ';' :: trailing)) = some v :=
    variableAt_eq_some_iff.mpr ⟨hv, gap', trailing, hgap', rfl⟩
  have hlast : lastVariable (gap ++ (v ++ (gap' ++ ';' :: trailing))) = some v := by
    have hlast : isSpace (gap.getLast hne) = true := hgap _ (List.getLast_mem hne)
    rw [← List.dropLast_append_getLast hne, List.append_assoc]
    refine lastVariable_append _ ?_
    rw [List.singleton_append, lastVariable, hnone, if_pos hlast, hat]
    rfl
  obtain ⟨c, cs, rfl⟩ := List.exists_cons_of_ne_nil hfront
  exact lastVariable_append cs hlast

end Osh.Tasks
