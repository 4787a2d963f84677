import Mathlib.Data.List.TakeWhile
import Mathlib.Data.List.Infix
import Osh.Lib.Lists

/-!
# Backtracking patterns

A pattern is the function that lists all the ways in which it matches at the start of a
text, in the order in which a backtracking matcher tries them; the match is the first
of these. Repetition is of single characters, as much as the scripts modelled here use.

## Main definitions

* `Hit`: one way to match, with the text matched, the groups captured and the rest.
* `Regex`: a pattern; `char`, `lit`, `many`, `many1`, `seq`, `group`, `endOfText` build them.
* `matchStart`, `search`, `subst`: a match at the start, the leftmost match, and its
  replacement.
* `captures`: what the match at the start captures.
* `isWord`, `isSpace`: the character classes, on texts of bytes read as Latin-1.
-/
namespace Osh

/-- A text is the list of its characters. -/
abbrev Text := List Char

/-- One way in which a pattern matches at the start of a text. -/
structure Hit where
  matched : Text
  groups : List Text
  rest : Text
deriving DecidableEq, Repr

/-- A match followed by a match of the rest. -/
def Hit.append (h k : Hit) : Hit := ⟨h.matched ++ k.matched, h.groups ++ k.groups, k.rest⟩

/-- All the ways to match at the start of a text, the preferred one first. -/
abbrev Regex := Text → List Hit

namespace Regex
variable {p : Char → Bool} {r q : Regex} {h : Hit} {t w xs rest : Text} {c : Char}

/-! ## Patterns -/

/-- One character of a class. -/
def char (p : Char → Bool) : Regex
  | [] => []
  | c :: cs => if p c then [⟨[c], [], cs⟩] else []

/-- The given text. -/
def lit (w : Text) : Regex := fun t =>
  if w.isPrefixOf t then [⟨w, [], t.drop w.length⟩] else []

/-- Any number of characters of a class, as many as possible first. -/
def many (p : Char → Bool) : Regex
  | [] => [⟨[], [], []⟩]
  | c :: cs =>
      if p c then
        (many p cs).map (fun h => { h with matched := c :: h.matched }) ++ [⟨[], [], c :: cs⟩]
      else [⟨[], [], c :: cs⟩]

/-- One pattern after the other. -/
def seq (r q : Regex) : Regex := fun t => (r t).flatMap fun h => (q h.rest).map h.append

/-- At least one character of a class, as many as possible first. -/
def many1 (p : Char → Bool) : Regex := seq (char p) (many p)

/-- At least one character of a class, as few as possible first. -/
def many1Lazy (p : Char → Bool) : Regex := fun t => (many1 p t).reverse

/-- One pattern or the other. -/
def alt (r q : Regex) : Regex := fun t => r t ++ q t

/-- The pattern or nothing. -/
def opt (r : Regex) : Regex := alt r (lit [])

/-- A pattern whose match is captured. -/
def group (r : Regex) : Regex := fun t =>
  (r t).map fun h => { h with groups := h.matched :: h.groups }

/-- The end of the text, or the place before a final newline. -/
def endOfText : Regex := fun t => if t = [] ∨ t = ['\n'] then [⟨[], [], t⟩] else []

/-- The match at the start of the text. -/
def matchStart (r : Regex) (t : Text) : Option Hit := (r t).head?

/-- What the match at the start of the text captures. -/
def captures (r : Regex) (t : Text) : Option (List Text) := (matchStart r t).map Hit.groups

/-- The leftmost match, with the text before it. -/
def search (r : Regex) : Text → Option (Text × Hit)
  | [] => (r []).head?.map fun h => ([], h)
  | c :: cs =>
      match (r (c :: cs)).head? with
      | some h => some ([], h)
      | none => (search r cs).map fun (before, h) => (c :: before, h)

/-- The text with the leftmost match replaced. -/
def subst (r : Regex) (f : Hit → Text) (t : Text) : Text :=
  match search r t with
  | none => t
  | some (before, h) => before ++ f h ++ h.rest

/-! ## Character classes -/

/-- `\w`. -/
def isWord (c : Char) : Bool :=
  c.isAlphanum || c == '_' || c.val == 0xAA || c.val == 0xB5 || c.val == 0xBA ||
    (0xC0 ≤ c.val && c.val ≤ 0xFF && c.val != 0xD7 && c.val != 0xF7)

/-- `\s`. -/
def isSpace (c : Char) : Bool :=
  [' ', '\t', '\n', '\x0B', '\x0C', '\r', '\x85', '\xA0'].contains c

/-- `.` -/
def isDot (c : Char) : Bool := c != '\n'

theorem not_isWord_of_isSpace (h : isSpace c = true) : isWord c = false := by
  simp only [isSpace, List.contains_eq_mem, List.mem_cons, List.not_mem_nil, or_false,
    decide_eq_true_eq] at h
  rcases h with rfl | rfl | rfl | rfl | rfl | rfl | rfl | rfl <;> decide

theorem not_isSpace_of_isWord (hc : isWord c = true) : isSpace c = false := by
  cases hs : isSpace c with
  | false => rfl
  | true =>
      rw [not_isWord_of_isSpace hs] at hc
      cases hc

/-- There is no white space where a word begins. -/
theorem head?_any_isSpace (hne : xs ≠ []) (hxs : ∀ x ∈ xs, isWord x = true) :
    (xs ++ rest).head?.any isSpace = false := by
  obtain ⟨c, cs, rfl⟩ := List.exists_cons_of_ne_nil hne
  exact not_isSpace_of_isWord (hxs c (List.mem_cons_self ..))

/-! ## What the patterns match -/

theorem lit_append (w rest : Text) : lit w (w ++ rest) = [⟨w, [], rest⟩] := by
  simp [lit]

theorem mem_lit (w rest : Text) : ⟨w, [], rest⟩ ∈ lit w (w ++ rest) := by
  rw [lit_append]
  exact List.mem_singleton_self _

theorem lit_eq_nil_iff : lit w t = [] ↔ ¬ w <+: t := by
  simp [lit]

theorem seq_eq_nil_iff : seq r q t = [] ↔ ∀ h ∈ r t, q h.rest = [] := by
  simp [seq]

theorem seq_ne_nil (hmem : h ∈ r t) (hq : q h.rest ≠ []) : seq r q t ≠ [] := by
  intro hnil
  exact hq (seq_eq_nil_iff.mp hnil h hmem)

/-- If what the first pattern prefers can be continued, that is the match. -/
theorem head?_seq {k : Hit} (hr : (r t).head? = some h) (hq : (q h.rest).head? = some k) :
    (seq r q t).head? = some (h.append k) := by
  obtain ⟨hs, hrt⟩ := List.head?_eq_some_iff.mp hr
  obtain ⟨ks, hqt⟩ := List.head?_eq_some_iff.mp hq
  simp [seq, hrt, hqt]

theorem head?_lit (w rest : Text) : (lit w (w ++ rest)).head? = some ⟨w, [], rest⟩ := by
  rw [lit_append, List.head?_cons]

/-- Repetition takes all it can, first. -/
theorem head?_many (hxs : ∀ x ∈ xs, p x = true) (hrest : rest.head?.any p = false) :
    (many p (xs ++ rest)).head? = some ⟨xs, [], rest⟩ := by
  induction xs with
  | nil =>
      cases rest with
      | nil => rfl
      | cons c cs =>
          have hc : p c = false := hrest
          simp [many, hc]
  | cons x xs ih =>
      have hx : p x = true := hxs x (List.mem_cons_self ..)
      have hmany := ih fun y hy => hxs y (List.mem_cons_of_mem x hy)
      simp [many, hx, hmany]

theorem head?_many1 (hne : xs ≠ []) (hxs : ∀ x ∈ xs, p x = true)
    (hrest : rest.head?.any p = false) :
    (many1 p (xs ++ rest)).head? = some ⟨xs, [], rest⟩ := by
  cases xs with
  | nil => exact absurd rfl hne
  | cons x xs =>
      have hx : p x = true := hxs x (List.mem_cons_self ..)
      have hchar : (char p (x :: (xs ++ rest))).head? = some ⟨[x], [], xs ++ rest⟩ := by
        simp [char, hx]
      exact head?_seq hchar (head?_many (fun y hy => hxs y (List.mem_cons_of_mem x hy)) hrest)

theorem head?_group (hr : (r t).head? = some h) :
    (group r t).head? = some { h with groups := h.matched :: h.groups } := by
  simp [group, hr]

/-- Repetition may take any characters of the class there are. -/
theorem mem_many (hxs : ∀ x ∈ xs, p x = true) : ⟨xs, [], rest⟩ ∈ many p (xs ++ rest) := by
  induction xs with
  | nil =>
      cases rest with
      | nil => simp [many]
      | cons c cs => by_cases hc : p c = true <;> simp [many, hc]
  | cons x xs ih =>
      have hx : p x = true := hxs x (List.mem_cons_self ..)
      have hmem := ih fun y hy => hxs y (List.mem_cons_of_mem x hy)
      simp only [List.cons_append, many, hx, if_true, List.mem_append, List.mem_map]
      exact .inl ⟨_, hmem, rfl⟩

theorem mem_many1 (hne : xs ≠ []) (hxs : ∀ x ∈ xs, p x = true) :
    ⟨xs, [], rest⟩ ∈ many1 p (xs ++ rest) := by
  cases xs with
  | nil => exact absurd rfl hne
  | cons x xs =>
      have hx : p x = true := hxs x (List.mem_cons_self ..)
      have hmem : ⟨xs, [], rest⟩ ∈ many p (xs ++ rest) :=
        mem_many fun y hy => hxs y (List.mem_cons_of_mem x hy)
      simp only [many1, seq, List.cons_append, char, hx, if_true, List.flatMap_cons,
        List.flatMap_nil, List.append_nil, List.mem_map]
      exact ⟨_, hmem, rfl⟩

theorem many1_eq_nil_iff : many1 p t = [] ↔ t.head?.any p = false := by
  cases t with
  | nil => simp [many1, seq, char]
  | cons c cs =>
      have hmem : ⟨[], [], cs⟩ ∈ many p cs :=
        mem_many (p := p) fun x hx => absurd hx List.not_mem_nil
      by_cases hc : p c = true
      · simp [many1, seq, char, hc, List.ne_nil_of_mem hmem]
      · simp [many1, seq, char, hc]

theorem group_eq_nil_iff : group r t = [] ↔ r t = [] := List.map_eq_nil_iff

theorem mem_many1Lazy (hne : xs ≠ []) (hxs : ∀ x ∈ xs, p x = true) :
    ⟨xs, [], rest⟩ ∈ many1Lazy p (xs ++ rest) :=
  List.mem_reverse.mpr (mem_many1 hne hxs)

theorem rest_of_mem_group (hmem : h ∈ group r t) : ∃ k ∈ r t, k.rest = h.rest := by
  obtain ⟨k, hk, rfl⟩ := List.mem_map.mp hmem
  exact ⟨k, hk, rfl⟩

/-! ## All the ways to match -/

theorem mem_char_iff :
    h ∈ char p t ↔ ∃ c, p c = true ∧ t = c :: h.rest ∧ h.matched = [c] ∧ h.groups = [] := by
  obtain ⟨matched, groups, rest⟩ := h
  cases t with
  | nil => simp [char]
  | cons x cs =>
      by_cases hx : p x = true
      · simp only [char, hx, if_true, List.mem_singleton, Hit.mk.injEq, List.cons.injEq]
        constructor
        · rintro ⟨rfl, rfl, rfl⟩
          exact ⟨x, hx, ⟨rfl, rfl⟩, rfl, rfl⟩
        · rintro ⟨c, -, ⟨rfl, rfl⟩, rfl, rfl⟩
          exact ⟨rfl, rfl, rfl⟩
      · simp only [char, hx, Bool.false_eq_true, if_false, List.not_mem_nil, false_iff]
        rintro ⟨c, hc, ht, -⟩
        exact hx ((List.cons.inj ht).1 ▸ hc)

theorem mem_lit_iff : h ∈ lit w t ↔ t = w ++ h.rest ∧ h.matched = w ∧ h.groups = [] := by
  obtain ⟨matched, groups, rest⟩ := h
  constructor
  · intro hmem
    by_cases hw : w <+: t
    · obtain ⟨u, rfl⟩ := hw
      rw [lit_append, List.mem_singleton] at hmem
      cases hmem
      exact ⟨rfl, rfl, rfl⟩
    · rw [lit_eq_nil_iff.mpr hw] at hmem
      exact absurd hmem List.not_mem_nil
  · rintro ⟨rfl, rfl, rfl⟩
    exact mem_lit ..

theorem mem_many_iff :
    h ∈ many p t ↔ t = h.matched ++ h.rest ∧ (∀ x ∈ h.matched, p x = true) ∧ h.groups = [] := by
  constructor
  · intro hmem
    induction t generalizing h with
    | nil =>
        obtain rfl := List.mem_singleton.mp hmem
        exact ⟨rfl, fun x hx => absurd hx List.not_mem_nil, rfl⟩
    | cons c cs ih =>
        rw [many] at hmem
        split at hmem
        next hc =>
          rcases List.mem_append.mp hmem with hmem | hmem
          · obtain ⟨k, hk, rfl⟩ := List.mem_map.mp hmem
            obtain ⟨hcs, hall, hgroups⟩ := ih hk
            exact ⟨congrArg (c :: ·) hcs, List.forall_mem_cons.mpr ⟨hc, hall⟩, hgroups⟩
          · obtain rfl := List.mem_singleton.mp hmem
            exact ⟨rfl, fun x hx => absurd hx List.not_mem_nil, rfl⟩
        next =>
          obtain rfl := List.mem_singleton.mp hmem
          exact ⟨rfl, fun x hx => absurd hx List.not_mem_nil, rfl⟩
  · obtain ⟨matched, groups, rest⟩ := h
    rintro ⟨rfl, hall, rfl⟩
    exact mem_many hall

theorem mem_seq_iff : h ∈ seq r q t ↔ ∃ a ∈ r t, ∃ b ∈ q a.rest, a.append b = h := by
  simp [seq]

theorem mem_many1_iff : h ∈ many1 p t ↔ h.matched ≠ [] ∧ t = h.matched ++ h.rest ∧
    (∀ x ∈ h.matched, p x = true) ∧ h.groups = [] := by
  constructor
  · intro hmem
    obtain ⟨a, ha, b, hb, rfl⟩ := mem_seq_iff.mp hmem
    obtain ⟨c, hc, ht, hmatched, hgroups⟩ := mem_char_iff.mp ha
    obtain ⟨hrest, hall, hgroups'⟩ := mem_many_iff.mp hb
    refine ⟨by simp [Hit.append, hmatched], ?_, ?_, by simp [Hit.append, hgroups, hgroups']⟩
    · simp [Hit.append, hmatched, ht, hrest]
    · rw [Hit.append, hmatched]
      exact List.forall_mem_cons.mpr ⟨hc, hall⟩
  · obtain ⟨matched, groups, rest⟩ := h
    rintro ⟨hne, rfl, hall, rfl⟩
    exact mem_many1 hne hall

/-- After characters of a class there is another, or all of them are taken. -/
theorem rest_of_append (hxs : ∀ x ∈ xs, p x = true) :
    rest = (xs ++ rest).dropWhile p ∨ ∃ c cs, rest = c :: cs ∧ p c = true := by
  cases rest with
  | nil => exact .inl (dropWhile_append_of_all hxs rfl).symm
  | cons c cs =>
      by_cases hc : p c = true
      · exact .inr ⟨c, cs, rfl, hc⟩
      · have hhead : (c :: cs).head?.any p = false := Bool.eq_false_iff.mpr hc
        exact .inl (dropWhile_append_of_all hxs hhead).symm

theorem rest_of_mem_many (hmem : h ∈ many p t) :
    h.rest = t.dropWhile p ∨ ∃ c cs, h.rest = c :: cs ∧ p c = true := by
  obtain ⟨ht, hxs, -⟩ := mem_many_iff.mp hmem
  rw [ht]
  exact rest_of_append hxs

theorem rest_of_mem_many1 (hmem : h ∈ many1 p t) :
    h.rest = t.dropWhile p ∨ ∃ c cs, h.rest = c :: cs ∧ p c = true := by
  obtain ⟨-, ht, hxs, -⟩ := mem_many1_iff.mp hmem
  rw [ht]
  exact rest_of_append hxs

theorem mem_group_iff :
    h ∈ group r t ↔ ∃ k ∈ r t, { k with groups := k.matched :: k.groups } = h :=
  List.mem_map

theorem mem_opt_iff : h ∈ opt r t ↔ h ∈ r t ∨ h = ⟨[], [], t⟩ := by
  rw [opt, alt, List.mem_append]
  exact or_congr_right List.mem_singleton

theorem mem_opt_lit_iff : h ∈ opt (lit w) t ↔
    (h.matched = [] ∨ h.matched = w) ∧ t = h.matched ++ h.rest ∧ h.groups = [] := by
  obtain ⟨matched, groups, rest⟩ := h
  rw [mem_opt_iff, mem_lit_iff]
  constructor
  · rintro (⟨rfl, rfl, rfl⟩ | heq)
    · exact ⟨.inr rfl, rfl, rfl⟩
    · cases heq
      exact ⟨.inl rfl, rfl, rfl⟩
  · rintro ⟨hmatched, rfl, rfl⟩
    rcases hmatched with rfl | rfl
    · exact .inr rfl
    · exact .inl ⟨rfl, rfl, rfl⟩

theorem of_mem_endOfText (hmem : h ∈ endOfText t) : t = [] ∨ t = ['\n'] := by
  by_contra hnot
  rw [endOfText, if_neg hnot] at hmem
  exact List.not_mem_nil hmem

theorem exists_head?_of_ne_nil {l : List Hit} (hne : l ≠ []) : ∃ k ∈ l, l.head? = some k := by
  obtain ⟨k, ks, rfl⟩ := List.exists_cons_of_ne_nil hne
  exact ⟨k, List.mem_cons_self .., rfl⟩

/-! ## What is captured behind a repetition -/

theorem captures_eq_none_iff : captures r t = none ↔ r t = [] := by
  simp [captures, matchStart]

/-- A character in front of all ways to match stays in front of what follows them. -/
theorem flatMap_append_cons (c : Char) (hs : List Hit) (q : Regex) :
    ((hs.map fun h => { h with matched := c :: h.matched }).flatMap
        fun h => (q h.rest).map h.append) =
      (hs.flatMap fun h => (q h.rest).map h.append).map
        fun h => { h with matched := c :: h.matched } := by
  rw [List.flatMap_map, List.map_flatMap]
  refine List.flatMap_congr fun h _ => ?_
  rw [List.map_map]
  rfl

theorem seq_many_of_not (ht : t.head?.any p = false) (q : Regex) : seq (many p) q t = q t := by
  have hmany : many p t = [⟨[], [], t⟩] := by
    cases t with
    | nil => rfl
    | cons c t => exact if_neg (Bool.eq_false_iff.mp ht)
  rw [seq, hmany, List.flatMap_singleton]
  exact List.map_id _

/-- Repetition is ended only where going on does not lead to a match. -/
theorem captures_seq_many_cons (hc : p c = true) (q : Regex) (t : Text) :
    captures (seq (many p) q) (c :: t) =
      (captures (seq (many p) q) t).or (captures q (c :: t)) := by
  have hseq : seq (many p) q (c :: t) =
      (seq (many p) q t).map (fun h => { h with matched := c :: h.matched }) ++ q (c :: t) := by
    rw [seq, many, if_pos hc, List.flatMap_append, flatMap_append_cons, List.flatMap_singleton]
    exact congrArg _ (List.map_id _)
  rw [captures, matchStart, hseq]
  cases htail : seq (many p) q t <;> simp [captures, matchStart, htail]

/-- One character, and then others of the class. -/
theorem captures_seq_many1_cons (hc : p c = true) (q : Regex) (t : Text) :
    captures (seq (many1 p) q) (c :: t) = captures (seq (many p) q) t := by
  have hmany1 : many1 p (c :: t) =
      (many p t).map fun h => { h with matched := c :: h.matched } := by
    rw [many1, seq, char, if_pos hc, List.flatMap_singleton]
    exact List.map_congr_left fun h _ => rfl
  rw [captures, matchStart, seq, hmany1, flatMap_append_cons, List.head?_map, Option.map_map]
  rfl

theorem captures_seq_many1_of_not (ht : t.head?.any p = false) (q : Regex) :
    captures (seq (many1 p) q) t = none := by
  rw [captures_eq_none_iff, seq, many1_eq_nil_iff.mpr ht, List.flatMap_nil]

/-! ## The leftmost match -/

theorem search_eq_none_iff : search r t = none ↔ ∀ s, s <:+ t → r s = [] := by
  induction t with
  | nil => simp [search]
  | cons c cs ih =>
      rw [search]
      cases hr : r (c :: cs) with
      | nil =>
          simp only [List.head?_nil, Option.map_eq_none_iff, ih, List.suffix_cons_iff]
          constructor
          · rintro hcs s (rfl | hs)
            · exact hr
            · exact hcs s hs
          · intro h s hs
            exact h s (.inr hs)
      | cons h hs =>
          simp only [List.head?_cons, reduceCtorEq, false_iff]
          intro hall
          exact absurd (hall _ (List.suffix_refl _)) (by simp [hr])

/-- Where a pattern does not match on the way to a place, the search goes on from there. -/
theorem search_append {pre : Text} (hpre : ∀ s, s <:+ pre → s ≠ [] → r (s ++ rest) = []) :
    search r (pre ++ rest) = (search r rest).map fun (before, h) => (pre ++ before, h) := by
  induction pre with
  | nil => simp
  | cons c pre ih =>
      have hc : r (c :: (pre ++ rest)) = [] := hpre (c :: pre) (List.suffix_refl _) (by simp)
      have hih := ih fun s hs => hpre s (hs.trans (List.suffix_cons c pre))
      rw [List.cons_append, search, hc, hih]
      simp [Function.comp_def]

theorem search_of_head? (hr : (r t).head? = some h) : search r t = some ([], h) := by
  cases t with
  | nil => simp [search, hr]
  | cons c cs => simp [search, hr]

/-! ## Where a word does not begin -/

/-- The word does not begin inside `pre`, in the text that continues with `rest`. -/
def Avoids (w pre rest : Text) : Prop := ∀ s, s <:+ pre → s ≠ [] → ¬ w <+: s ++ rest

theorem Avoids.append {a b : Text} (ha : Avoids w a (b ++ rest)) (hb : Avoids w b rest) :
    Avoids w (a ++ b) rest := by
  intro s hs hne
  obtain ⟨u, hu⟩ := hs
  rcases List.append_eq_append_iff.mp hu with ⟨v, hv, hsb⟩ | ⟨v, hv, hbs⟩
  · by_cases hvnil : v = []
    · subst hvnil
      obtain rfl : s = b := by simpa using hsb
      exact hb s (List.suffix_refl s) hne
    · rw [hsb, List.append_assoc]
      exact ha v ⟨u, hv.symm⟩ hvnil
  · exact hb s ⟨v, hbs.symm⟩ hne

/-- The word does not begin where its first character does not occur. -/
theorem avoids_of_not_mem {a : Char} {pre : Text} (ha : a ∉ pre) : Avoids (a :: w) pre rest := by
  intro s hs hne hprefix
  cases s with
  | nil => exact hne rfl
  | cons x s =>
      obtain ⟨rfl, -⟩ := List.cons_prefix_cons.mp hprefix
      exact ha (hs.subset (List.mem_cons_self ..))

/-- A word that is no prefix does not become one across a character that is not in it. -/
theorem not_prefix_append (h : ¬ w <+: t) (hc : c ∉ w) : ¬ w <+: t ++ c :: rest := by
  intro hprefix
  have hconcat : t ++ [c] <+: t ++ c :: rest := ⟨rest, by simp⟩
  rcases List.prefix_or_prefix_of_prefix hprefix hconcat with hw | hw
  · rcases List.prefix_concat_iff.mp hw with rfl | hw
    · exact hc (by simp)
    · exact h hw
  · exact hc (hw.subset (by simp))

/-- The word does not begin in a text without it, before a character that is not in it. -/
theorem avoids_of_not_infix {pre : Text} (hpre : ¬ w <:+: pre) (hc : c ∉ w) :
    Avoids w pre (c :: rest) := by
  intro s hs _
  exact not_prefix_append (fun hw => hpre (hw.isInfix.trans hs.isInfix)) hc

/-- What follows an occurrence of the word does not matter. -/
theorem Avoids.of_word {pre a b : Text} (h : Avoids w pre (w ++ a)) : Avoids w pre (w ++ b) := by
  intro s hs hne hprefix
  have hsw : s ++ w <+: s ++ (w ++ b) := ⟨b, by simp⟩
  have hle : w <+: s ++ w := List.prefix_of_prefix_length_le hprefix hsw (by simp)
  exact h s hs hne (hle.trans ⟨a, by simp⟩)

/-- The first occurrence of a word. -/
theorem exists_first_infix (h : w <:+: t) : ∃ a b, t = a ++ (w ++ b) ∧ Avoids w a (w ++ b) := by
  induction t with
  | nil =>
      obtain rfl : w = [] := List.eq_nil_of_infix_nil h
      exact ⟨[], [], rfl, fun s hs hne => absurd (List.suffix_nil.mp hs) hne⟩
  | cons x t ih =>
      by_cases hprefix : w <+: x :: t
      · obtain ⟨b, hb⟩ := hprefix
        exact ⟨[], b, hb.symm, fun s hs hne => absurd (List.suffix_nil.mp hs) hne⟩
      · obtain ⟨a, b, rfl, havoids⟩ := ih ((List.infix_cons_iff.mp h).resolve_left hprefix)
        refine ⟨x :: a, b, rfl, ?_⟩
        intro s hs hne
        rcases List.suffix_cons_iff.mp hs with rfl | hs
        · exact hprefix
        · exact havoids s hs hne

/-- A pattern that begins with a word is searched for behind the text that avoids it. -/
theorem search_seq_lit {pre : Text} (h : Avoids w pre rest) :
    search (seq (lit w) q) (pre ++ rest) =
      (search (seq (lit w) q) rest).map fun (before, h) => (pre ++ before, h) := by
  apply search_append
  intro s hs hne
  rw [seq, lit_eq_nil_iff.mpr (h s hs hne), List.flatMap_nil]

end Regex
end Osh
