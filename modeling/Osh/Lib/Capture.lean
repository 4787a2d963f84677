import Osh.Lib.Regex

/-!
# What patterns capture

A match and what follows it make up the text, and what a group captures stands in the match.
So a captured text has no characters that the text has not, and replacing a match changes
only what is matched.

## Main definitions

* `Reads`: a pattern that captures what it reads.
* `AtEnd`: a pattern that matches up to the end only.

## Main results

* `reads_of_search`, `subset_of_search`: where a match stands, and what it captures.
* `filter_subst`: a replacement that keeps the characters of a class, as far as the text is
  concerned.
-/
namespace Osh.Regex
variable {p : Char → Bool} {r q : Regex} {f : Hit → Text} {h k : Hit} {t w before : Text}

/-- The match and the rest are the text, and what is captured stands in the match. -/
class Reads (r : Regex) : Prop where
  reads : ∀ t, ∀ h ∈ r t, t = h.matched ++ h.rest ∧ ∀ g ∈ h.groups, g <:+: h.matched

instance : Reads (char p) where
  reads t h hmem := by
    obtain ⟨c, -, ht, hmatched, hgroups⟩ := mem_char_iff.mp hmem
    refine ⟨?_, by simp [hgroups]⟩
    rw [ht, hmatched, List.singleton_append]

instance : Reads (lit w) where
  reads t h hmem := by
    obtain ⟨ht, hmatched, hgroups⟩ := mem_lit_iff.mp hmem
    refine ⟨?_, by simp [hgroups]⟩
    rw [hmatched]
    exact ht

instance : Reads (many p) where
  reads t h hmem := by
    obtain ⟨ht, -, hgroups⟩ := mem_many_iff.mp hmem
    exact ⟨ht, by simp [hgroups]⟩

instance : Reads endOfText where
  reads t h hmem := by
    rw [endOfText] at hmem
    split at hmem
    · obtain rfl := List.mem_singleton.mp hmem
      exact ⟨rfl, by simp⟩
    · exact absurd hmem List.not_mem_nil

instance [hr : Reads r] [hq : Reads q] : Reads (seq r q) where
  reads t h hmem := by
    obtain ⟨a, ha, b, hb, rfl⟩ := mem_seq_iff.mp hmem
    obtain ⟨hat, hagroups⟩ := hr.reads t a ha
    obtain ⟨hbt, hbgroups⟩ := hq.reads a.rest b hb
    refine ⟨?_, fun g hg => ?_⟩
    · rw [Hit.append, List.append_assoc, ← hbt]
      exact hat
    · rcases List.mem_append.mp hg with hg | hg
      · exact (hagroups g hg).trans (List.prefix_append ..).isInfix
      · exact (hbgroups g hg).trans (List.suffix_append ..).isInfix

instance : Reads (many1 p) := inferInstanceAs (Reads (seq (char p) (many p)))

instance : Reads (many1Lazy p) where
  reads t h hmem := Reads.reads (r := many1 p) t h (List.mem_reverse.mp hmem)

instance [hr : Reads r] [hq : Reads q] : Reads (alt r q) where
  reads t h hmem := by
    rcases List.mem_append.mp hmem with hmem | hmem
    · exact hr.reads t h hmem
    · exact hq.reads t h hmem

instance [Reads r] : Reads (opt r) := inferInstanceAs (Reads (alt r (lit [])))

instance [hr : Reads r] : Reads (group r) where
  reads t h hmem := by
    obtain ⟨k, hk, rfl⟩ := mem_group_iff.mp hmem
    obtain ⟨ht, hgroups⟩ := hr.reads t k hk
    refine ⟨ht, fun g hg => ?_⟩
    rcases List.mem_cons.mp hg with rfl | hg
    · exact List.infix_refl _
    · exact hgroups g hg

/-- Nothing follows a match, or the end of a line. -/
class AtEnd (r : Regex) : Prop where
  rest : ∀ t, ∀ h ∈ r t, h.rest = [] ∨ h.rest = ['\n']

instance : AtEnd endOfText where
  rest t h hmem := by
    rw [endOfText] at hmem
    split at hmem
    next hend =>
      obtain rfl := List.mem_singleton.mp hmem
      exact hend
    next => exact absurd hmem List.not_mem_nil

instance [hq : AtEnd q] : AtEnd (seq r q) where
  rest t h hmem := by
    obtain ⟨a, -, b, hb, rfl⟩ := mem_seq_iff.mp hmem
    exact hq.rest a.rest b hb

/-! ## Matches in a text -/

theorem mem_of_matchStart (h : matchStart r t = some k) : k ∈ r t := List.mem_of_mem_head? h

/-- What is captured at the start of a text stands in the text. -/
theorem subset_of_matchStart [hr : Reads r] (h : matchStart r t = some k) {g : Text}
    (hg : g ∈ k.groups) : g ⊆ t := by
  obtain ⟨ht, hgroups⟩ := hr.reads t k (mem_of_matchStart h)
  intro c hc
  rw [ht]
  exact List.mem_append_left _ ((hgroups g hg).subset hc)

/-- The leftmost match is one behind the text before it. -/
theorem search_eq_some (h : search r t = some (before, k)) :
    ∃ s, t = before ++ s ∧ (r s).head? = some k := by
  induction t generalizing before with
  | nil =>
      rw [search] at h
      obtain ⟨k', hk', heq⟩ := Option.map_eq_some_iff.mp h
      cases heq
      exact ⟨[], rfl, hk'⟩
  | cons c cs ih =>
      rw [search] at h
      split at h
      next k' hk' =>
        cases h
        exact ⟨c :: cs, rfl, hk'⟩
      next =>
        obtain ⟨⟨before', k'⟩, hsearch, heq⟩ := Option.map_eq_some_iff.mp h
        cases heq
        obtain ⟨s, rfl, hs⟩ := ih hsearch
        exact ⟨s, rfl, hs⟩

theorem reads_of_search [hr : Reads r] (h : search r t = some (before, k)) :
    t = before ++ (k.matched ++ k.rest) ∧ ∃ s, k ∈ r s := by
  obtain ⟨s, rfl, hs⟩ := search_eq_some h
  have hmem := List.mem_of_mem_head? hs
  rw [← (hr.reads s k hmem).1]
  exact ⟨rfl, s, hmem⟩

/-- In a text of one line nothing follows a match at the end. -/
theorem rest_of_search [he : AtEnd r] [Reads r] (hline : '\n' ∉ t)
    (h : search r t = some (before, k)) : k.rest = [] := by
  obtain ⟨ht, s, hmem⟩ := reads_of_search h
  rcases he.rest s k hmem with hrest | hrest
  · exact hrest
  · refine absurd ?_ hline
    rw [ht, hrest]
    simp

/-- What is captured anywhere in a text stands in the text. -/
theorem subset_of_search [hr : Reads r] (h : search r t = some (before, k)) {g : Text}
    (hg : g ∈ k.groups) : g ⊆ t := by
  obtain ⟨ht, s, hmem⟩ := reads_of_search h
  intro c hc
  rw [ht]
  exact List.mem_append_right _ (List.mem_append_left _ (((hr.reads s k hmem).2 g hg).subset hc))

/-! ## Replacing a match -/

/-- Where a replacement has the characters of a class that the match has, in that order, the
text keeps them. -/
theorem filter_subst [Reads r]
    (hf : ∀ s, ∀ h ∈ r s, (f h).filter p = h.matched.filter p)
    (t : Text) : (subst r f t).filter p = t.filter p := by
  rw [subst]
  cases hsearch : search r t with
  | none => rfl
  | some found =>
      obtain ⟨before, k⟩ := found
      obtain ⟨ht, s, hmem⟩ := reads_of_search hsearch
      show (before ++ f k ++ k.rest).filter p = _
      rw [List.filter_append, List.filter_append, hf s k hmem, ht, List.filter_append,
        List.filter_append, List.append_assoc]

/-- The last character stays where only other characters are replaced. -/
theorem getLast?_subst {c : Char} [Reads r]
    (hc : ∀ s, ∀ h ∈ r s, h.matched ≠ [] ∧ c ∉ h.matched) (ht : t.getLast? = some c) :
    (subst r f t).getLast? = some c := by
  rw [subst]
  cases hsearch : search r t with
  | none => exact ht
  | some found =>
      obtain ⟨before, k⟩ := found
      obtain ⟨htext, s, hmem⟩ := reads_of_search hsearch
      obtain ⟨hne, hnot⟩ := hc s k hmem
      show (before ++ f k ++ k.rest).getLast? = some c
      by_cases hrest : k.rest = []
      · -- then the match would end with the character
        rw [htext, hrest, List.append_nil, List.getLast?_append_of_ne_nil _ hne] at ht
        exact absurd (List.mem_of_getLast? ht) hnot
      · rw [htext, ← List.append_assoc, List.getLast?_append_of_ne_nil _ hrest] at ht
        rw [List.getLast?_append_of_ne_nil _ hrest, ht]

end Osh.Regex
