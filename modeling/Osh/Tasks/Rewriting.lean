import Osh.Tasks.Source

/-!
# What the script makes of a line

The substitutions on a line interact through its text: the label is cut off and an
increment appended before the line is searched for a jump. The lemmas here follow
one line through `rewriteLine`, for each kind of statement, labelled or not.

## Main definitions

* `Line.appended`: what a label adds behind the statement.
-/
namespace Osh.Tasks
open Regex

variable {t u w rest more indent gap gap₁ cond gap₂ gap₃ target label : Text} {l : Line} {x : Char}

/-! ## Labels -/

theorem isSpace_of_isBlank (h : isBlank x = true) : isSpace x = true := by
  rcases isBlank_iff.mp h with rfl | rfl | rfl | rfl | rfl <;> decide

theorem isWord_of_isBlank (h : isBlank x = true) : isWord x = false :=
  not_isWord_of_isSpace (isSpace_of_isBlank h)

/-- A label in column 0 is split off. -/
theorem splitLabel_cons (hlabel : IsName label) :
    splitLabel (label ++ ':' :: rest) = some (label, rest) := by
  have hword : (many1 isWord (label ++ ':' :: rest)).head? = some ⟨label, [], ':' :: rest⟩ :=
    head?_many1 hlabel.1 hlabel.2 (by simp [isWord])
  have hcolon : (lit ":".toList (':' :: rest)).head? = some ⟨":".toList, [], rest⟩ :=
    head?_lit ":".toList rest
  have hmatch := head?_seq (head?_group hword) hcolon
  rw [splitLabel, matchStart, labelPattern, hmatch]
  rfl

/-- Without a colon behind its first word a line has no label. -/
theorem splitLabel_eq_none (h : (t.dropWhile isWord).head? ≠ some ':') : splitLabel t = none := by
  have hnil : labelPattern t = [] := by
    rw [labelPattern, seq_eq_nil_iff]
    intro k hk
    obtain ⟨k', hk', hrest⟩ := rest_of_mem_group hk
    rw [lit_eq_nil_iff, ← hrest]
    intro hcolon
    rcases rest_of_mem_many1 hk' with hdrop | ⟨c, cs, hcons, hc⟩
    · obtain ⟨u, hu⟩ := hdrop ▸ hcolon
      exact h (by simp [← hu])
    · obtain ⟨u, hu⟩ := hcons ▸ hcolon
      obtain rfl : ':' = c := (List.cons.inj hu).1
      exact absurd hc (by decide)
  rw [splitLabel, matchStart, hnil]
  rfl

/-- Nor has a line that begins with white space, or with a word before a character that is
neither a colon nor part of a word. -/
theorem splitLabel_indent (hindent : Blank indent) (hw : ∀ x ∈ w, isWord x = true)
    (hx : isWord x = false ∧ x ≠ ':') : splitLabel (indent ++ (w ++ x :: rest)) = none := by
  apply splitLabel_eq_none
  cases indent with
  | nil =>
      rw [List.nil_append, dropWhile_append_of_all hw (by simp [hx.1])]
      simp [hx.2]
  | cons y indent =>
      have hy : isBlank y = true := hindent y (List.mem_cons_self ..)
      have hne : y ≠ ':' := by
        rintro rfl
        exact absurd hy (by decide)
      simp [isWord_of_isBlank hy, hne]

/-- So no jump begins like a label. -/
theorem Stmt.splitLabel_jump {s : Stmt} (h : s.Valid) (hjump : s.target? ≠ none) :
    splitLabel (s.text ++ rest) = none := by
  have hblank : ∀ y, isBlank y = true → isWord y = false ∧ y ≠ ':' := by
    intro y hy
    refine ⟨isWord_of_isBlank hy, ?_⟩
    rintro rfl
    exact absurd hy (by decide)
  have hgoto : "goto".toList.all isWord = true := by decide +kernel
  have hif : "if".toList.all isWord = true := by decide +kernel
  cases s with
  | plain text => exact absurd rfl hjump
  | goto indent gap target =>
      obtain ⟨hindent, ⟨hne, hgap⟩, -⟩ := h
      obtain ⟨y, gap, rfl⟩ := List.exists_cons_of_ne_nil hne
      have hy : isWord y = false ∧ y ≠ ':' := hblank y (hgap y (List.mem_cons_self ..))
      simpa [Stmt.text, gotoText] using
        splitLabel_indent hindent (List.all_eq_true.mp hgoto) hy
  | ifGoto indent gap₁ cond gap₂ gap₃ target =>
      obtain ⟨hindent, hgap, -⟩ := h
      cases gap₁ with
      | nil =>
          simpa [Stmt.text, condText] using
            splitLabel_indent hindent (x := '(') (List.all_eq_true.mp hif) (by decide)
      | cons y gap₁ =>
          have hy : isWord y = false ∧ y ≠ ':' := hblank y (hgap y (List.mem_cons_self ..))
          simpa [Stmt.text, condText] using
            splitLabel_indent hindent (List.all_eq_true.mp hif) hy

/-- The script sees the labels that there are. -/
theorem Line.splitLabel_text (h : l.Valid) :
    splitLabel l.text = l.label.map fun label => (label, l.stmt.text ++ l.trailing) := by
  obtain ⟨hstmt, -, hlabel, hnone⟩ := h
  obtain ⟨label, stmt, trailing⟩ := l
  cases label with
  | none =>
      by_cases hplain : stmt.target? = none
      · exact hnone rfl hplain
      · exact Stmt.splitLabel_jump hstmt hplain
  | some label => exact splitLabel_cons (hlabel label rfl)

@[simp] theorem chomp_newline : chomp (t ++ ['\n']) = t := by
  simp [chomp]

/-! ## The map of labels -/

section
variable {lines : List Line}

def sourceLines (lines : List Line) : List Text := lines.map fun l => l.text ++ ['\n']

theorem labelsToLineNumbers_of_not_mem (n : ℕ) (labels : Text → Option ℕ)
    (hlines : ∀ l ∈ lines, l.Valid)
    (hlabel : label ∉ labelsOf lines) :
    labelsToLineNumbers n labels (sourceLines lines) label = labels label := by
  induction lines generalizing n labels with
  | nil => rfl
  | cons l lines ih =>
      have hrest : label ∉ labelsOf lines := by
        intro hmem
        apply hlabel
        cases hl : l.label <;> simp_all [labelsOf]
      have hl : l.label ≠ some label := by
        intro hl
        simp [labelsOf, hl] at hlabel
      have hsplit := Line.splitLabel_text (hlines l (List.mem_cons_self ..))
      simp only [sourceLines, List.map_cons, labelsToLineNumbers, chomp_newline]
      rw [← sourceLines, ih _ _ (fun k hk => hlines k (List.mem_cons_of_mem l hk)) hrest, hsplit]
      cases hlab : l.label with
      | none => rfl
      | some label' =>
          have hne : label ≠ label' := by
            rintro rfl
            exact hl hlab
          simp [hne]

/-- A label defined once is mapped to its line. -/
theorem labelsToLineNumbers_of_count (n : ℕ) (labels : Text → Option ℕ)
    (hlines : ∀ l ∈ lines, l.Valid)
    (hlabel : (labelsOf lines).count label = 1) :
    labelsToLineNumbers n labels (sourceLines lines) label =
      some (n + lines.findIdx fun l => l.label = some label) := by
  induction lines generalizing n labels with
  | nil => simp [labelsOf] at hlabel
  | cons l lines ih =>
      have hsplit := Line.splitLabel_text (hlines l (List.mem_cons_self ..))
      have hvalid : ∀ k ∈ lines, k.Valid := fun k hk => hlines k (List.mem_cons_of_mem l hk)
      simp only [sourceLines, List.map_cons, labelsToLineNumbers, chomp_newline]
      rw [← sourceLines]
      by_cases hl : l.label = some label
      · have hrest : label ∉ labelsOf lines := by
          have hcount : (labelsOf lines).count label = 0 := by
            simpa [labelsOf, hl] using hlabel
          exact List.count_eq_zero.mp hcount
        rw [labelsToLineNumbers_of_not_mem _ _ hvalid hrest, hsplit, hl]
        simp [List.findIdx_cons, hl]
      · have hrest : (labelsOf lines).count label = 1 := by
          cases hlab : l.label with
          | none => simpa [labelsOf, hlab] using hlabel
          | some label' =>
              have hne : label' ≠ label := fun heq => hl (heq ▸ hlab)
              simpa [labelsOf, hlab, List.count_cons, hne] using hlabel
        rw [ih _ _ hvalid hrest]
        simp only [List.findIdx_cons, hl, decide_false, cond_false]
        congr 1
        omega

end

/-! ## Jumps -/

theorem Blank.not_mem (h : Blank t) (hx : isBlank x = false) : x ∉ t := by
  intro hmem
  simp [h x hmem] at hx

/-- A jump is found at its goto, and its label captured. -/
theorem head?_gotoPattern (more : Text) (hgap : gap ≠ [] ∧ Blank gap) (htarget : IsName target) :
    (gotoPattern (gotoText gap target ++ more)).head? =
      some ⟨"goto".toList ++ (gap ++ target), [target], ';' :: more⟩ := by
  have heq : gotoText gap target ++ more = "goto".toList ++ (gap ++ (target ++ ';' :: more)) := by
    simp [gotoText]
  have hword : (group (many1 isWord) (target ++ ';' :: more)).head? =
      some ⟨target, [target], ';' :: more⟩ :=
    head?_group (head?_many1 htarget.1 htarget.2 (by simp [isWord]))
  have hspace : (many1 isSpace (gap ++ (target ++ ';' :: more))).head? =
      some ⟨gap, [], target ++ ';' :: more⟩ := by
    refine head?_many1 hgap.1 (fun x hx => isSpace_of_isBlank (hgap.2 x hx)) ?_
    obtain ⟨x, u, hu⟩ := List.exists_cons_of_ne_nil htarget.1
    have hwordx : isWord x = true := htarget.2 x (by simp [hu])
    have hspacex : ¬ isSpace x = true := by
      intro hspace
      simp [not_isWord_of_isSpace hspace] at hwordx
    simpa [hu] using hspacex
  rw [heq]
  exact head?_seq (head?_lit ..) (head?_seq hspace hword)

/-- Everything from the goto on is cut off. -/
theorem subst_gotoTail {pre : Text} (hpre : Avoids "goto".toList pre ("goto".toList ++ rest))
    (hne : rest ≠ []) (hline : '\n' ∉ rest) :
    subst gotoTailPattern (fun _ => []) (pre ++ ("goto".toList ++ rest)) = pre := by
  have hdots : (many1 isDot (rest ++ [])).head? = some ⟨rest, [], []⟩ := by
    refine head?_many1 hne ?_ (by simp)
    intro x hx
    have hxn : x ≠ '\n' := fun heq => hline (heq ▸ hx)
    simpa [isDot] using hxn
  have hend : (endOfText []).head? = some ⟨[], [], []⟩ := rfl
  rw [List.append_nil] at hdots
  have htail := head?_seq (head?_lit "goto".toList rest) (head?_seq hdots hend)
  have hsearch : search gotoTailPattern (pre ++ ("goto".toList ++ rest)) =
      some (pre, ⟨"goto".toList ++ (rest ++ []), [], []⟩) := by
    rw [gotoTailPattern, search_seq_lit hpre, search_of_head? htail]
    simp [Hit.append]
  rw [subst, hsearch]
  simp

/-- The text before the jump of a conditional one. -/
def beforeGoto (indent gap₁ cond gap₂ : Text) : Text :=
  indent ++ ("if".toList ++ (gap₁ ++ '(' :: (cond ++ ')' :: gap₂)))

theorem ifGoto_text :
    (Stmt.ifGoto indent gap₁ cond gap₂ gap₃ target).text ++ more =
      beforeGoto indent gap₁ cond gap₂ ++ (gotoText gap₃ target ++ more) := by
  simp [Stmt.text, condText, beforeGoto]

/-- Nothing in front of the condition is taken for a goto. -/
theorem avoids_beforeCond (hindent : Blank indent) (hgap₁ : Blank gap₁) :
    Avoids "goto".toList (indent ++ ("if".toList ++ (gap₁ ++ ['(']))) rest := by
  have hg : 'g' ∉ indent ++ ("if".toList ++ (gap₁ ++ ['('])) := by
    simp [hindent.not_mem, hgap₁.not_mem, isBlank]
  exact avoids_of_not_mem hg

/-- If the letters goto are not in the condition, the first goto is the jump. -/
theorem avoids_beforeGoto (hindent : Blank indent) (hgap₁ : Blank gap₁)
    (hcond : ¬ "goto".toList <:+: cond) (hgap₂ : Blank gap₂) :
    Avoids "goto".toList (beforeGoto indent gap₁ cond gap₂) rest := by
  have heq : beforeGoto indent gap₁ cond gap₂ =
      (indent ++ ("if".toList ++ (gap₁ ++ ['(']))) ++ (cond ++ ')' :: gap₂) := by
    simp [beforeGoto]
  have hg : 'g' ∉ ')' :: gap₂ := by
    simp [hgap₂.not_mem, isBlank]
  rw [heq]
  apply Avoids.append
  · exact avoids_beforeCond hindent hgap₁
  · apply Avoids.append
    · exact avoids_of_not_infix hcond (by decide)
    · exact avoids_of_not_mem hg

/-- If they are, the first goto is in the condition. -/
theorem avoids_beforeCut {a b : Text} (hindent : Blank indent) (hgap₁ : Blank gap₁)
    (ha : Avoids "goto".toList a ("goto".toList ++ b)) :
    Avoids "goto".toList (indent ++ ("if".toList ++ (gap₁ ++ '(' :: a)))
      ("goto".toList ++ rest) := by
  have heq : indent ++ ("if".toList ++ (gap₁ ++ '(' :: a)) =
      (indent ++ ("if".toList ++ (gap₁ ++ ['(']))) ++ a := by
    simp
  rw [heq]
  exact Avoids.append (avoids_beforeCond hindent hgap₁) ha.of_word

/-- A conditional jump is recognised as one. -/
theorem ifGotoPattern_isSome (more : Text)
    (hvalid : (Stmt.ifGoto indent gap₁ cond gap₂ gap₃ target).Valid) :
    (matchStart ifGotoPattern
      ((Stmt.ifGoto indent gap₁ cond gap₂ gap₃ target).text ++ more)).isSome := by
  obtain ⟨hindent, hgap₁, ⟨hne, hline, -, -⟩, hgap₂, -, -⟩ := hvalid
  have heq : (Stmt.ifGoto indent gap₁ cond gap₂ gap₃ target).text ++ more =
      indent ++ ("if".toList ++ (gap₁ ++ ("(".toList ++ (cond ++ (")".toList ++ (gap₂ ++
        ("goto".toList ++ (gap₃ ++ (target ++ (";".toList ++ more)))))))))) := by
    simp [ifGoto_text, beforeGoto, gotoText]
  have hspace : ∀ {t}, Blank t → ∀ x ∈ t, isSpace x = true :=
    fun h x hx => isSpace_of_isBlank (h x hx)
  have hdot : ∀ x ∈ cond, isDot x = true := by
    intro x hx
    have hxn : x ≠ '\n' := fun heq => hline (heq ▸ hx)
    simpa [isDot] using hxn
  have hmatch :
      ifGotoPattern ((Stmt.ifGoto indent gap₁ cond gap₂ gap₃ target).text ++ more) ≠ [] := by
    rw [heq]
    refine seq_ne_nil (mem_many (hspace hindent)) ?_
    refine seq_ne_nil (mem_lit ..) ?_
    refine seq_ne_nil (mem_many (hspace hgap₁)) ?_
    refine seq_ne_nil (mem_lit ..) ?_
    refine seq_ne_nil (mem_many1Lazy hne hdot) ?_
    refine seq_ne_nil (mem_lit ..) ?_
    refine seq_ne_nil (mem_many1 hgap₂.1 (hspace hgap₂.2)) ?_
    rw [lit_append]
    exact List.cons_ne_nil _ _
  rw [matchStart, List.isSome_head?]
  exact hmatch

/-- An unconditional jump is not. -/
theorem ifGotoPattern_eq_none (hindent : Blank indent) :
    matchStart ifGotoPattern (indent ++ (gotoText gap target ++ more)) = none := by
  have hnil : ifGotoPattern (indent ++ (gotoText gap target ++ more)) = [] := by
    rw [ifGotoPattern, seq_eq_nil_iff]
    intro h hh
    have hif : ¬ "if".toList <+: h.rest := by
      rcases rest_of_mem_many hh with hdrop | ⟨c, cs, hcons, hc⟩
      · rw [hdrop, dropWhile_append_of_all (fun x hx => isSpace_of_isBlank (hindent x hx))]
        · simp [gotoText]
        · simp [gotoText, isSpace]
      · rw [hcons]
        intro hprefix
        obtain ⟨rfl, -⟩ := List.cons_prefix_cons.mp hprefix
        exact absurd hc (by decide)
    rw [seq, lit_eq_nil_iff.mpr hif, List.flatMap_nil]
  rw [matchStart, hnil]
  rfl

/-! ## Plain statements -/

/-- A plain text ends with a semicolon. -/
theorem IsPlain.ends (h : IsPlain t) : ∃ u, t = u ++ [';'] := by
  obtain ⟨r, hread, -, hcurrent, hdone, -⟩ := h
  cases t using List.reverseRecOn with
  | nil =>
      obtain rfl : Reader.start = r := Option.some.inj hread
      exact absurd rfl hdone
  | append_singleton u x =>
      refine ⟨u, ?_⟩
      obtain ⟨k, -, hx⟩ := Option.bind_eq_some_iff.mp (Reader.read_append ▸ hread)
      have hnext : k.next x = some r := by
        simpa [Reader.read] using hx
      obtain ⟨lex, -, rfl⟩ := Option.map_eq_some_iff.mp hnext
      by_cases hend : x = ';' ∧ lex = .top
      · rw [hend.1]
      · simp [hend] at hcurrent

/-- White space and a word: what a jump needs behind its goto. -/
theorem spaceWord_eq_nil_iff :
    seq (many1 isSpace) (group (many1 isWord)) t = [] ↔
      (t.head?.any isSpace = true → (t.dropWhile isSpace).head?.any isWord = false) := by
  cases t with
  | nil => simp [seq, many1, char]
  | cons c cs =>
      by_cases hc : isSpace c = true
      · rw [seq_eq_nil_iff]
        constructor
        · intro hall _
          have htake : ∀ x ∈ (c :: cs).takeWhile isSpace, isSpace x = true :=
            fun x hx => List.mem_takeWhile_imp hx
          have hmem : ⟨(c :: cs).takeWhile isSpace, [], (c :: cs).dropWhile isSpace⟩ ∈
              many1 isSpace (c :: cs) := by
            have hne : (c :: cs).takeWhile isSpace ≠ [] := by simp [hc]
            have hmem : ⟨_, [], (c :: cs).dropWhile isSpace⟩ ∈ many1 isSpace _ :=
              mem_many1 hne htake
            rwa [List.takeWhile_append_dropWhile] at hmem
          exact many1_eq_nil_iff.mp (group_eq_nil_iff.mp (hall _ hmem))
        · intro hword h hh
          rw [group_eq_nil_iff, many1_eq_nil_iff]
          rcases rest_of_mem_many1 hh with hdrop | ⟨x, xs, hcons, hx⟩
          · rw [hdrop]
            exact hword (by simpa using hc)
          · rw [hcons]
            simpa using not_isWord_of_isSpace hx
      · have hnil : many1 isSpace (c :: cs) = [] := many1_eq_nil_iff.mpr (by simpa using hc)
        simp [seq, hnil, hc]

/-- What stands behind a semicolon does not turn what stands before it into a jump. -/
theorem gotoPattern_append (h : gotoPattern (u ++ [';']) = []) :
    gotoPattern (u ++ ';' :: more) = [] := by
  by_cases hgoto : "goto".toList <+: u
  · obtain ⟨v, rfl⟩ := hgoto
    rw [gotoPattern, seq_eq_nil_iff, List.append_assoc, lit_append] at h ⊢
    intro k hk
    obtain rfl := List.mem_singleton.mp hk
    have hspace := spaceWord_eq_nil_iff.mp (h _ (List.mem_singleton_self _))
    have hdrop : ∀ r, (v ++ ';' :: r).dropWhile isSpace = v.dropWhile isSpace ++ ';' :: r := by
      intro r
      have hsemi : isSpace ';' = false := by decide
      rw [List.dropWhile_append]
      split
      · rename_i hempty
        simp [hsemi, List.isEmpty_iff.mp hempty]
      · rfl
    rw [spaceWord_eq_nil_iff]
    simpa [hdrop] using hspace
  · have hnot : ¬ "goto".toList <+: u ++ ';' :: more := not_prefix_append hgoto (by decide)
    rw [gotoPattern, seq, lit_eq_nil_iff.mpr hnot, List.flatMap_nil]

/-- The script finds a jump in what it has appended to only if there was one before. -/
theorem search_gotoPattern_append (h : search gotoPattern (u ++ [';']) = none)
    (hmore : 'g' ∉ more) : search gotoPattern (u ++ ';' :: more) = none := by
  have hnil := search_eq_none_iff.mp h
  have hpre : ∀ s, s <:+ u → s ≠ [] → gotoPattern (s ++ ';' :: more) = [] := by
    intro s hs _
    exact gotoPattern_append (hnil (s ++ [';']) (List.suffix_append_self_iff.mpr hs))
  have hg : 'g' ∉ ';' :: more := by simp [hmore]
  have hrest : Avoids "goto".toList (';' :: more) [] := avoids_of_not_mem hg
  have hsearch := search_seq_lit (q := seq (many1 isSpace) (group (many1 isWord))) hrest
  rw [search_append hpre]
  rw [List.append_nil] at hsearch
  rw [gotoPattern, hsearch]
  rfl

/-! ## Lines -/

section
variable {labels : Text → Option ℕ}

/-- What stands behind the statement of a line when it is searched for a jump. -/
def Line.appended (l : Line) : Text := l.trailing ++ if l.label.isSome then pcInc else []

theorem Line.cutLabel_text (h : l.Valid) : cutLabel l.text = l.stmt.text ++ l.appended := by
  rw [cutLabel, Line.splitLabel_text h, Line.appended]
  obtain ⟨label, stmt, trailing⟩ := l
  cases label with
  | none => simp [Line.text]
  | some label => simp

theorem Line.not_mem_appended (h : l.Valid) (hblank : isBlank x = false) (hx : x ∉ pcInc) :
    x ∉ l.appended := by
  have htrailing : x ∉ l.trailing := h.2.1.not_mem hblank
  unfold Line.appended
  split
  · simp [htrailing, hx]
  · simp [htrailing]

/-- Behind a labelled plain statement `pc` is incremented twice. -/
theorem rewriteLine_plain (h : l.Valid) (hstmt : l.stmt = .plain t) :
    rewriteLine labels l.text = t ++ l.appended ++ pcInc := by
  have hvalid : IsPlain t ∧ search gotoPattern t = none := by
    have hl := h.1
    rwa [hstmt] at hl
  obtain ⟨u, rfl⟩ := hvalid.1.ends
  have hnone : search gotoPattern (u ++ ';' :: l.appended) = none :=
    search_gotoPattern_append hvalid.2 (Line.not_mem_appended h (by decide) (by decide))
  have htext : (Stmt.plain (u ++ [';'])).text ++ l.appended = u ++ ';' :: l.appended := by
    simp [Stmt.text]
  rw [rewriteLine, Line.cutLabel_text h, hstmt, htext, rewriteJump, hnone]
  simp

/-- The jump of a line, labelled or not, is found behind the text that avoids it. -/
theorem search_gotoText {pre : Text} (more : Text)
    (hpre : ∀ rest, Avoids "goto".toList pre ("goto".toList ++ rest))
    (hgap : gap ≠ [] ∧ Blank gap) (htarget : IsName target) :
    ∃ before h, search gotoPattern (pre ++ (gotoText gap target ++ more)) = some (before, h) ∧
      h.groups = [target] := by
  have heq : gotoText gap target ++ more = "goto".toList ++ (gap ++ (target ++ ';' :: more)) := by
    simp [gotoText]
  have hsearch := search_of_head? (head?_gotoPattern more hgap htarget)
  have hgoto := search_seq_lit (q := seq (many1 isSpace) (group (many1 isWord)))
    (hpre (gap ++ (target ++ ';' :: more)))
  rw [← heq, ← gotoPattern, hsearch] at hgoto
  exact ⟨_, _, hgoto, rfl⟩

theorem rewriteLine_goto (h : l.Valid) (hstmt : l.stmt = .goto indent gap target) :
    rewriteLine labels l.text = setText (idText (labels target)) := by
  have hvalid : Blank indent ∧ (gap ≠ [] ∧ Blank gap) ∧ IsName target := by
    have hl := h.1
    rwa [hstmt] at hl
  obtain ⟨hindent, hgap, htarget⟩ := hvalid
  have hg : 'g' ∉ indent := hindent.not_mem (by decide)
  obtain ⟨before, k, hsearch, hgroups⟩ :=
    search_gotoText l.appended (fun _ => avoids_of_not_mem hg) hgap htarget
  have htext : (Stmt.goto indent gap target).text ++ l.appended =
      indent ++ (gotoText gap target ++ l.appended) := by
    simp [Stmt.text]
  rw [rewriteLine, Line.cutLabel_text h, hstmt, htext, rewriteJump, hsearch,
    ifGotoPattern_eq_none hindent]
  simp [hgroups]

theorem newline_not_mem (h : l.Valid) (hgap : Blank gap) (htarget : IsName target) :
    '\n' ∉ gap ++ (target ++ ';' :: l.appended) := by
  have htgt : '\n' ∉ target := by
    intro hmem
    exact absurd (htarget.2 '\n' hmem) (by decide)
  have happended : '\n' ∉ l.appended := Line.not_mem_appended h (by decide) (by decide)
  simp [hgap.not_mem, isBlank, htgt, happended]

/-- Where the letters goto are not in the condition. -/
theorem rewriteLine_ifGoto (h : l.Valid)
    (hstmt : l.stmt = .ifGoto indent gap₁ cond gap₂ gap₃ target)
    (hcond : ¬ "goto".toList <:+: cond) :
    rewriteLine labels l.text =
      indent ++ ("if".toList ++ condText gap₁ cond gap₂ (branchText (idText (labels target)))) := by
  have hvalid : (Stmt.ifGoto indent gap₁ cond gap₂ gap₃ target).Valid := hstmt ▸ h.1
  obtain ⟨hindent, hgap₁, -, hgap₂, hgap₃, htarget⟩ := id hvalid
  have havoids : ∀ rest, Avoids "goto".toList (beforeGoto indent gap₁ cond gap₂)
      ("goto".toList ++ rest) := fun _ => avoids_beforeGoto hindent hgap₁ hcond hgap₂.2
  obtain ⟨before, k, hsearch, hgroups⟩ :=
    search_gotoText l.appended havoids hgap₃ htarget
  have hsome := ifGotoPattern_isSome l.appended hvalid
  have hsubst : subst gotoTailPattern (fun _ => []) (beforeGoto indent gap₁ cond gap₂ ++
      (gotoText gap₃ target ++ l.appended)) = beforeGoto indent gap₁ cond gap₂ := by
    have heq : gotoText gap₃ target ++ l.appended =
        "goto".toList ++ (gap₃ ++ (target ++ ';' :: l.appended)) := by
      simp [gotoText]
    rw [heq]
    exact subst_gotoTail (havoids _) (by simp [hgap₃.1]) (newline_not_mem h hgap₃.2 htarget)
  rw [rewriteLine, Line.cutLabel_text h, hstmt, rewriteJump]
  rw [ifGoto_text] at hsome ⊢
  rw [hsearch]
  dsimp only
  rw [if_pos hsome, hsubst, hgroups]
  simp [beforeGoto, condText]

/-- Where they are, the condition is cut short. -/
theorem rewriteLine_cut (labels : Text → Option ℕ) (h : l.Valid)
    (hstmt : l.stmt = .ifGoto indent gap₁ cond gap₂ gap₃ target)
    (hcond : "goto".toList <:+: cond) :
    ∃ a b id, cond = a ++ b ∧ (∀ x ∈ id, x.isDigit = true) ∧
      rewriteLine labels l.text =
        indent ++ ("if".toList ++ gap₁) ++ '(' :: (a ++ branchText id) := by
  have hvalid : (Stmt.ifGoto indent gap₁ cond gap₂ gap₃ target).Valid := hstmt ▸ h.1
  obtain ⟨hindent, hgap₁, ⟨-, hline, -, -⟩, hgap₂, hgap₃, htarget⟩ := id hvalid
  obtain ⟨a, b, rfl, ha⟩ := exists_first_infix hcond
  -- where the first goto is, the pattern of a jump matches there or further on
  obtain ⟨before, k, hsearch⟩ : ∃ before k, search gotoPattern
      ((Stmt.ifGoto indent gap₁ (a ++ ("goto".toList ++ b)) gap₂ gap₃ target).text ++ l.appended) =
        some (before, k) := by
    have hhead := head?_gotoPattern l.appended hgap₃ htarget
    cases hsearch : search gotoPattern ((Stmt.ifGoto indent gap₁ (a ++ ("goto".toList ++ b)) gap₂
        gap₃ target).text ++ l.appended) with
    | none =>
        have hnil := search_eq_none_iff.mp hsearch (gotoText gap₃ target ++ l.appended)
          (ifGoto_text ▸ List.suffix_append ..)
        simp [hnil] at hhead
    | some found => exact ⟨found.1, found.2, rfl⟩
  have hsome := ifGotoPattern_isSome l.appended hvalid
  have hsubst : subst gotoTailPattern (fun _ => [])
      ((Stmt.ifGoto indent gap₁ (a ++ ("goto".toList ++ b)) gap₂ gap₃ target).text ++ l.appended) =
        indent ++ ("if".toList ++ (gap₁ ++ '(' :: a)) := by
    have heq : (Stmt.ifGoto indent gap₁ (a ++ ("goto".toList ++ b)) gap₂ gap₃ target).text ++
        l.appended = (indent ++ ("if".toList ++ (gap₁ ++ '(' :: a))) ++ ("goto".toList ++ (b ++
          ')' :: (gap₂ ++ ("goto".toList ++ (gap₃ ++ (target ++ ';' :: l.appended)))))) := by
      simp [ifGoto_text, beforeGoto, gotoText]
    have hb : '\n' ∉ b := fun hmem => hline (by simp [hmem])
    have hrest := newline_not_mem h hgap₃.2 htarget
    rw [heq]
    refine subst_gotoTail (avoids_beforeCut hindent hgap₁ ha) (by simp) ?_
    simp only [List.mem_append, List.mem_cons, not_or] at hrest ⊢
    exact ⟨hb, by decide, hgap₂.2.not_mem (by decide), by decide, hrest⟩
  refine ⟨a, "goto".toList ++ b, idText (labels (k.groups.headD [])), rfl, ?_, ?_⟩
  · cases labels (k.groups.headD []) with
    | none => exact fun x hx => absurd hx List.not_mem_nil
    | some n => exact isDigit_of_mem_natText n
  · rw [rewriteLine, Line.cutLabel_text h, hstmt, rewriteJump, hsearch]
    dsimp only
    rw [if_pos hsome, hsubst]
    simp

end

end Osh.Tasks
