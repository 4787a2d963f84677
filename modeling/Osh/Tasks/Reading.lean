import Osh.Lib.Lists
import Osh.Tasks.CText

/-!
# How generated text reads

The texts that the script writes are put together from a few pieces: white space, numbers,
brackets around something balanced, and what stood in the source. Each piece is read on
its own here; a reader that stands in code outside all brackets stands there again after it.

## Main definitions

* `natText`: a number as Perl writes it.
* `Skipped`: a text that the reader adds to the current statement.
-/
namespace Osh.Tasks
open Regex

variable {t u c w rest indent gap gap₁ gap₂ : Text} {l l' : Lex} {x : Char} {n : ℕ}

/-! ## Pieces -/

/-- A number in decimal. -/
def natText (n : ℕ) : Text := Nat.toDigits 10 n

theorem isDigit_of_mem_natText (n : ℕ) : ∀ x ∈ natText n, x.isDigit = true :=
  fun _ hx => Nat.isDigit_of_mem_toDigits (by decide) (by decide) hx

@[simp] theorem strip_append : strip w (w ++ rest) = some rest := by simp [strip]

theorem readNat_natText (hrest : rest.head?.any Char.isDigit = false) :
    readNat (natText n ++ rest) = some (n, rest) := by
  have hdigits : ∀ x ∈ natText n, x.isDigit = true := isDigit_of_mem_natText n
  have hne : natText n ≠ [] := Nat.toDigits_ne_nil
  have hvalue : Nat.ofDigitChars 10 (natText n) 0 = n := Nat.ofDigitChars_ten_toDigits
  simp [readNat, takeWhile_append_of_all hdigits hrest, dropWhile_append_of_all hdigits hrest, hne,
    hvalue]

/-! ## Modes and brackets -/

theorem Lex.read_append : l.read (t ++ u) = (l.read t).bind fun l' => l'.read u := by
  simp [Lex.read, List.foldlM_append]

theorem Lex.read_cons : l.read (x :: t) = (l.next x).bind fun l' => l'.read t := by
  simp [Lex.read]

/-- The same place, one bracket further inside. -/
def Lex.inner (l : Lex) : Lex := ⟨l.mode, l.depth + 1⟩

theorem Lex.inner_ne_top : l.inner ≠ .top := by
  simp [Lex.inner, Lex.top]

theorem afterCode_inner {d : ℕ} (h : afterCode d x = some l') :
    afterCode (d + 1) x = some l'.inner := by
  unfold afterCode at h ⊢
  split_ifs at h ⊢ with h1 h2 h3 h4 h5
  all_goals first
    | (cases h; rfl)
    | (cases d with
      | zero => cases h
      | succ d => cases h; rfl)

/-- Nothing is read differently further inside. -/
theorem Lex.next_inner (h : l.next x = some l') : l.inner.next x = some l'.inner := by
  obtain ⟨mode, depth⟩ := l
  cases mode with
  | code => exact afterCode_inner h
  | slash =>
      simp only [Lex.next, Lex.inner] at h ⊢
      split_ifs at h ⊢
      · cases h
        rfl
      · exact afterCode_inner h
  | str | strEsc | chr | chrEsc | comment | commentStar =>
      cases h
      rfl

theorem Lex.read_inner (h : l.read t = some l') : l.inner.read t = some l'.inner := by
  induction t generalizing l with
  | nil =>
      obtain rfl : l = l' := Option.some.inj h
      rfl
  | cons x t ih =>
      obtain ⟨k, hk, ht⟩ := Option.bind_eq_some_iff.mp (Lex.read_cons ▸ h)
      rw [Lex.read_cons, Lex.next_inner hk]
      exact ih ht

/-- Characters of code that begin no literal or comment and are no brackets. -/
def isInert (x : Char) : Bool := !"\x22\x27/()[]\x7b\x7d".toList.contains x

theorem afterCode_of_isInert {d : ℕ} (h : isInert x = true) : afterCode d x = some ⟨.code, d⟩ := by
  simp only [isInert, String.reduceToList, List.contains_eq_mem, List.mem_cons, List.not_mem_nil,
    or_false, Bool.not_eq_true', decide_eq_false_iff_not, not_or] at h
  simp [afterCode, h]

theorem isBlank_iff : isBlank x = true ↔
    x = ' ' ∨ x = '\t' ∨ x = '\x0B' ∨ x = '\x0C' ∨ x = '\r' := by
  simp [isBlank]

theorem isInert_of_isBlank (h : isBlank x = true) : isInert x = true ∧ x ≠ ';' := by
  rcases isBlank_iff.mp h with rfl | rfl | rfl | rfl | rfl <;> decide

theorem isInert_of_isDigit (h : x.isDigit = true) : isInert x = true ∧ x ≠ ';' := by
  have hne : ∀ y : Char, y.isDigit = false → x ≠ y := by
    rintro y hy rfl
    simp [h] at hy
  simp [isInert, hne]

theorem Balanced.append (ht : Balanced t) (hu : Balanced u) : Balanced (t ++ u) := by
  rw [Balanced, Lex.read_append, show Lex.top.read t = some .top from ht]
  exact hu

theorem balanced_of_isInert (h : ∀ x ∈ t, isInert x = true) : Balanced t := by
  induction t with
  | nil => rfl
  | cons x t ih =>
      have hx : Lex.top.next x = some .top := afterCode_of_isInert (h x (List.mem_cons_self ..))
      rw [Balanced, Lex.read_cons, hx]
      exact ih fun y hy => h y (List.mem_cons_of_mem x hy)

theorem balanced_of_all (h : t.all isInert = true) : Balanced t :=
  balanced_of_isInert (List.all_eq_true.mp h)

/-! ## Statements -/

theorem Reader.read_append {r : Reader} :
    r.read (t ++ u) = (r.read t).bind fun r' => r'.read u := by
  simp [Reader.read, List.foldlM_append]

theorem Reader.read_cons {r : Reader} :
    r.read (x :: t) = (r.next x).bind fun r' => r'.read t := by
  simp [Reader.read]

/-- The statements do not matter for where the reader stands. -/
theorem Reader.lex_read {r r' : Reader} (h : r.read t = some r') : r.lex.read t = some r'.lex := by
  induction t generalizing r with
  | nil =>
      obtain rfl : r = r' := Option.some.inj h
      rfl
  | cons x t ih =>
      obtain ⟨k, hk, ht⟩ := Option.bind_eq_some_iff.mp (Reader.read_cons ▸ h)
      obtain ⟨l, hl, rfl⟩ := Option.map_eq_some_iff.mp hk
      rw [Lex.read_cons, hl]
      have htail := ih ht
      split at htail <;> exact htail

/-- Inside brackets no statement ends. -/
theorem Reader.read_inner (h : l.read t = some l') (current : Text) (done : List Text) :
    Reader.read ⟨l.inner, current, done⟩ t = some ⟨l'.inner, current ++ t, done⟩ := by
  induction t generalizing l current with
  | nil =>
      obtain rfl : l = l' := Option.some.inj h
      simp [Reader.read]
  | cons x t ih =>
      obtain ⟨k, hk, ht⟩ := Option.bind_eq_some_iff.mp (Lex.read_cons ▸ h)
      have hnext : Reader.next ⟨l.inner, current, done⟩ x =
          some ⟨k.inner, current ++ [x], done⟩ := by
        simp [Reader.next, Lex.next_inner hk, Lex.inner_ne_top]
      rw [Reader.read_cons, hnext, Option.bind_some, ih ht (current ++ [x])]
      simp

/-- The reader adds the text to the current statement and stands where it stood, in code
outside all brackets. -/
def Skipped (t : Text) : Prop :=
  ∀ current done, Reader.read ⟨.top, current, done⟩ t = some ⟨.top, current ++ t, done⟩

theorem Skipped.append (ht : Skipped t) (hu : Skipped u) : Skipped (t ++ u) := by
  intro current done
  rw [Reader.read_append, ht, Option.bind_some, hu, List.append_assoc]

theorem skipped_of_isInert (h : ∀ x ∈ t, isInert x = true ∧ x ≠ ';') : Skipped t := by
  intro current done
  induction t generalizing current with
  | nil => simp [Reader.read]
  | cons x t ih =>
      obtain ⟨hx, hne⟩ := h x (List.mem_cons_self ..)
      have hlex : Lex.top.next x = some .top := afterCode_of_isInert hx
      have hnext : Reader.next ⟨.top, current, done⟩ x = some ⟨.top, current ++ [x], done⟩ := by
        simp [Reader.next, hlex, hne]
      have htail := ih (fun y hy => h y (List.mem_cons_of_mem x hy)) (current ++ [x])
      rw [Reader.read_cons, hnext, Option.bind_some, htail]
      simp

theorem skipped_of_all (h : t.all (fun x => isInert x && x != ';') = true) : Skipped t := by
  apply skipped_of_isInert
  intro x hx
  simpa using List.all_eq_true.mp h x hx

theorem skipped_of_isBlank (h : ∀ x ∈ t, isBlank x = true) : Skipped t :=
  skipped_of_isInert fun x hx => isInert_of_isBlank (h x hx)

theorem skipped_natText (n : ℕ) : Skipped (natText n) :=
  skipped_of_isInert fun x hx => isInert_of_isDigit (isDigit_of_mem_natText n x hx)

/-- Brackets around something balanced. -/
theorem skipped_brackets {o e : Char} (ho : Lex.top.next o = some Lex.top.inner)
    (he : Lex.top.inner.next e = some .top) (hne : e ≠ ';') (ht : Balanced t) :
    Skipped (o :: (t ++ [e])) := by
  intro current done
  have hopen : Reader.next ⟨.top, current, done⟩ o =
      some ⟨Lex.top.inner, current ++ [o], done⟩ := by
    simp [Reader.next, ho, Lex.inner_ne_top]
  have hclose : Reader.read ⟨Lex.top.inner, current ++ [o] ++ t, done⟩ [e] =
      some ⟨.top, current ++ [o] ++ t ++ [e], done⟩ := by
    simp [Reader.read, Reader.next, he, hne]
  rw [Reader.read_cons, hopen, Option.bind_some, Reader.read_append,
    Reader.read_inner ht, Option.bind_some, hclose]
  simp

/-- A text that is skipped as a whole is one statement. -/
theorem statements_of_skipped (ht : Skipped t) (hne : ∃ x ∈ t, isBlank x = false) :
    statements t = some [t] := by
  have hread : Reader.start.read t = some ⟨.top, t, []⟩ := ht [] []
  simpa [statements, hread] using hne

/-- A text that leaves the reader inside something is no function body. -/
theorem readBody_eq_none (h : Lex.top.read t ≠ some .top) : readBody t = none := by
  have hnone : statements t = none := by
    cases hread : Reader.start.read t with
    | none => simp [statements, hread]
    | some r =>
        have hlex : r.lex ≠ .top := by
          intro htop
          have hlexread : Lex.top.read t = some r.lex := Reader.lex_read hread
          exact h (htop ▸ hlexread)
        simp [statements, hread, hlex]
  simp [readBody, hnone]

/-! ## The three kinds of function body -/

/-- The increment that the script appends to a line. -/
def pcInc : Text := "pc++;".toList

theorem read_pcInc {trailing : Text} (ht : ∀ x ∈ trailing, isBlank x = true) (done : List Text) :
    Reader.read ⟨.top, [], done⟩ (trailing ++ pcInc) =
      some ⟨.top, [], done ++ [trailing ++ pcInc]⟩ := by
  have hpc : Skipped "pc++".toList := skipped_of_all (by decide +kernel)
  have hskip : Skipped (trailing ++ "pc++".toList) := Skipped.append (skipped_of_isBlank ht) hpc
  have hend : ∀ current, Reader.read ⟨.top, current, done⟩ ";".toList =
      some ⟨.top, [], done ++ [current ++ ";".toList]⟩ := fun _ => rfl
  have heq : trailing ++ pcInc = (trailing ++ "pc++".toList) ++ ";".toList := by
    rw [List.append_assoc]
    rfl
  rw [heq, Reader.read_append, hskip, Option.bind_some, hend]
  simp

theorem classify_pcInc {trailing : Text} (ht : ∀ x ∈ trailing, isBlank x = true) :
    classify (trailing ++ pcInc) = some .incPc := by
  have hdrop : (trailing ++ pcInc).dropWhile isBlank = pcInc :=
    dropWhile_append_of_all ht (by decide)
  rw [classify, hdrop]
  rfl

/-- Increments behind plain statements. -/
theorem readBody_plain {segs : List Text} (hread : Reader.start.read t = some ⟨.top, [], segs⟩)
    (hplain : ∀ seg ∈ segs, classify seg = some (.plain seg)) {trailing : Text}
    (ht : ∀ x ∈ trailing, isBlank x = true) (n : ℕ) :
    readBody (t ++ (trailing ++ (pcInc ++ (List.replicate n pcInc).flatten))) =
      some (segs.map .plain ++ List.replicate (n + 1) .incPc) := by
  have hincs : ∀ n done, Reader.read ⟨.top, [], done⟩ (List.replicate n pcInc).flatten =
      some ⟨.top, [], done ++ List.replicate n pcInc⟩ := by
    intro n
    induction n with
    | zero =>
        intro done
        simp [Reader.read]
    | succ n ih =>
        intro done
        have hinc := read_pcInc (List.forall_mem_nil _) done
        rw [List.nil_append] at hinc
        rw [List.replicate_succ, List.flatten_cons, Reader.read_append, hinc, Option.bind_some, ih]
        simp
  have hmapM : (List.replicate n pcInc).mapM classify = some (List.replicate n .incPc) := by
    have hinc : ∀ seg ∈ List.replicate n pcInc, classify seg = some .incPc := by
      intro seg hseg
      rw [List.eq_of_mem_replicate hseg]
      exact classify_pcInc (List.forall_mem_nil _)
    simpa using mapM_eq_some hinc
  have hall : Reader.start.read (t ++ (trailing ++ (pcInc ++ (List.replicate n pcInc).flatten))) =
      some ⟨.top, [], segs ++ (trailing ++ pcInc) :: List.replicate n pcInc⟩ := by
    rw [Reader.read_append, hread, Option.bind_some, ← List.append_assoc, Reader.read_append,
      read_pcInc ht, Option.bind_some, hincs]
    simp
  simp [readBody, statements, hall, List.mapM_append, mapM_eq_some hplain, classify_pcInc ht, hmapM,
    List.replicate_succ]

/-- An assignment to `pc`. -/
def setText (id : Text) : Text := "    pc = ".toList ++ id ++ ";".toList

theorem read_setText (n : ℕ) :
    Reader.start.read (setText (natText n)) = some ⟨.top, [], [setText (natText n)]⟩ := by
  have hindent : Skipped "    pc = ".toList := skipped_of_all (by decide +kernel)
  have hskip : Skipped ("    pc = ".toList ++ natText n) :=
    Skipped.append hindent (skipped_natText n)
  have hstart : Reader.start.read ("    pc = ".toList ++ natText n) =
      some ⟨.top, "    pc = ".toList ++ natText n, []⟩ := hskip [] []
  unfold setText
  rw [Reader.read_append, hstart]
  rfl

theorem classify_setText (n : ℕ) : classify (setText (natText n)) = some (.setPc n) := by
  have hdrop : (setText (natText n)).dropWhile isBlank =
      "pc = ".toList ++ (natText n ++ ";".toList) := rfl
  have hset : readSet ("pc = ".toList ++ (natText n ++ ";".toList)) = some (.setPc n) := by
    have hnat : readNat (natText n ++ ";".toList) = some (n, ";".toList) :=
      readNat_natText (by decide)
    rw [readSet, strip_append, Option.bind_eq_bind, Option.bind_some, hnat]
    rfl
  have hinc : readInc ("pc = ".toList ++ (natText n ++ ";".toList)) = none := rfl
  rw [classify, hdrop, hset, hinc]
  rfl

theorem readBody_setText (n : ℕ) : readBody (setText (natText n)) = some [.setPc n] := by
  simp [readBody, statements, read_setText, classify_setText]

/-- A conditional assignment to `pc`, whose condition stands in the source. -/
def branchText (id : Text) : Text :=
  "\x7b pc =".toList ++ id ++ "; \x7d else \x7b pc++;\x7d".toList

/-- The bracket behind something balanced is the one that closes. -/
theorem readCond_append {l : Lex} (hc : l.read c = some .top) :
    readCond l (c ++ ')' :: rest) = some (c, rest) := by
  induction c generalizing l with
  | nil =>
      obtain rfl : l = .top := Option.some.inj hc
      rfl
  | cons x c ih =>
      obtain ⟨k, hk, hc⟩ := Option.bind_eq_some_iff.mp (Lex.read_cons ▸ hc)
      have hnot : ¬ (x = ')' ∧ l.depth = 0 ∧ (l.mode = .code ∨ l.mode = .slash)) := by
        rintro ⟨rfl, hdepth, hmode | hmode⟩
        · simp [Lex.next, hmode, hdepth, afterCode] at hk
        · simp [Lex.next, hmode, hdepth, afterCode] at hk
      rw [List.cons_append, readCond, if_neg hnot, hk]
      simp [ih hc]

theorem skipped_branchText {id : Text} (hid : ∀ x ∈ id, x.isDigit = true) :
    Skipped (branchText id) := by
  have hthen : Skipped ('\x7b' :: (" pc =".toList ++ id ++ "; ".toList ++ ['\x7d'])) := by
    refine skipped_brackets rfl rfl (by decide) ?_
    apply Balanced.append
    · apply Balanced.append
      · exact balanced_of_all (by decide +kernel)
      · exact balanced_of_isInert fun x hx => (isInert_of_isDigit (hid x hx)).1
    · exact balanced_of_all (by decide +kernel)
  have helse : Skipped " else ".toList := skipped_of_all (by decide +kernel)
  have hinc : Skipped ('\x7b' :: (" pc++;".toList ++ ['\x7d'])) :=
    skipped_brackets rfl rfl (by decide) (balanced_of_all (by decide +kernel))
  have heq : branchText id = '\x7b' :: (" pc =".toList ++ id ++ "; ".toList ++ ['\x7d']) ++
      " else ".toList ++ '\x7b' :: (" pc++;".toList ++ ['\x7d']) := by
    unfold branchText
    simp
  rw [heq]
  exact (hthen.append helse).append hinc

/-- A condition in brackets and what follows it. -/
def condText (gap₁ cond gap₂ rest : Text) : Text := gap₁ ++ '(' :: (cond ++ ')' :: (gap₂ ++ rest))

theorem readBranch_condText (hgap₁ : ∀ x ∈ gap₁, isBlank x = true) (hc : Balanced c)
    (hgap₂ : ∀ x ∈ gap₂, isBlank x = true) (n : ℕ) :
    readBranch ("if".toList ++ condText gap₁ c gap₂ (branchText (natText n))) =
      some (.branch c n) := by
  have hopen : (condText gap₁ c gap₂ (branchText (natText n))).dropWhile isBlank =
      "(".toList ++ (c ++ ')' :: (gap₂ ++ branchText (natText n))) :=
    dropWhile_append_of_all hgap₁ (by simp [isBlank])
  have hcond : readCond .top (c ++ ')' :: (gap₂ ++ branchText (natText n))) =
      some (c, gap₂ ++ branchText (natText n)) :=
    readCond_append hc
  have hbranch : (gap₂ ++ branchText (natText n)).dropWhile isBlank =
      "\x7b pc =".toList ++ (natText n ++ "; \x7d else \x7b pc++;\x7d".toList) := by
    have hbrace : (branchText (natText n)).head?.any isBlank = false := rfl
    rw [dropWhile_append_of_all hgap₂ hbrace]
    unfold branchText
    simp
  have hnat : readNat (natText n ++ "; \x7d else \x7b pc++;\x7d".toList) =
      some (n, "; \x7d else \x7b pc++;\x7d".toList) := readNat_natText (by decide)
  rw [readBranch, strip_append, Option.bind_eq_bind, Option.bind_some, hopen, strip_append,
    Option.bind_eq_bind, Option.bind_some, hcond, Option.bind_eq_bind, Option.bind_some]
  dsimp only
  rw [hbranch, strip_append, Option.bind_some, hnat]
  rfl

/-- The rewritten conditional jump is read as one. -/
theorem readBody_branch (hindent : ∀ x ∈ indent, isBlank x = true)
    (hgap₁ : ∀ x ∈ gap₁, isBlank x = true) (hc : Balanced c)
    (hgap₂ : ∀ x ∈ gap₂, isBlank x = true) (n : ℕ) :
    readBody (indent ++ ("if".toList ++ condText gap₁ c gap₂ (branchText (natText n)))) =
      some [.branch c n] := by
  have hskip :
      Skipped (indent ++ ("if".toList ++ condText gap₁ c gap₂ (branchText (natText n)))) := by
    have hif : Skipped "if".toList := skipped_of_all (by decide +kernel)
    have hcond : Skipped ('(' :: (c ++ [')'])) := skipped_brackets rfl rfl (by decide) hc
    have hrest : Skipped (condText gap₁ c gap₂ (branchText (natText n))) := by
      have hbranch := skipped_branchText (isDigit_of_mem_natText n)
      have hparts := (skipped_of_isBlank hgap₁).append
        (hcond.append ((skipped_of_isBlank hgap₂).append hbranch))
      simpa [condText] using hparts
    exact (skipped_of_isBlank hindent).append (hif.append hrest)
  have hstatements := statements_of_skipped hskip ⟨'i', by simp, by decide⟩
  have hclassify :
      classify (indent ++ ("if".toList ++ condText gap₁ c gap₂ (branchText (natText n)))) =
        some (.branch c n) := by
    have hdrop : (indent ++
        ("if".toList ++ condText gap₁ c gap₂ (branchText (natText n)))).dropWhile isBlank =
        "if".toList ++ condText gap₁ c gap₂ (branchText (natText n)) :=
      dropWhile_append_of_all hindent (by simp [isBlank])
    have hinc : readInc ("if".toList ++ condText gap₁ c gap₂ (branchText (natText n))) = none := rfl
    have hset : readSet ("if".toList ++ condText gap₁ c gap₂ (branchText (natText n))) = none := rfl
    rw [classify, hdrop, hinc, hset, readBranch_condText hgap₁ hc hgap₂ n]
    rfl
  rw [readBody, hstatements, Option.bind_eq_bind, Option.bind_some, List.mapM_cons, hclassify]
  rfl

/-! ## A condition cut short -/

/-- A character that may end a literal or a comment, or that hides such an end. -/
def isCloser (x : Char) : Bool := "\x22\x27\x5C*".toList.contains x

/-- A literal or a comment stays open over a text without the characters that end one. -/
theorem Lex.read_open {d : ℕ} {m : Mode} (hm : m = .str ∨ m = .chr ∨ m = .comment)
    (ht : ∀ x ∈ t, isCloser x = false) :
    Lex.read ⟨m, d⟩ t = some ⟨m, d⟩ := by
  induction t with
  | nil => rfl
  | cons x t ih =>
      have hx : isCloser x = false := ht x (List.mem_cons_self ..)
      simp only [isCloser, String.reduceToList, List.contains_eq_mem, List.mem_cons,
        List.not_mem_nil, or_false, decide_eq_false_iff_not, not_or] at hx
      have hnext : Lex.next ⟨m, d⟩ x = some ⟨m, d⟩ := by
        rcases hm with rfl | rfl | rfl <;> simp [Lex.next, hx]
      rw [Lex.read_cons, hnext]
      exact ih fun y hy => ht y (List.mem_cons_of_mem x hy)

theorem Skipped.balanced (h : Skipped t) : Balanced t := Reader.lex_read (h [] [])

theorem Balanced.read (h : Balanced t) (d : ℕ) : Lex.read ⟨.code, d⟩ t = some ⟨.code, d⟩ := by
  induction d with
  | zero => exact h
  | succ d ih => exact Lex.read_inner ih

theorem not_isCloser_of_mem_branchText {id : Text} (hid : ∀ x ∈ id, x.isDigit = true) :
    ∀ x ∈ branchText id, isCloser x = false := by
  have hthen : "\x7b pc =".toList.all (fun x => !isCloser x) = true := by decide +kernel
  have helse : "; \x7d else \x7b pc++;\x7d".toList.all (fun x => !isCloser x) = true := by
    decide +kernel
  intro x hx
  unfold branchText at hx
  rw [List.mem_append, List.mem_append] at hx
  rcases hx with (hx | hx) | hx
  · simpa using List.all_eq_true.mp hthen x hx
  · have hdigit : x.isDigit = true := hid x hx
    have hne : ∀ y : Char, y.isDigit = false → x ≠ y := by
      rintro y hy rfl
      simp [hdigit] at hy
    simp [isCloser, hne]
  · simpa using List.all_eq_true.mp helse x hx

/-- What the script appends closes nothing that was left open before it. -/
theorem Lex.read_branchText_ne_top {id : Text} (hid : ∀ x ∈ id, x.isDigit = true) (l : Lex) :
    l.inner.read (branchText id) ≠ some .top := by
  -- only the mode behind the first bracket matters
  have hfirst : ∀ k : Lex, k.next '\x7b' = l.inner.next '\x7b' →
      l.inner.read (branchText id) = k.read (branchText id) := by
    intro k hk
    have hcons : ∃ u, branchText id = '\x7b' :: u := ⟨_, rfl⟩
    obtain ⟨u, hu⟩ := hcons
    rw [hu, Lex.read_cons, Lex.read_cons, hk]
  have hopen : ∀ m, m = .str ∨ m = .chr ∨ m = .comment →
      Lex.next ⟨m, l.depth + 1⟩ '\x7b' = l.inner.next '\x7b' →
      l.inner.read (branchText id) ≠ some .top := by
    intro m hm hk
    rw [hfirst _ hk, Lex.read_open hm (not_isCloser_of_mem_branchText hid)]
    simp [Lex.top]
  have hcode : Lex.next ⟨.code, l.depth + 1⟩ '\x7b' = l.inner.next '\x7b' →
      l.inner.read (branchText id) ≠ some .top := by
    intro hk
    rw [hfirst _ hk, (skipped_branchText hid).balanced.read]
    simp [Lex.top]
  obtain ⟨mode, depth⟩ := l
  cases mode with
  | code | slash => exact hcode rfl
  | str | strEsc => exact hopen .str (.inl rfl) rfl
  | chr | chrEsc => exact hopen .chr (.inr (.inl rfl)) rfl
  | comment | commentStar => exact hopen .comment (.inr (.inr rfl)) rfl

/-- A condition that is cut short leaves its bracket open. -/
theorem readBody_cut {front : Text} {id : Text} (hfront : Skipped front) (hc : Balanced (c ++ u))
    (hid : ∀ x ∈ id, x.isDigit = true) :
    readBody (front ++ '(' :: (c ++ branchText id)) = none := by
  apply readBody_eq_none
  have hcu : (Lex.top.read c).bind (fun l => l.read u) = some .top := Lex.read_append ▸ hc
  obtain ⟨l, hl, -⟩ := Option.bind_eq_some_iff.mp hcu
  have hopen : Lex.top.next '(' = some Lex.top.inner := rfl
  have hread : Lex.top.inner.read c = some l.inner := Lex.read_inner hl
  rw [Lex.read_append, show Lex.top.read front = some .top from hfront.balanced, Option.bind_some,
    Lex.read_cons, hopen, Option.bind_some, Lex.read_append, hread, Option.bind_some]
  exact Lex.read_branchText_ne_top hid l

end Osh.Tasks
