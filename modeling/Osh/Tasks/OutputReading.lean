import Osh.Tasks.MainReading

/-!
# The output, read

When the output for a list of tasks is a program: no condition is cut short, no two names of
tasks differ in the case of their letters only, and each variable has a name that is neither a
word of C nor declared twice, by the tasks or by the script itself.

## Main results

* `Declaration.readGlobal_line`: the name that a simple declaration declares.
* `wellFormed_iff`: what is asked of the names.
* `read_output_eq_some_iff`: when the output is a program, and which.
-/
namespace Osh.Tasks
open Regex

variable {t : Task} {ts : List Task} {task w rest : Text}

/-! ## What a compiler insists on -/

/-- Functions for different lines have different names. -/
theorem funcName_inj {task' : Text} {i j : ℕ} (h : funcName task i = funcName task' j) :
    task = task' ∧ i = j := by
  have hdigit : ∀ n, ∀ x ∈ (natText n).reverse, x.isDigit = true :=
    fun n x hx => isDigit_of_mem_natText n x (List.mem_reverse.mp hx)
  have hreverse := congrArg List.reverse h
  simp only [funcName, List.reverse_append, List.append_assoc] at hreverse
  obtain ⟨hnat, hname⟩ := append_inj_of_all hreverse (hdigit i) (hdigit j) rfl rfl
  have htask : task = task' := List.reverse_injective (List.append_cancel_left hname)
  subst htask
  exact ⟨rfl, funcName_injective task h⟩

theorem callLabel_ne_endLabel (a b : Text) : callLabel a ≠ endLabel b :=
  fun h => absurd (List.cons.inj h).1 (by decide)

/-- Two tasks have a label in common if their names differ in the case of letters at most. -/
theorem disjoint_labels_iff {a b : Text} :
    List.Disjoint [callLabel a, endLabel a] [callLabel b, endLabel b] ↔ uc a ≠ uc b := by
  constructor
  · intro hdisjoint heq
    refine hdisjoint (List.mem_cons_self ..) ?_
    rw [callLabel, callLabel, heq]
    exact List.mem_cons_self ..
  · intro hne
    have hcall : callLabel a ≠ callLabel b := fun h => hne (List.append_cancel_left h)
    have hend : endLabel a ≠ endLabel b := fun h => hne (List.append_cancel_left h)
    simp [hcall.symm, hend.symm, callLabel_ne_endLabel, (callLabel_ne_endLabel _ _).symm]

theorem labels_programOf (ts : List Task) : (programOf ts).labels =
    ts.flatMap fun t => [callLabel t.name, endLabel t.name] := by
  have hblock : ∀ t : Task, t.block.filterMap MainStmt.label? =
      [callLabel t.name, endLabel t.name] := by
    intro t
    have hentries : t.entries.filterMap MainStmt.label? = [] := by
      rw [Task.entries, List.filterMap_map, List.filterMap_eq_nil_iff]
      exact fun id _ => rfl
    rw [Task.block, List.filterMap_append, hentries]
    rfl
  have hblocks : (ts.flatMap Task.block).filterMap MainStmt.label? =
      ts.flatMap fun t => [callLabel t.name, endLabel t.name] := by
    rw [List.filterMap_flatMap]
    exact List.flatMap_congr fun t _ => hblock t
  rw [Program.labels, programOf, List.filterMap_append, List.filterMap_append, hblocks]
  exact List.append_nil _

theorem map_fst_funcs (t : Task) :
    t.generated.funcs.map Prod.fst = (List.range t.lines.length).map (funcName t.name) := by
  have hfst : t.generated.funcs.map Prod.fst =
      (t.lines.zipIdx.map Prod.snd).map (funcName t.name) := by
    rw [Task.generated, List.map_map, List.map_map]
    rfl
  rw [hfst, List.zipIdx_map_snd, List.range_eq_range']

theorem pairwise_uc_iff : (ts.map fun t => uc t.name).Nodup ↔
    ts.Pairwise fun t u => uc t.name ≠ uc u.name := List.pairwise_map

theorem nodup_labels_iff : (programOf ts).labels.Nodup ↔ (ts.map fun t => uc t.name).Nodup := by
  rw [labels_programOf, List.nodup_flatMap, pairwise_uc_iff]
  have hpair : ts.Pairwise (fun t u => uc t.name ≠ uc u.name) ↔ ts.Pairwise (Function.onFun
      List.Disjoint fun t => [callLabel t.name, endLabel t.name]) :=
    List.Pairwise.iff fun t u => disjoint_labels_iff.symm
  rw [hpair]
  refine and_iff_right fun t _ => ?_
  simpa using callLabel_ne_endLabel t.name t.name

theorem macros_programOf (ts : List Task) :
    (programOf ts).macros = ts.map fun t => ninstrsVar t.name := by
  rw [Program.macros, programOf, List.map_map]
  rfl

theorem nodup_macros (h : (ts.map fun t => uc t.name).Nodup) : (programOf ts).macros.Nodup := by
  have hmacros : (programOf ts).macros =
      (ts.map fun t => uc t.name).map ("NINSTRS_".toList ++ ·) := by
    rw [macros_programOf, List.map_map]
    rfl
  rw [hmacros]
  exact h.map fun a b hab => List.append_cancel_left hab

/-- A label does not begin like a macro. -/
theorem nodup_labels_append_macros (h : (ts.map fun t => uc t.name).Nodup) :
    ((programOf ts).labels ++ (programOf ts).macros).Nodup := by
  refine List.nodup_append.mpr ⟨nodup_labels_iff.mpr h, nodup_macros h, ?_⟩
  rw [labels_programOf, macros_programOf]
  rintro a ha b hb rfl
  obtain ⟨t, -, ha⟩ := List.mem_flatMap.mp ha
  obtain ⟨u, -, hb⟩ := List.mem_map.mp hb
  rcases List.mem_pair.mp ha with rfl | rfl
  · exact absurd (List.cons.inj hb).1 (by decide)
  · exact absurd (List.cons.inj hb).1 (by decide)

/-- A jump leads to a label of its own task. -/
theorem target_mem_labels : ∀ stmt ∈ (programOf ts).main, ∀ target ∈ stmt.target?,
    target ∈ (programOf ts).labels := by
  intro stmt hstmt target htarget
  rw [labels_programOf, List.mem_flatMap]
  rw [programOf, List.mem_append, List.mem_append, List.mem_flatMap] at hstmt
  rcases hstmt with (hstmt | ⟨t, ht, hstmt⟩) | hstmt
  · rcases List.mem_pair.mp hstmt with rfl | rfl <;> cases htarget
  · refine ⟨t, ht, ?_⟩
    rcases List.mem_append.mp hstmt with hentry | hloop
    · obtain ⟨id, -, rfl⟩ := List.mem_map.mp hentry
      cases htarget
    · simp only [Task.loop, List.mem_cons, List.not_mem_nil, or_false] at hloop
      rcases hloop with rfl | rfl | rfl | rfl | rfl | rfl <;> cases htarget <;> simp
  · obtain rfl := List.mem_singleton.mp hstmt
    cases htarget

/-! ## The names -/

theorem tables_programOf (ts : List Task) :
    (programOf ts).tables.map Prod.fst = ts.map fun t => instrsVar t.name := by
  rw [programOf, List.map_map]
  rfl

theorem funcs_programOf (ts : List Task) : (programOf ts).funcs.map Prod.fst =
    ts.flatMap fun t => (List.range t.lines.length).map (funcName t.name) := by
  rw [programOf, List.map_flatMap]
  exact List.flatMap_congr fun t _ => map_fst_funcs t

/-- No letter of ASCII is in lower case. -/
theorem not_isLower_of_mem_uc {t : Text} {x : Char} (hx : x ∈ uc t) : x.isLower = false := by
  have hbelow : ∀ n < 223, (n < 97 ∨ 122 < n) → (Char.ofNat n).isLower = false := by
    decide +kernel
  obtain ⟨c, -, hx⟩ := List.mem_flatMap.mp hx
  unfold ucChar at hx
  split_ifs at hx with hmicro hsharp hdots hletter
  · obtain rfl := List.mem_singleton.mp hx
    decide
  · simp only [List.mem_cons, List.not_mem_nil, or_false, or_self] at hx
    subst hx
    decide
  · obtain rfl := List.mem_singleton.mp hx
    decide
  · obtain rfl := List.mem_singleton.mp hx
    have hrange : 97 ≤ c.toNat ∧ c.toNat ≤ 122 ∨ 224 ≤ c.toNat ∧ c.toNat ≤ 254 := by
      refine hletter.imp toNat_of_isLower fun ⟨hlow, hhigh, _⟩ => ?_
      exact ⟨UInt32.le_iff_toNat_le.mp hlow, UInt32.le_iff_toNat_le.mp hhigh⟩
    exact hbelow _ (by omega) (by omega)
  · obtain rfl := List.mem_singleton.mp hx
    simpa using fun h => hletter (.inl h)

/-- A macro is in upper case: it is no name that has a letter in lower case. -/
theorem not_mem_macros {name : Text} {c : Char} (hc : c ∈ name) (hlower : c.isLower = true) :
    name ∉ (programOf ts).macros := by
  rw [macros_programOf, List.mem_map]
  rintro ⟨t, -, rfl⟩
  rcases List.mem_append.mp hc with hc | hc
  · have hall : ("NINSTRS_".toList.all fun x => !x.isLower) = true := by decide
    have hupper := List.all_eq_true.mp hall c hc
    rw [hlower] at hupper
    cases hupper
  · rw [not_isLower_of_mem_uc hc] at hlower
    cases hlower

theorem nodup_names_of_uc (h : (ts.map fun t => uc t.name).Nodup) :
    (ts.map Task.name).Nodup := by
  have hmap : (ts.map fun t => uc t.name) = (ts.map Task.name).map uc := by
    rw [List.map_map]
    rfl
  rw [hmap] at h
  exact h.of_map _

theorem nodup_tables (h : (ts.map fun t => uc t.name).Nodup) :
    ((programOf ts).tables.map Prod.fst).Nodup := by
  have hmap : (ts.map fun t => instrsVar t.name) = (ts.map Task.name).map instrsVar := by
    rw [List.map_map]
    rfl
  rw [tables_programOf, hmap]
  exact (nodup_names_of_uc h).map fun a b hab => List.append_cancel_right hab

theorem nodup_funcs (h : (ts.map fun t => uc t.name).Nodup) :
    ((programOf ts).funcs.map Prod.fst).Nodup := by
  rw [funcs_programOf, List.nodup_flatMap]
  refine ⟨fun t _ => List.nodup_range.map (funcName_injective t.name), ?_⟩
  refine (pairwise_uc_iff.mp h).imp fun {t u} hne => ?_
  intro x hx hx'
  obtain ⟨i, -, rfl⟩ := List.mem_map.mp hx
  obtain ⟨j, -, hj⟩ := List.mem_map.mp hx'
  exact hne (by rw [(funcName_inj hj).1])

/-- The name of a table ends with a letter, and has one in lower case. -/
theorem of_mem_tables {name : Text} (h : name ∈ (programOf ts).tables.map Prod.fst) :
    name.getLast? = some 's' ∧ name ∉ (programOf ts).macros := by
  rw [tables_programOf] at h
  obtain ⟨t, -, rfl⟩ := List.mem_map.mp h
  refine ⟨?_, not_mem_macros (c := 's') (List.mem_append_right _ (by decide)) (by decide)⟩
  rw [instrsVar, List.getLast?_append]
  rfl

/-- The name of a function ends with a digit, and has a letter in lower case. -/
theorem of_mem_funcs {name : Text} (h : name ∈ (programOf ts).funcs.map Prod.fst) :
    (∃ c, name.getLast? = some c ∧ c.isDigit = true) ∧ name ∉ (programOf ts).macros := by
  rw [funcs_programOf] at h
  obtain ⟨t, -, h⟩ := List.mem_flatMap.mp h
  obtain ⟨id, -, rfl⟩ := List.mem_map.mp h
  have hne : natText id ≠ [] := Nat.toDigits_ne_nil
  refine ⟨⟨(natText id).getLast hne, ?_, isDigit_of_mem_natText id _ (List.getLast_mem hne)⟩,
    not_mem_macros (c := 'l') ?_ (by decide)⟩
  · rw [funcName, List.getLast?_append, List.getLast?_eq_some_getLast hne]
    rfl
  · exact List.mem_append_left _ (List.mem_append_right _ (by decide))

/-- What the script defines has names of its own. -/
theorem nodup_generatedNames (h : (ts.map fun t => uc t.name).Nodup) :
    (programOf ts).generatedNames.Nodup := by
  have hdigit : ('s').isDigit = false := rfl
  have htables : ((programOf ts).tables.map Prod.fst ++
      (programOf ts).funcs.map Prod.fst).Nodup := by
    refine List.nodup_append.mpr ⟨nodup_tables h, nodup_funcs h, ?_⟩
    rintro a ha b hb rfl
    obtain ⟨⟨c, hc, hcdigit⟩, -⟩ := of_mem_funcs hb
    rw [(of_mem_tables ha).1] at hc
    obtain rfl := Option.some.inj hc
    rw [hdigit] at hcdigit
    cases hcdigit
  have hmacros : ((programOf ts).macros ++ ((programOf ts).tables.map Prod.fst ++
      (programOf ts).funcs.map Prod.fst)).Nodup := by
    refine List.nodup_append.mpr ⟨nodup_macros h, htables, ?_⟩
    rintro a ha b hb rfl
    rcases List.mem_append.mp hb with hb | hb
    · exact (of_mem_tables hb).2 ha
    · exact (of_mem_funcs hb).2 ha
  refine List.nodup_append.mpr ⟨by decide, hmacros, ?_⟩
  -- the names of `main` and its variables end with other letters, in lower case
  have hends : ∀ a ∈ ["pc".toList, "system_timer".toList, "blocking_timer".toList,
      "main".toList], ∃ c ∈ a, a.getLast? = some c ∧ c ≠ 's' ∧ c.isDigit = false ∧
        c.isLower = true := by
    simp only [List.forall_mem_cons, List.not_mem_nil, false_implies, implies_true, and_true]
    exact ⟨⟨'c', by decide, rfl, by decide, rfl, rfl⟩, ⟨'r', by decide, rfl, by decide, rfl, rfl⟩,
      ⟨'r', by decide, rfl, by decide, rfl, rfl⟩, ⟨'n', by decide, rfl, by decide, rfl, rfl⟩⟩
  rintro a ha b hb rfl
  obtain ⟨c, hmem, hc, hs, hcdigit, hlower⟩ := hends a ha
  rcases List.mem_append.mp hb with hb | hb
  · exact not_mem_macros hmem hlower hb
  rcases List.mem_append.mp hb with hb | hb
  · rw [(of_mem_tables hb).1] at hc
    exact hs (Option.some.inj hc).symm
  · obtain ⟨⟨d, hd, hd'⟩, -⟩ := of_mem_funcs hb
    rw [hc] at hd
    obtain rfl := Option.some.inj hd
    rw [hcdigit] at hd'
    cases hd'

/-- **When there is a program**: no two names of tasks differ in the case of letters at most, and
the variables have names of their own. -/
theorem wellFormed_iff (globals : List Text) :
    ({ programOf ts with globals } : Program).WellFormed ↔ (ts.map fun t => uc t.name).Nodup ∧
      globals.Nodup ∧ ∀ name ∈ globals, IsIdentifier name ∧ name ∉ keywords ∧
        name ∉ (programOf ts).generatedNames := by
  constructor
  · intro h
    obtain ⟨hglobals, -, hdisjoint⟩ := List.nodup_append.mp h.names
    refine ⟨nodup_labels_iff.mp (List.nodup_append.mp h.labels).1, hglobals, fun name hname => ?_⟩
    obtain ⟨hident, hkeyword⟩ := h.globals name hname
    exact ⟨hident, hkeyword, fun hmem => hdisjoint name hname name hmem rfl⟩
  · rintro ⟨hnames, hglobals, hown⟩
    refine ⟨nodup_labels_append_macros hnames, ?_, ?_, target_mem_labels⟩
    · refine List.nodup_append.mpr ⟨hglobals, nodup_generatedNames hnames, ?_⟩
      rintro name hname _ hmem rfl
      exact (hown name hname).2.2 hmem
    · exact fun name hname => ⟨(hown name hname).1, (hown name hname).2.1⟩

/-! ## The output -/

variable (outside : List Text) (globals : List Global)

theorem main_output : (outputOf outside globals ts).main =
    ["    system_timer=0;".toList, "    blocking_timer=0;".toList] ++
      (ts.flatMap fun t => generateTaskCode t.name t.source) ++ ["    return 0;".toList] := by
  have hblocks : ((ts.map fun t => (t.name, t.source)).flatMap fun x => generateTaskCode x.1 x.2) =
      ts.flatMap fun t => generateTaskCode t.name t.source := List.flatMap_map ..
  rw [← hblocks]
  rfl

theorem readMain_output (hident : ∀ t ∈ ts, IsIdentifier t.name) :
    readAll readMainLine (outputOf outside globals ts).main = some (programOf ts).main := by
  have hstart : readAll readMainLine
      ["    system_timer=0;".toList, "    blocking_timer=0;".toList] =
        some [.assign "system_timer".toList 0, .assign "blocking_timer".toList 0] := rfl
  have hret : readAll readMainLine ["    return 0;".toList] = some [.ret] := rfl
  have hblocks : readAll readMainLine (ts.flatMap fun t => generateTaskCode t.name t.source) =
      some (ts.flatMap Task.block) :=
    readAll_flatMap fun t ht => read_generateTaskCode (hident t ht)
  rw [main_output]
  exact readAll_append (readAll_append hstart hblocks) hret

theorem readDeclarations_output (hident : ∀ t ∈ ts, IsIdentifier t.name) :
    (outputOf outside globals ts).declarations.filterMap readDefine = (programOf ts).defines ∧
      (outputOf outside globals ts).declarations.filterMap readTable = (programOf ts).tables := by
  have hlines : (outputOf outside globals ts).declarations =
      ts.flatMap fun t => declarations t.name t.source := List.flatMap_map ..
  have hdefines : (programOf ts).defines =
      ts.flatMap fun t => [(ninstrsVar t.name, t.lines.length)] := List.map_eq_flatMap ..
  have htables : (programOf ts).tables =
      ts.flatMap fun t => [(instrsVar t.name, ninstrsVar t.name)] := List.map_eq_flatMap ..
  rw [hlines, List.filterMap_flatMap, List.filterMap_flatMap, hdefines, htables]
  constructor
  · refine List.flatMap_congr fun t ht => ?_
    rw [readDefine_declarations (hident t ht), length_source]
  · exact List.flatMap_congr fun t ht => readTable_declarations t.isName (hident t ht) _

theorem functions_output : (outputOf outside globals ts).functions =
    ts.flatMap fun t => functionDefinitions t.name t.source := List.flatMap_map ..

/-! ## The declarations -/

/-- The name of the variable of a global declaration. -/
def Global.name (g : Global) : Text := g.var.takeWhile isWord

/-- The names of the global declarations, in the order in which they are printed. -/
def globalNames (globals : List Global) : List Text := (sortedGlobals globals).map Global.name

/-- A newline at the end is behind the semicolon. -/
theorem chomp_append_cons (front : Text) {c : Char} (hc : c ≠ '\n') (trailing : Text) :
    chomp (front ++ c :: trailing) = front ++ c :: chomp trailing := by
  by_cases hnil : trailing = []
  · subst hnil
    simp [chomp, hc]
  · have hlast : (front ++ c :: trailing).getLast? = trailing.getLast? := by
      rw [List.getLast?_append_of_ne_nil _ (List.cons_ne_nil c trailing),
        List.getLast?_cons_of_ne_nil hnil]
    have hdrop : (front ++ c :: trailing).dropLast = front ++ c :: trailing.dropLast := by
      rw [List.dropLast_append_cons, List.dropLast_cons_of_ne_nil hnil]
    rw [chomp, chomp, hlast, hdrop]
    split <;> rfl

/-- Behind the name there is a size, or nothing. -/
theorem Declaration.readDeclarator_size {d : Declaration} (h : d.IsSimple) (trailing : Text) :
    ∃ size, d.var = d.name ++ size ∧
      (size ++ (d.gap' ++ ';' :: trailing)).head?.any isWord = false ∧
      readDeclarator ((size ++ (d.gap' ++ ';' :: trailing)).dropWhile isBlank) =
        some (';' :: trailing) := by
  have hgap : (d.gap' ++ ';' :: trailing).dropWhile isBlank = ';' :: trailing :=
    dropWhile_append_of_all d.blank_gap' rfl
  cases hsize : d.size with
  | none =>
      refine ⟨[], by simp [DeclarationText.var, hsize], ?_, ?_⟩
      · cases hgap' : d.gap' with
        | nil => rfl
        | cons c gap =>
            exact isWord_of_isBlank (d.blank_gap' c (hgap' ▸ List.mem_cons_self ..))
      · rw [List.nil_append, hgap]
        rfl
  | some p =>
      obtain ⟨hnil, hword⟩ := h p hsize
      refine ⟨'[' :: (p.2 ++ [']']), by simp [DeclarationText.var, hsize, hnil], rfl, ?_⟩
      have hrest : '[' :: (p.2 ++ [']']) ++ (d.gap' ++ ';' :: trailing) =
          "[".toList ++ (p.2 ++ ("]".toList ++ (d.gap' ++ ';' :: trailing))) := by simp
      have hopen : ("[".toList ++ (p.2 ++ ("]".toList ++ (d.gap' ++ ';' :: trailing)))).dropWhile
          isBlank = "[".toList ++ (p.2 ++ ("]".toList ++ (d.gap' ++ ';' :: trailing))) := rfl
      have hclose : (p.2 ++ ("]".toList ++ (d.gap' ++ ';' :: trailing))).dropWhile (· ≠ ']') =
          "]".toList ++ (d.gap' ++ ';' :: trailing) := by
        refine dropWhile_append_of_all (fun x hx => decide_eq_true ?_) rfl
        rintro rfl
        exact absurd (hword _ hx) (by decide)
      rw [hrest, hopen, readDeclarator, strip_append]
      dsimp only
      rw [hclose, strip_append, Option.map_some, hgap]

/-- The global declaration declares the name. -/
theorem Declaration.readGlobal_line {d : Declaration} (h : d.IsSimple) :
    readGlobal d.globalLine = some [d.name] := by
  obtain ⟨size, hvar, hhead, hsize⟩ := d.readDeclarator_size h (chomp d.trailing)
  have hline : d.globalLine = "    static ".toList ++ (d.indent ++ (d.type.text ++ (d.gap ++
      (d.name ++ (size ++ (d.gap' ++ ';' :: chomp d.trailing)))))) := by
    have hsemi : ';' ≠ '\n' := by decide
    unfold globalLine
    rw [d.line_eq, chomp_append_cons _ hsemi, hvar]
    simp
  obtain ⟨c, cs, hgap⟩ := List.exists_cons_of_ne_nil d.gap_ne_nil
  have hgaphead : (d.gap ++ (d.name ++ (size ++ (d.gap' ++ ';' :: chomp d.trailing)))).head?.any
      isWord = false := by
    rw [hgap]
    exact isWord_of_isBlank (d.blank_gap c (hgap ▸ List.mem_cons_self ..))
  have htypehead : (d.type.text ++ (d.gap ++ (d.name ++ (size ++ (d.gap' ++
      ';' :: chomp d.trailing))))).head?.any isBlank = false := by
    cases d.type <;> rfl
  have hnamehead : (d.name ++ (size ++ (d.gap' ++ ';' :: chomp d.trailing))).head?.any isBlank =
      false := by
    obtain ⟨x, xs, hname⟩ := List.exists_cons_of_ne_nil d.isName.1
    rw [hname]
    exact not_isBlank_of_isWord (d.isName.2 x (hname ▸ List.mem_cons_self ..))
  have htype : ([CType.int, .float, .char, .long, .double].any
      fun type => type.text = d.type.text) = true := by
    cases d.type <;> rfl
  have htrailing : (chomp d.trailing).all isBlank = true := List.all_eq_true.mpr d.blank_trailing
  unfold readGlobal
  rw [hline, strip_append, Option.bind_eq_bind, Option.bind_some]
  dsimp only
  rw [dropWhile_append_of_all d.blank_indent htypehead,
    takeWhile_append_of_all d.type.isWord_text hgaphead,
    dropWhile_append_of_all d.type.isWord_text hgaphead,
    dropWhile_append_of_all d.blank_gap hnamehead, takeWhile_append_of_all d.isName.2 hhead,
    dropWhile_append_of_all d.isName.2 hhead, if_pos htype, hsize]
  have hsemi : strip ";".toList (';' :: chomp d.trailing) = some (chomp d.trailing) :=
    strip_append (w := [';'])
  rw [Option.bind_some, hsemi, Option.bind_some, if_pos htrailing]

/-! ## The program -/

/-- The names of the declarations are read. -/
def Readable (globals : List Global) : Prop := ∀ g ∈ globals, readGlobal g.line = some [g.name]

/-- Where no condition is cut short, what is read is the program that it should be, with the
variables that are read. -/
theorem read_output (hident : ∀ t ∈ ts, IsIdentifier t.name)
    (hcond : ∀ t ∈ ts, ∀ l ∈ t.lines, ¬ l.stmt.MentionsGoto) :
    (outputOf outside globals ts).read =
      (readAll readGlobal (outputOf outside globals ts).globals).bind fun names =>
        if ({ programOf ts with globals := names } : Program).WellFormed then
          some { programOf ts with globals := names }
        else none := by
  have hfuncs : readAll readFunctionLine (outputOf outside globals ts).functions =
      some (programOf ts).funcs := by
    rw [functions_output]
    exact readAll_flatMap fun t ht => read_functionDefinitions (hcond t ht)
  obtain ⟨hdefines, htables⟩ := readDeclarations_output outside globals hident
  unfold Output.read
  rw [readMain_output outside globals hident, hfuncs, hdefines, htables]
  rfl

/-- Where a condition is cut short the function for that line is none. -/
theorem exists_readFunc_eq_none {l : Line} (hl : l ∈ t.lines) (hcond : l.stmt.MentionsGoto) :
    ∃ func ∈ perLineFunctions t.name t.source, readFunc func = none := by
  by_contra hnone
  push Not at hnone
  have hsome : (perLineFunctions t.name t.source).mapM readFunc =
      some ((perLineFunctions t.name t.source).map fun func => (readFunc func).getD ([], [])) := by
    refine mapM_eq_some fun func hfunc => ?_
    obtain ⟨f, hf⟩ := Option.ne_none_iff_exists'.mp (hnone func hfunc)
    rw [hf]
    rfl
  have htable : (taskInstrs t.name t.source).mapM (readEntry t.name) =
      some ((List.range t.lines.length).map fun id => (id, funcName t.name id)) := by
    rw [taskInstrs, length_source, List.mapM_map]
    exact mapM_eq_some fun id _ => readEntry_tableEntry t.isName id
  have hcompile := Task.compile_eq_none hl hcond
  rw [compile, htable, hsome] at hcompile
  cases hcompile

/-- And the output is no program. -/
theorem read_output_eq_none {l : Line} (ht : t ∈ ts) (hl : l ∈ t.lines)
    (hcond : l.stmt.MentionsGoto) : (outputOf outside globals ts).read = none := by
  obtain ⟨func, hmem, hfunc⟩ := exists_readFunc_eq_none hl hcond
  have hline : readFunctionLine func = none := by
    obtain ⟨⟨line, id⟩, -, rfl⟩ := List.mem_map.mp hmem
    rw [readFunctionLine_makeFunc, hfunc]
    rfl
  have hfuncs : readAll readFunctionLine (outputOf outside globals ts).functions = none := by
    have hall : func ∈ (outputOf outside globals ts).functions := by
      rw [functions_output]
      exact List.mem_flatMap.mpr ⟨t, ht, List.mem_cons_of_mem _ hmem⟩
    rw [readAll, mapM_eq_none hall hline]
    rfl
  unfold Output.read
  rw [hfuncs]
  cases readAll readGlobal (outputOf outside globals ts).globals with
  | none => rfl
  | some names => cases readAll readMainLine (outputOf outside globals ts).main <;> rfl

/-- What is read as a program is the one that it should be, but for the variables. -/
theorem of_read_output (hident : ∀ t ∈ ts, IsIdentifier t.name) {p : Program}
    (hread : (outputOf outside globals ts).read = some p) :
    (∀ t ∈ ts, ∀ l ∈ t.lines, ¬ l.stmt.MentionsGoto) ∧ p.WellFormed ∧
      ∃ names, p = { programOf ts with globals := names } := by
  have hcond : ∀ t ∈ ts, ∀ l ∈ t.lines, ¬ l.stmt.MentionsGoto := by
    intro t ht l hl hmentions
    rw [read_output_eq_none outside globals ht hl hmentions] at hread
    cases hread
  rw [read_output outside globals hident hcond] at hread
  obtain ⟨names, -, hread⟩ := Option.bind_eq_some_iff.mp hread
  obtain ⟨hwellFormed, heq⟩ := Option.ite_none_right_eq_some.mp hread
  obtain rfl := Option.some.inj heq
  exact ⟨hcond, hwellFormed, names, rfl⟩

/-- **The output, read**: it is a program if and only if no condition is cut short, no two
names of tasks differ in the case of letters only and the variables have names of their own, and
then it is the one that it should be. -/
theorem read_output_eq_some_iff (hident : ∀ t ∈ ts, IsIdentifier t.name)
    (hglobals : Readable globals) {p : Program} :
    (outputOf outside globals ts).read = some p ↔
      ((∀ t ∈ ts, ∀ l ∈ t.lines, ¬ l.stmt.MentionsGoto) ∧ (ts.map fun t => uc t.name).Nodup ∧
        (globalNames globals).Nodup ∧ ∀ name ∈ globalNames globals,
          IsIdentifier name ∧ name ∉ keywords ∧ name ∉ (programOf ts).generatedNames) ∧
        p = { programOf ts with globals := globalNames globals } := by
  have hnames : readAll readGlobal (outputOf outside globals ts).globals =
      some (globalNames globals) :=
    readAll_map fun g hg => hglobals g ((List.mem_insertionSort _).mp hg)
  by_cases hcond : ∀ t ∈ ts, ∀ l ∈ t.lines, ¬ l.stmt.MentionsGoto
  · rw [read_output outside globals hident hcond, hnames, Option.bind_some,
      Option.ite_none_right_eq_some, wellFormed_iff, Option.some.injEq, and_iff_right hcond,
      eq_comm]
  · exact iff_of_false (fun hread => hcond (of_read_output outside globals hident hread).1)
      fun h => hcond h.1.1

end Osh.Tasks
