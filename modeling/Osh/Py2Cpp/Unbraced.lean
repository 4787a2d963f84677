import Osh.Py2Cpp.Rewriting

/-!
# Tables without braces

If a file has no braces, then neither have the names and types that the analysis collects,
nor the head of a definition and the declarations that are put out with it.

## Main definitions

* `Tables.Unbraced`: no name and no type has braces.

## Main results

* `unbraced_analysis`: the tables that the analysis fills in.
* `braces_prototype`, `braces_declarations`: what is put out for a definition.
-/
namespace Osh.Py2Cpp
open Regex

/-- No name and no type has braces. -/
structure Tables.Unbraced (t : Tables) : Prop where
  args : ∀ func, ∀ d ∈ t.args func, braces d.1 = [] ∧ braces d.2 = []
  vars : ∀ func, ∀ d ∈ t.varDecls func, braces d.1 = [] ∧ braces d.2 = []

theorem Decls.mem_assign {ds : Decls} {x type : Text} {d : Text × Text}
    (h : d ∈ ds.assign x type) : d = (x, type) ∨ d ∈ ds := by
  induction ds with
  | nil => exact .inl (List.mem_singleton.mp h)
  | cons e ds ih =>
      rw [assign] at h
      split at h
      · rcases List.mem_cons.mp h with h | h
        · exact .inl h
        · exact .inr (List.mem_cons_of_mem e h)
      · rcases List.mem_cons.mp h with rfl | h
        · exact .inr (List.mem_cons_self ..)
        · exact (ih h).imp_right (List.mem_cons_of_mem e)

theorem mem_of_lookup {ds : Decls} {x type : Text} (h : ds.lookup x = some type) :
    (x, type) ∈ ds := by
  obtain ⟨before, after, rfl, -⟩ := List.lookup_eq_some_iff.mp h
  exact List.mem_append_right _ (List.mem_cons_self ..)

/-- The fields of a text are parts of it. -/
theorem subset_of_mem_fields {r : Regex} [Reads r] {n : ℕ} {t f : Text}
    (hf : f ∈ fields r n t) : f ⊆ t := by
  induction n generalizing t with
  | zero => exact List.mem_singleton.mp hf ▸ List.Subset.refl t
  | succ n ih =>
      rw [fields] at hf
      split at hf
      next => exact List.mem_singleton.mp hf ▸ List.Subset.refl t
      next before h hsearch =>
        rw [(reads_of_search hsearch).1]
        rcases List.mem_cons.mp hf with rfl | hf
        · exact List.subset_append_left ..
        · intro c hc
          exact List.mem_append_right _ (List.mem_append_right _ (ih hf hc))

theorem subset_of_mem_split {r : Regex} [Reads r] {t f : Text} (hf : f ∈ split r t) :
    f ⊆ t := by
  rw [split, List.mem_reverse] at hf
  have hmem : f ∈ fields r t.length t :=
    List.mem_reverse.mp ((List.dropWhile_sublist _).subset hf)
  exact subset_of_mem_fields hmem

section
variable {t : Tables} {func line x type : Text}

theorem unbraced_headD {groups : List Text} (h : ∀ g ∈ groups, braces g = []) :
    braces (groups.headD []) = [] ∧ braces (groups.tail.headD []) = [] := by
  constructor
  · cases hgroups : groups with
    | nil => rfl
    | cons g gs => exact h g (hgroups ▸ List.mem_cons_self ..)
  · cases hgroups : groups.tail with
    | nil => rfl
    | cons g gs => exact h g (List.mem_of_mem_tail (hgroups ▸ List.mem_cons_self ..))

namespace Tables

theorem Unbraced.assignVar (h : t.Unbraced) (hx : braces x = []) (htype : braces type = []) :
    (t.assignVar func x type).Unbraced := by
  refine ⟨h.args, fun func' d hd => ?_⟩
  rw [varDecls_assignVar] at hd
  split at hd
  · rcases Decls.mem_assign hd with rfl | hd
    · exact ⟨hx, htype⟩
    · exact h.vars func d hd
  · exact h.vars func' d hd

theorem Unbraced.setArgs (h : t.Unbraced) {ds : Decls}
    (hds : ∀ d ∈ ds, braces d.1 = [] ∧ braces d.2 = []) : (t.setArgs func ds).Unbraced := by
  refine ⟨fun func' d hd => ?_, h.vars⟩
  rw [args_setArgs] at hd
  split at hd
  · exact hds d hd
  · exact h.args func' d hd

theorem Unbraced.touch (h : t.Unbraced) : (t.touch func).Unbraced := h.setArgs (h.args func)

theorem Unbraced.touchUnless (h : t.Unbraced) (vars : List Text) :
    (t.touchUnless func vars).Unbraced := by
  rw [Tables.touchUnless]
  split
  · exact h
  · exact h.touch

theorem Unbraced.assignArg (h : t.Unbraced) (hx : braces x = []) (htype : braces type = []) :
    (t.assignArg func x type).Unbraced := by
  refine h.setArgs fun d hd => ?_
  rcases Decls.mem_assign hd with rfl | hd
  · exact ⟨hx, htype⟩
  · exact h.args func d hd

theorem Unbraced.typeOf (h : t.Unbraced) {default : Text → Text}
    (hdefault : braces (default x) = []) : braces (t.typeOf func default x) = [] := by
  rw [Tables.typeOf]
  split
  next type hvar => exact (h.vars func _ (mem_of_lookup hvar)).2
  next =>
    cases harg : (t.args func).lookup x with
    | none => exact hdefault
    | some type => exact (h.args func _ (mem_of_lookup harg)).2

theorem braces_intercalate {sep : Text} (hsep : braces sep = []) {ts : List Text}
    (hts : ∀ u ∈ ts, braces u = []) : braces (sep.intercalate ts) = [] := by
  induction ts with
  | nil => rfl
  | cons u ts ih =>
      have hu := hts u (List.mem_cons_self ..)
      have hrest := ih fun v hv => hts v (List.mem_cons_of_mem u hv)
      cases ts with
      | nil => simpa [List.intercalate] using hu
      | cons v ts =>
          rw [List.intercalate, List.intersperse_cons_cons, List.flatten_cons, List.flatten_cons,
            braces_append, braces_append, hu, hsep]
          exact hrest

theorem Unbraced.tupleType (h : t.Unbraced) {default : Text → Text} {vars : List Text}
    (hdefault : ∀ x ∈ vars, braces (default x) = []) :
    braces (t.tupleType func default vars) = [] := by
  have hvars : braces (",".toList.intercalate (vars.map (t.typeOf func default))) = [] := by
    refine braces_intercalate rfl fun u hu => ?_
    obtain ⟨x, hx, rfl⟩ := List.mem_map.mp hu
    exact h.typeOf (hdefault x hx)
  exact braces_append_eq_nil_iff.mpr ⟨rfl, braces_append_eq_nil_iff.mpr ⟨hvars, rfl⟩⟩

end Tables

theorem braces_importedModule {module : Text} (hline : braces line = [])
    (h : importedModule line = some module) : braces module = [] := by
  obtain ⟨⟨before, k⟩, hk, rfl⟩ := Option.map_eq_some_iff.mp h
  refine (unbraced_headD fun g hg => braces_eq_nil_of_subset ?_ hline).1
  cases hfrom : search fromPattern line with
  | none =>
      rw [hfrom] at hk
      exact subset_of_search hk hg
  | some found =>
      rw [hfrom] at hk
      obtain rfl : found = (before, k) := Option.some.inj hk
      exact subset_of_search hfrom hg

theorem braces_indentOf (hline : braces line = []) : braces (indentOf line) = [] := by
  rw [indentOf]
  split
  next h hmatch =>
    exact (unbraced_headD fun g hg =>
      braces_eq_nil_of_subset (subset_of_matchStart hmatch hg) hline).1
  next => rfl

/-! ## The analysis -/

variable {rhs var : Text}

end
/-! ## Functions -/

section
variable {t : Tables} {indent func argtup x line : Text}

theorem braces_declaration {ds : Decls} (hds : ∀ d ∈ ds, braces d.1 = [] ∧ braces d.2 = [])
    (hx : braces x = []) : braces (declaration ds x) = [] := by
  refine braces_append_eq_nil_iff.mpr ⟨?_, braces_append_eq_nil_iff.mpr ⟨rfl, hx⟩⟩
  cases hlookup : ds.lookup x with
  | none => rfl
  | some type => exact (hds _ (mem_of_lookup hlookup)).2

theorem braces_prototype (h : t.Unbraced) (hindent : braces indent = []) (hfunc : braces func = [])
    (hargtup : braces argtup = []) : braces (prototype t indent func argtup) = [] := by
  have htype : braces (((t.args func).lookup DEF).getD []) = [] := by
    cases hlookup : (t.args func).lookup DEF with
    | none => rfl
    | some type => exact (h.args func _ (mem_of_lookup hlookup)).2
  have hargs : braces (",".toList.intercalate ((split (lit ",".toList) argtup).map
      (declaration (t.args func)))) = [] := by
    refine Tables.braces_intercalate rfl fun u hu => ?_
    obtain ⟨x, hx, rfl⟩ := List.mem_map.mp hu
    exact braces_declaration (h.args func)
      (braces_eq_nil_of_subset (subset_of_mem_split hx) hargtup)
  rw [prototype]
  simp only [braces_append_eq_nil_iff]
  exact ⟨hindent, htype, rfl, hfunc, rfl, hargs, rfl⟩

theorem braces_declarations (h : t.Unbraced) (hindent : braces indent = []) :
    ∀ l ∈ declarations t indent func, braces l = [] := by
  intro l hl
  rcases List.mem_append.mp hl with hl | hl
  · obtain ⟨x, hx, rfl⟩ := List.mem_map.mp hl
    obtain ⟨d, hd, rfl⟩ := List.mem_map.mp
      ((List.perm_insertionSort _ _).mem_iff.mp (List.mem_filter.mp hx).1)
    simp only [braces_append_eq_nil_iff]
    exact ⟨hindent, rfl, braces_declaration (h.vars func) (h.vars func d hd).1, rfl⟩
  · obtain rfl := List.mem_singleton.mp hl
    exact braces_append_eq_nil_iff.mpr ⟨hindent, rfl⟩

/-- What a pattern reads before the brace at the end has no braces. -/
theorem braces_matched {h : Hit} (hline : EndsOpen line) (hread : line = h.matched ++ h.rest)
    (hlast : h.matched.getLast? ≠ some '{') : braces h.matched = [] := by
  obtain ⟨hbraces, hend⟩ := hline
  have hne : h.rest ≠ [] := by
    intro hnil
    rw [hread, hnil, List.append_nil] at hend
    exact hlast hend
  rw [hread, List.getLast?_append_of_ne_nil _ hne] at hend
  rw [hread, braces_append] at hbraces
  have hmem : '{' ∈ braces h.rest := List.mem_filter.mpr ⟨List.mem_of_getLast? hend, rfl⟩
  have hlength := congrArg List.length hbraces
  rw [List.length_append, List.length_singleton] at hlength
  have hpos := List.length_pos_of_mem hmem
  exact List.eq_nil_of_length_eq_zero (by omega)

theorem getLast?_of_defHead {h : Hit} (hmem : h ∈ defHeadPattern line) :
    h.matched.getLast? = some ')' := by
  have hseq : ∀ (r q : Regex), (∀ s, ∀ k ∈ q s, k.matched.getLast? = some ')') →
      ∀ s, ∀ k ∈ seq r q s, k.matched.getLast? = some ')' := by
    intro r q hq s k hk
    obtain ⟨a, -, b, hb, rfl⟩ := mem_seq_iff.mp hk
    rw [Hit.append, List.getLast?_append, hq a.rest b hb]
    rfl
  have hlit : ∀ s, ∀ k ∈ lit ")".toList s, k.matched.getLast? = some ')' := by
    intro s k hk
    rw [(mem_lit_iff.mp hk).2.1]
    rfl
  exact hseq _ _ (hseq _ _ (hseq _ _ (hseq _ _ (hseq _ _ (hseq _ _ hlit))))) line h hmem

/-- The name and the arguments in the head of a definition. -/
theorem unbraced_of_defHead (hline : EndsOpen line)
    (h : captures defHeadPattern line = some (func, argtup)) :
    braces func = [] ∧ braces argtup = [] := by
  obtain ⟨k, hk, heq⟩ := Option.map_eq_some_iff.mp h
  have hmem := mem_of_matchStart hk
  obtain ⟨hread, hgroups⟩ := Reads.reads line k hmem
  have hmatched := braces_matched hline hread (by simp [getLast?_of_defHead hmem])
  cases heq
  exact unbraced_headD fun g hg => braces_eq_nil_of_subset (hgroups g hg).subset hmatched

end
end Osh.Py2Cpp
