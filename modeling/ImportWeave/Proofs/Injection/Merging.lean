import ImportWeave.Injection
import ImportWeave.Proofs.Grouping
import ImportWeave.Proofs.Text.Trimming
import Mathlib.Data.List.Basic

/-! # Names added to existing statements

A declaration goes into the first live statement that imports names in braces from its module. Each
statement that takes declarations takes all of them in one block, in the order in which they came. -/

namespace ImportWeave

/-- The brace that opens the names of a statement comes behind its keyword, with nothing but white space
in front of them and between them. -/
theorem StaticImport.openingBrace?_eq_some_iff {code : String} {brace : Nat} :
    openingBrace? code = some brace ↔
      ∃ blank gap rest, code.toList = blank ++ "import".toList ++ gap ++ '\x7b' :: rest ∧
        blank.all Text.isSpace = true ∧ gap.all Text.isSpace = true ∧
        brace = Text.byteLength (blank ++ "import".toList ++ gap ++ ['\x7b']) := by
  have offset (front rest : List Char) :
      Text.byteLength (front ++ '\x7b' :: rest) - Text.byteLength rest =
        Text.byteLength (front ++ ['\x7b']) := by
    simp only [Text.byteLength_append, Text.byteLength_cons, Text.byteLength_nil]
    omega
  simp only [openingBrace?, Option.bind_eq_bind, Option.bind_eq_some_iff]
  constructor
  · rintro ⟨afterImport, word, h⟩
    obtain ⟨blank, front, hblank⟩ := Text.exists_trimStart code.toList
    obtain ⟨gap, behind, hgap⟩ := Text.exists_trimStart afterImport
    split at h
    · next rest opening =>
        rw [← List.append_eq_of_isPrefixOf?_eq_some word, behind, opening] at front
        have text : code.toList = blank ++ "import".toList ++ gap ++ '\x7b' :: rest := by
          simpa using front
        refine ⟨blank, gap, rest, text, hblank, hgap, ?_⟩
        rw [← Option.some.inj h, text, offset]
    · cases h
  · rintro ⟨blank, gap, rest, text, hblank, hgap, rfl⟩
    have start : Text.trimStart code.toList = "import".toList ++ (gap ++ '\x7b' :: rest) := by
      rw [text, List.append_assoc, List.append_assoc, Text.trimStart_append_of_all hblank]
      rfl
    have opening : Text.trimStart (gap ++ '\x7b' :: rest) = '\x7b' :: rest :=
      Text.trimStart_append_of_all hgap _
    refine ⟨gap ++ '\x7b' :: rest, ?_, ?_⟩
    · rw [start, List.isPrefixOf?_eq_some_iff_append_eq]
    · simp only [opening]
      rw [text, offset]

namespace Merge

/-- The names as they are written, before they are put together. -/
def names (m : Merge) : List String := m.declarations.map fun d => d.binding.render .esm

/-- A comma and a space after each name, or between the names and at the end: there is no difference. -/
theorem flatMap_separated (separator : List Char) (texts : List (List Char)) (h : texts ≠ []) :
    texts.flatMap (· ++ separator) = separator.intercalate texts ++ separator := by
  induction texts with
  | nil => exact absurd rfl h
  | cons text texts ih =>
      cases texts with
      | nil => simp [List.intercalate]
      | cons text' texts =>
          rw [List.flatMap_cons, ih (List.cons_ne_nil _ _)]
          simp [List.intercalate]

/-- The block is a space, the names with commas between them, and a last comma. White space in front of
the first name is not written. -/
theorem text_eq (m : Merge) (h : m.declarations ≠ []) :
    m.text = " " ++ String.ofList (Text.trimStart (", ".intercalate m.names).toList) ++ "," := by
  have names : (m.declarations.flatMap fun d => (d.binding.render .esm ++ ", ").toList) =
      (", ".intercalate m.names).toList ++ [',', ' '] := by
    rw [String.toList_intercalate]
    have := flatMap_separated [',', ' '] (m.names.map String.toList) (by simpa [Merge.names] using h)
    simpa [Merge.names, List.flatMap_map] using this
  apply String.toList_inj.mp
  rw [text, names, Text.trim, Text.trimStart_append_cons (by decide),
    Text.trimEnd_append_cons_space (by decide) (by decide)]
  simp

end Merge

namespace MergePlan

/-- The first statement that takes names of this module, with its position or without. -/
theorem find?_zipIdx (f : StaticImport → Bool) (imports : List StaticImport) :
    (imports.zipIdx.find? fun (i, _) => f i).map Prod.fst = imports.find? f := by
  conv_rhs => rw [← List.zipIdx_map_fst 0 imports]
  rw [List.find?_map]
  rfl

/-- A declaration that can be merged goes to the first statement of its module with names in braces. -/
theorem target?_map_fst (includeTypes : Bool) (imports : List StaticImport) (d : Declaration) :
    (target? includeTypes imports d).map Prod.fst =
      if isMergeable includeTypes d then
        imports.find? fun i => i.specifier == d.specifier && i.hasNamedBrace
      else none := by
  rw [target?]
  split
  · exact find?_zipIdx (fun i => i.specifier == d.specifier && i.hasNamedBrace) imports
  · rfl

theorem isMergeable_of_target? {includeTypes : Bool} {imports : List StaticImport} {d : Declaration}
    {t : StaticImport × Nat} (h : target? includeTypes imports d = some t) :
    isMergeable includeTypes d = true := by
  by_contra hd
  rw [target?, if_neg hd] at h
  cases h

theorem find?_of_target? {includeTypes : Bool} {imports : List StaticImport} {d : Declaration}
    {i : StaticImport} {n : Nat} (h : target? includeTypes imports d = some (i, n)) :
    imports.find? (fun i => i.specifier == d.specifier && i.hasNamedBrace) = some i := by
  have found := target?_map_fst includeTypes imports d
  rw [h, if_pos (isMergeable_of_target? h)] at found
  exact found.symm

theorem specifier_of_target? {includeTypes : Bool} {imports : List StaticImport} {d : Declaration}
    {i : StaticImport} {n : Nat} (h : target? includeTypes imports d = some (i, n)) :
    i.specifier = d.specifier := by
  have takes := List.find?_some (find?_of_target? h)
  rw [Bool.and_eq_true, beq_iff_eq] at takes
  exact takes.1

/-- Whether a declaration is merged depends on itself, but where to depends on its module alone. -/
theorem target?_congr {includeTypes : Bool} {imports : List StaticImport} {d e : Declaration}
    (hd : isMergeable includeTypes d = true) (he : isMergeable includeTypes e = true)
    (h : d.specifier = e.specifier) :
    target? includeTypes imports d = target? includeTypes imports e := by
  rw [target?, target?, if_pos hd, if_pos he, h]

theorem groups_eq_collect (includeTypes : Bool) (imports : List StaticImport)
    (ds : List Declaration) :
    groups includeTypes imports ds = Keyed.collect (target? includeTypes imports) ds := by
  unfold groups Keyed.collect
  congr 1
  funext groups d
  cases target? includeTypes imports d <;> rfl

/-- A group of the plan: its statement, and the declarations that go there. -/
theorem mem_groups_iff {includeTypes : Bool} {imports : List StaticImport} {ds : List Declaration}
    {t : StaticImport × Nat} {group : List Declaration} :
    (t, group) ∈ groups includeTypes imports ds ↔
      group = ds.filter (target? includeTypes imports · = some t) ∧ group ≠ [] := by
  rw [groups_eq_collect, Keyed.mem_collect_iff]

/-- The statement of a declaration is the first one for its module, so it has one position. -/
theorem target?_eq_of_fst_eq {includeTypes : Bool} {imports : List StaticImport} {d e : Declaration}
    {t t' : StaticImport × Nat} (hd : target? includeTypes imports d = some t)
    (he : target? includeTypes imports e = some t') (same : t.1 = t'.1) : t = t' := by
  have specifier : d.specifier = e.specifier :=
    (specifier_of_target? hd).symm.trans ((congrArg _ same).trans (specifier_of_target? he))
  have alike : target? includeTypes imports d = target? includeTypes imports e :=
    target?_congr (isMergeable_of_target? hd) (isMergeable_of_target? he) specifier
  rw [hd, he] at alike
  exact Option.some.inj alike

/-- Different groups have different statements, not only different positions. -/
theorem pairwise_groups (includeTypes : Bool) (imports : List StaticImport) (ds : List Declaration) :
    (groups includeTypes imports ds).Pairwise (fun g g' => g.1.1 ≠ g'.1.1) := by
  have nodup := Keyed.nodup_keys_collect (target? includeTypes imports) ds
  rw [← groups_eq_collect, Keyed.keys, List.Nodup, List.pairwise_map] at nodup
  refine nodup.imp_of_mem ?_
  rintro ⟨t, group⟩ ⟨t', group'⟩ hg hg' hne same
  obtain ⟨hgroup, hnil⟩ := mem_groups_iff.mp hg
  obtain ⟨hgroup', hnil'⟩ := mem_groups_iff.mp hg'
  obtain ⟨d, hd⟩ := List.exists_mem_of_ne_nil _ hnil
  obtain ⟨e, he⟩ := List.exists_mem_of_ne_nil _ hnil'
  rw [hgroup, List.mem_filter, decide_eq_true_eq] at hd
  rw [hgroup', List.mem_filter, decide_eq_true_eq] at he
  exact hne (target?_eq_of_fst_eq hd.2 he.2 same)

/-- A merge of the plan puts the declarations of one group behind the brace of their statement. -/
theorem mem_merges_iff {includeTypes : Bool} {imports : List StaticImport} {ds : List Declaration}
    {m : Merge} :
    m ∈ (ofDeclarations includeTypes imports ds).merges ↔
      (∃ brace, StaticImport.openingBrace? m.target.code = some brace ∧
        m.offset = m.target.start + brace) ∧
      m.declarations ≠ [] ∧
      ∃ n, m.declarations = ds.filter (target? includeTypes imports · = some (m.target, n)) := by
  simp only [ofDeclarations, List.mem_filterMap, merge?, Option.map_eq_some_iff]
  constructor
  · rintro ⟨⟨⟨i, n⟩, group⟩, hg, brace, hb, rfl⟩
    obtain ⟨hgroup, hnil⟩ := mem_groups_iff.mp hg
    exact ⟨⟨brace, hb, rfl⟩, hnil, n, hgroup⟩
  · rintro ⟨⟨brace, hb, ho⟩, hnil, n, hgroup⟩
    refine ⟨((m.target, n), m.declarations), mem_groups_iff.mpr ⟨hgroup, hnil⟩, brace, hb, ?_⟩
    rw [← ho]

theorem nodup_targets (includeTypes : Bool) (imports : List StaticImport) (ds : List Declaration) :
    ((ofDeclarations includeTypes imports ds).merges.map (·.target)).Nodup := by
  rw [List.Nodup, List.pairwise_map, ofDeclarations, List.pairwise_filterMap]
  refine (pairwise_groups includeTypes imports ds).imp ?_
  intro g g' hne m hm m' hm'
  simp only [merge?, Option.map_eq_some_iff] at hm hm'
  obtain ⟨_, _, rfl⟩ := hm
  obtain ⟨_, _, rfl⟩ := hm'
  exact hne

end MergePlan

namespace InjectOptions

/-- The options with hooks that change nothing. -/
def withoutHooks (options : InjectOptions) : InjectOptions :=
  { options with before := id, after := fun _ _ => none }

theorem statements_withoutHooks (options : InjectOptions) (fresh : List Declaration) :
    options.withoutHooks.statements fresh =
      renderImports options.dialect options.includeTypes fresh := rfl

/-- The declaration goes into the statement `i` of the source: it is a name or a default export that is
emitted, and `i` is the first live statement of its module with names in braces, and has a brace to put
the name behind. -/
def MergesInto (options : InjectOptions) (source : String) (d : Declaration) (i : StaticImport) :
    Prop :=
  options.mergeExisting = true ∧ options.dialect = .esm ∧
    MergePlan.isMergeable options.includeTypes d = true ∧
    (liveImports options.locator source).find?
      (fun j => j.specifier == d.specifier && j.hasNamedBrace) = some i ∧
    (StaticImport.openingBrace? i.code).isSome = true

instance (options : InjectOptions) (source : String) (d : Declaration) (i : StaticImport) :
    Decidable (options.MergesInto source d i) :=
  inferInstanceAs (Decidable (_ ∧ _))

theorem MergesInto.mem_liveImports {options : InjectOptions} {source : String} {d : Declaration}
    {i : StaticImport} (h : options.MergesInto source d i) :
    i ∈ liveImports options.locator source := by
  obtain ⟨-, -, -, found, -⟩ := h
  exact List.mem_of_find?_eq_some found

theorem MergesInto.mem_locator {options : InjectOptions} {source : String} {d : Declaration}
    {i : StaticImport} (h : options.MergesInto source d i) : i ∈ options.locator source :=
  (List.mem_filter.mp h.mem_liveImports).1

variable (options : InjectOptions) (source : String) (ds : List Declaration)

theorem mergesInto_iff (merging : (options.mergeExisting && options.dialect == .esm) = true)
    (d : Declaration) (i : StaticImport) :
    options.MergesInto source d i ↔
      (∃ n, MergePlan.target? options.includeTypes (liveImports options.locator source) d =
        some (i, n)) ∧ (StaticImport.openingBrace? i.code).isSome = true := by
  rw [Bool.and_eq_true, beq_iff_eq] at merging
  have fst := MergePlan.target?_map_fst options.includeTypes (liveImports options.locator source) d
  constructor
  · rintro ⟨-, -, mergeable, found, brace⟩
    rw [if_pos mergeable, found, Option.map_eq_some_iff] at fst
    obtain ⟨⟨j, n⟩, h, rfl⟩ := fst
    exact ⟨⟨n, h⟩, brace⟩
  · rintro ⟨⟨n, h⟩, brace⟩
    have mergeable := MergePlan.isMergeable_of_target? h
    rw [h, if_pos mergeable] at fst
    exact ⟨merging.1, merging.2, mergeable, fst.symm, brace⟩

theorem nodup_plan_targets : ((options.plan source ds).merges.map (·.target)).Nodup := by
  rw [plan]
  split
  · exact MergePlan.nodup_targets ..
  · exact List.nodup_nil

theorem declarations_ne_nil {m : Merge} (hm : m ∈ (options.plan source ds).merges) :
    m.declarations ≠ [] := by
  rw [plan] at hm
  split at hm
  · exact (MergePlan.mem_merges_iff.mp hm).2.1
  · cases hm

/-- A merge is made behind the brace that opens the names of its statement. -/
theorem exists_offset_eq {m : Merge} (hm : m ∈ (options.plan source ds).merges) :
    ∃ brace, StaticImport.openingBrace? m.target.code = some brace ∧
      m.offset = m.target.start + brace := by
  rw [plan] at hm
  split at hm
  · exact (MergePlan.mem_merges_iff.mp hm).1
  · cases hm

/-- The declarations of a merge are those of the list that go into its statement. -/
theorem declarations_eq_filter {m : Merge} (hm : m ∈ (options.plan source ds).merges) :
    m.declarations = ds.filter (options.MergesInto source · m.target) := by
  rw [plan] at hm
  split at hm
  · next merging =>
      obtain ⟨⟨brace, hb, -⟩, hnil, n, hgroup⟩ := MergePlan.mem_merges_iff.mp hm
      obtain ⟨e, he⟩ := List.exists_mem_of_ne_nil _ hnil
      rw [hgroup, List.mem_filter, decide_eq_true_eq] at he
      rw [hgroup]
      refine List.filter_congr fun d _ => decide_eq_decide.mpr ?_
      rw [mergesInto_iff options source merging]
      constructor
      · intro hd
        exact ⟨⟨n, hd⟩, by simp [hb]⟩
      · rintro ⟨⟨n', hd⟩, -⟩
        have specifier : d.specifier = e.specifier :=
          (MergePlan.specifier_of_target? hd).symm.trans (MergePlan.specifier_of_target? he.2)
        rw [MergePlan.target?_congr (MergePlan.isMergeable_of_target? hd)
          (MergePlan.isMergeable_of_target? he.2) specifier, he.2]
  · cases hm

/-- A statement is the target of a merge exactly if some declaration goes into it. -/
theorem mem_plan_targets {i : StaticImport} :
    i ∈ (options.plan source ds).merges.map (·.target) ↔
      ∃ d ∈ ds, options.MergesInto source d i := by
  constructor
  · intro hi
    obtain ⟨m, hm, rfl⟩ := List.mem_map.mp hi
    obtain ⟨d, hd⟩ := List.exists_mem_of_ne_nil _ (declarations_ne_nil options source ds hm)
    rw [declarations_eq_filter options source ds hm, List.mem_filter, decide_eq_true_eq] at hd
    exact ⟨d, hd⟩
  · rintro ⟨d, hd, into⟩
    have merging : (options.mergeExisting && options.dialect == .esm) = true := by
      simp [into.1, into.2.1]
    obtain ⟨⟨n, target⟩, brace⟩ := (mergesInto_iff options source merging d i).mp into
    obtain ⟨brace, hb⟩ := Option.isSome_iff_exists.mp brace
    rw [plan, if_pos merging]
    refine List.mem_map.mpr ⟨⟨i, i.start + brace, ds.filter (MergePlan.target? options.includeTypes
      (liveImports options.locator source) · = some (i, n))⟩, ?_, rfl⟩
    refine MergePlan.mem_merges_iff.mpr ⟨⟨brace, hb, rfl⟩, ?_, n, rfl⟩
    exact List.ne_nil_of_mem (List.mem_filter.mpr ⟨hd, decide_eq_true target⟩)

/-- A declaration gets a statement of its own exactly if it goes into none of the source. -/
theorem mem_fresh_iff {d : Declaration} :
    d ∈ (options.plan source ds).fresh ↔ d ∈ ds ∧ ∀ i, ¬ options.MergesInto source d i := by
  rw [plan]
  split
  · next merging =>
      simp only [mergesInto_iff options source merging, MergePlan.ofDeclarations, List.mem_append,
        List.mem_filter, List.mem_flatMap, Option.isNone_iff_eq_none]
      constructor
      · rintro (⟨hd, none⟩ | ⟨⟨t, group⟩, ⟨hg, none⟩, hd⟩)
        · refine ⟨hd, ?_⟩
          rintro i ⟨⟨n, target⟩, -⟩
          rw [none] at target
          cases target
        · obtain ⟨rfl, -⟩ := MergePlan.mem_groups_iff.mp hg
          obtain ⟨hd, target⟩ := List.mem_filter.mp hd
          refine ⟨hd, ?_⟩
          rintro i ⟨⟨n, target'⟩, brace⟩
          obtain rfl := Option.some.inj ((of_decide_eq_true target).symm.trans target')
          rw [MergePlan.merge?, Option.map_eq_none_iff] at none
          rw [none] at brace
          cases brace
      · rintro ⟨hd, unmerged⟩
        cases target : MergePlan.target? options.includeTypes
            (liveImports options.locator source) d with
        | none => exact .inl ⟨hd, rfl⟩
        | some t =>
            have member : d ∈ ds.filter (MergePlan.target? options.includeTypes
                (liveImports options.locator source) · = some t) :=
              List.mem_filter.mpr ⟨hd, decide_eq_true target⟩
            refine .inr ⟨(t, _), ⟨MergePlan.mem_groups_iff.mpr ⟨rfl, List.ne_nil_of_mem member⟩, ?_⟩,
              member⟩
            rw [MergePlan.merge?, Option.map_eq_none_iff]
            exact Option.not_isSome_iff_eq_none.mp fun brace => unmerged t.1 ⟨⟨t.2, target⟩, brace⟩
  · next off =>
      refine ⟨fun hd => ⟨hd, fun i into => off ?_⟩, And.left⟩
      simp [into.1, into.2.1]

end InjectOptions

/-! ## Changed declarations

A change of declarations that keeps their statement keeps the plan, up to the change itself. -/

namespace Merge

/-- The declarations with a change made to each of them. -/
def map (f : Declaration → Declaration) (m : Merge) : Merge :=
  { m with declarations := m.declarations.map f }

variable {f : Declaration → Declaration}

theorem text_map (h : ∀ d, (f d).binding.render .esm = d.binding.render .esm) (m : Merge) :
    (m.map f).text = m.text := by
  simp only [text, map, List.flatMap_map, h]

theorem foldl_apply_map (h : ∀ d, (f d).binding.render .esm = d.binding.render .esm)
    (ms : List Merge) (o : Overlay) : (ms.map (map f)).foldl apply o = ms.foldl apply o := by
  rw [List.foldl_map]
  congr 1
  funext o m
  rw [apply, text_map h]
  rfl

end Merge

namespace MergePlan

def map (f : Declaration → Declaration) (plan : MergePlan) : MergePlan :=
  ⟨plan.merges.map (Merge.map f), plan.fresh.map f⟩

variable {f : Declaration → Declaration}

theorem target?_of_eq {includeTypes : Bool} {d e : Declaration}
    (mergeable : isMergeable includeTypes d = isMergeable includeTypes e)
    (specifier : d.specifier = e.specifier) (imports : List StaticImport) :
    target? includeTypes imports d = target? includeTypes imports e := by
  rw [target?, target?, mergeable, specifier]

theorem ofDeclarations_map {includeTypes : Bool} {imports : List StaticImport}
    (h : ∀ d, target? includeTypes imports (f d) = target? includeTypes imports d)
    (ds : List Declaration) :
    ofDeclarations includeTypes imports (ds.map f) =
      (ofDeclarations includeTypes imports ds).map f := by
  have merged (group : (StaticImport × Nat) × List Declaration) :
      merge? (group.1, group.2.map f) = (merge? group).map (Merge.map f) := by
    simp only [merge?, Option.map_map]
    rfl
  simp only [ofDeclarations, map, groups_eq_collect, Keyed.collect_map, h, List.filterMap_map,
    List.map_filterMap, List.filter_map, List.flatMap_map, List.map_append, List.map_flatMap,
    Function.comp_def, merged, Option.isNone_map]

end MergePlan

theorem InjectOptions.plan_map {options : InjectOptions} {source : String}
    {f : Declaration → Declaration}
    (h : ∀ imports d, MergePlan.target? options.includeTypes imports (f d) =
      MergePlan.target? options.includeTypes imports d) (ds : List Declaration) :
    options.plan source (ds.map f) = (options.plan source ds).map f := by
  unfold plan
  split
  · exact MergePlan.ofDeclarations_map (h _) ds
  · rfl

end ImportWeave
