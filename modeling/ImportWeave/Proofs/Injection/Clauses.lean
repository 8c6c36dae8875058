import ImportWeave.Proofs.Injection.Blocks
import ImportWeave.Proofs.Statement.LocalNames

/-! # Attribute clauses in injections

A declaration with attributes that gets a statement of its own is written with its attribute clause. One
that is merged into a statement of the source is written as a name alone, and its attributes are lost. -/

namespace ImportWeave

theorem Text.infix_intercalate {texts : List (List Char)} {text : List Char} (h : text ∈ texts)
    (separator : List Char) : text <:+: separator.intercalate texts := by
  induction texts with
  | nil => cases h
  | cons first texts ih =>
      cases texts with
      | nil => simp [List.mem_singleton.mp h]
      | cons second texts =>
          rw [List.intercalate_cons_cons]
          rcases List.mem_cons.mp h with rfl | h
          · rw [List.append_assoc]
            exact (List.prefix_append _ _).isInfix
          · exact (ih h).trans (List.suffix_append _ _).isInfix

/-! ## The statement of a declaration with attributes -/

/-- The kind of the declarations that have statements of this form. -/
def ImportForm.kind : ImportForm → BindingKind
  | .sideEffect => .sideEffect
  | .default _ _ => .default
  | .wholeModule _ _ => .wholeModule
  | .namespaceObject _ _ => .namespaceObject
  | .named _ => .named

theorem Declaration.kind_of_ownForm? {dialect : Dialect} {d : Declaration} {form : ImportForm}
    (h : d.ownForm? dialect = some form) : d.kind = form.kind := by
  unfold ownForm? at h
  split at h
  · next kind =>
      split at h
      · cases h
      · cases h
        exact kind
  · next kind =>
      cases h
      exact kind
  · next kind =>
      cases h
      exact kind
  · next kind =>
      obtain ⟨x, -, rfl⟩ := Option.map_eq_some_iff.mp h
      exact kind
  · next kind =>
      split at h
      · cases h
      · cases h
        exact kind

namespace ImportStatement

variable {includeTypes : Bool} {ds : List Declaration} {d : Declaration} {s : ImportStatement}

/-- A name or a default export with attributes has a statement of its own. -/
theorem exists_own? (kind : d.kind = .named ∨ d.kind = .default) (clause : d.hasClause = true) :
    ∃ s, own? .esm d.specifier d = some s ∧ s.clause = d.clause := by
  have form : ∃ form, d.ownForm? .esm = some form := by
    rcases kind with kind | kind
    · have alone : d.isBatched .esm = false := by simp [Declaration.isBatched, clause]
      simp [Declaration.ownForm?, kind, alone]
    · simp [Declaration.ownForm?, kind]
  obtain ⟨form, hf⟩ := form
  exact ⟨_, Option.map_eq_some_iff.mpr ⟨form, hf, rfl⟩, rfl⟩

/-- A statement with attributes is that of a single declaration. -/
theorem mem_ofDeclarations_iff_own? (clause : s.clause.isEmpty = false) :
    s ∈ ofDeclarations .esm includeTypes ds ↔
      ∃ d ∈ ds, d.isEmitted includeTypes = true ∧ own? .esm d.specifier d = some s := by
  simp only [ofDeclarations, List.mem_flatMap]
  constructor
  · rintro ⟨⟨specifier, group⟩, hg, hs⟩
    rw [ofModule_eq] at hs
    rcases List.mem_append.mp hs with hs | hs
    · obtain ⟨d, member, own⟩ := List.mem_filterMap.mp hs
      obtain ⟨⟨hd, emitted⟩, rfl⟩ :=
        (ModuleGroups.mem_group_iff hg).mp (mem_expressible_iff.mp member).1
      exact ⟨d, hd, emitted, own⟩
    -- the statement that declarations share has no attributes
    · rw [shared] at hs
      split at hs
      · cases hs
      · rw [List.mem_singleton.mp hs] at clause
        cases clause
  · rintro ⟨d, hd, emitted, own⟩
    obtain ⟨group, hg, member⟩ := ModuleGroups.exists_group hd emitted
    refine ⟨(d.specifier, group), hg, ?_⟩
    rw [ofModule_eq]
    have expressed : d ∈ expressible .esm group := by
      refine mem_expressible_iff.mpr ⟨member, ?_⟩
      rintro ⟨⟩
    exact List.mem_append_left _ (List.mem_filterMap.mpr ⟨d, expressed, own⟩)

/-- A statement is written with its attribute clause. -/
theorem clause_infix_render (clause : s.clause.isEmpty = false) :
    (" with " ++ s.clause.render).toList <:+: (s.render .esm).toList := by
  have ending : renderEnd s.clause = " with " ++ s.clause.render ++ ";" := by
    rw [renderEnd, if_neg (by simp [clause])]
  have split : (s.render .esm).toList =
      ("import " ++ renderForm s.form ++ Text.inQuotes s.specifier).toList ++
        ((" with " ++ s.clause.render).toList ++ ";".toList) := by
    rw [render, ending, ← String.toList_append, ← String.toList_append]
  rw [split]
  exact List.infix_append' _ _ _

theorem clause_infix_renderImports (h : s ∈ ofDeclarations .esm includeTypes ds)
    (clause : s.clause.isEmpty = false) :
    (" with " ++ s.clause.render).toList <:+: (renderImports .esm includeTypes ds).toList := by
  refine (clause_infix_render clause).trans ?_
  rw [renderImports, String.toList_intercalate]
  refine Text.infix_intercalate ?_ _
  exact List.mem_map_of_mem (List.mem_map_of_mem h)

end ImportStatement

/-! ## Merged declarations -/

namespace Declaration

/-- Gives other attributes to one declaration, and leaves all others as they are. -/
def reattribute (d : Declaration) (attributes : Option Attributes) (e : Declaration) : Declaration :=
  if e = d then { e with attributes } else e

variable {d e : Declaration} {attributes : Option Attributes}

theorem reattribute_of_ne (h : e ≠ d) : d.reattribute attributes e = e := if_neg h

@[simp] theorem binding_reattribute : (d.reattribute attributes e).binding = e.binding := by
  unfold reattribute
  split <;> rfl

@[simp] theorem specifier_reattribute : (d.reattribute attributes e).specifier = e.specifier := by
  unfold reattribute
  split <;> rfl

@[simp] theorem isMergeable_reattribute (includeTypes : Bool) :
    MergePlan.isMergeable includeTypes (d.reattribute attributes e) =
      MergePlan.isMergeable includeTypes e := by
  unfold reattribute
  split <;> rfl

end Declaration

namespace InjectOptions

variable {options : InjectOptions} {source : String} {ds : List Declaration} {d : Declaration}

/-- Declarations of one module that can be merged are merged alike. -/
theorem mergesInto_congr {e : Declaration}
    (mergeable : MergePlan.isMergeable options.includeTypes d =
      MergePlan.isMergeable options.includeTypes e)
    (specifier : d.specifier = e.specifier) (i : StaticImport) :
    options.MergesInto source d i ↔ options.MergesInto source e i := by
  simp only [MergesInto, mergeable, specifier]

/-- The statement of a declaration with attributes is among the new ones exactly if the declaration is
not merged. No other declaration can have it: one of the same form and module is merged alike. -/
theorem own_mem_iff (hd : d ∈ ds) (mergeable : MergePlan.isMergeable options.includeTypes d = true)
    {s : ImportStatement} (own : ImportStatement.own? .esm d.specifier d = some s)
    (clause : s.clause.isEmpty = false) :
    s ∈ ImportStatement.ofDeclarations .esm options.includeTypes (options.plan source ds).fresh ↔
      ∀ i, ¬ options.MergesInto source d i := by
  rw [ImportStatement.mem_ofDeclarations_iff_own? clause]
  have emitted : d.isEmitted options.includeTypes = true := (Bool.and_eq_true_iff.mp mergeable).1
  constructor
  · rintro ⟨e, he, emitted', own'⟩ i into
    obtain ⟨form, hf, rfl⟩ := Option.map_eq_some_iff.mp own
    obtain ⟨form', hf', same⟩ := Option.map_eq_some_iff.mp own'
    obtain ⟨rfl, specifier, -⟩ := ImportStatement.mk.inj same
    have kind : d.kind = e.kind :=
      (Declaration.kind_of_ownForm? hf).trans (Declaration.kind_of_ownForm? hf').symm
    have alike : MergePlan.isMergeable options.includeTypes d =
        MergePlan.isMergeable options.includeTypes e := by
      simp only [MergePlan.isMergeable, emitted, emitted', kind]
    exact ((options.mem_fresh_iff source ds).mp he).2 i
      ((mergesInto_congr alike specifier.symm i).mp into)
  · intro unmerged
    exact ⟨d, (options.mem_fresh_iff source ds).mpr ⟨hd, unmerged⟩, emitted, own⟩

/-- A clause among the new statements is part of a block that is inserted. -/
theorem exists_block_of_infix {text : List Char} (nonempty : text ≠ [])
    (h : text <:+: (options.statements (options.plan source ds).fresh).toList) :
    ∃ ps, (inject options ds (.ofString source)).text? = some (String.ofList (Piece.render ps)) ∧
      Piece.source ps = source.toList ∧ ∃ block ∈ Piece.blocks ps, text <:+: block.toList := by
  obtain ⟨lead, -, carries⟩ := carries_inject options ds source
  obtain ⟨ps, result, kept, blocks⟩ := carries.text?_eq_render
  have base : (inject options ds (.ofString source)).base = source := base_inject ..
  rw [base] at kept
  have written : options.statements (options.plan source ds).fresh ≠ "" := by
    intro empty
    rw [empty] at h
    exact nonempty (List.infix_nil.mp h)
  refine ⟨ps, result, kept, lead ++ options.statements (options.plan source ds).fresh ++ "\n", ?_, ?_⟩
  · refine blocks.mem_iff.mpr (List.mem_append_right _ ?_)
    rw [statementBlocks, if_neg written]
    exact List.mem_singleton_self _
  · rw [String.toList_append, String.toList_append]
    exact h.trans (List.infix_append _ _ _)

/-- The attributes of a merged declaration make no difference. -/
theorem inject_reattribute (into : ∃ i, options.MergesInto source d i)
    (attributes : Option Attributes) :
    inject options.withoutHooks (ds.map (d.reattribute attributes)) (.ofString source) =
      inject options.withoutHooks ds (.ofString source) := by
  have plan : options.withoutHooks.plan source (ds.map (d.reattribute attributes)) =
      (options.withoutHooks.plan source ds).map (d.reattribute attributes) :=
    plan_map (fun imports _ => MergePlan.target?_of_eq (Declaration.isMergeable_reattribute _)
      Declaration.specifier_reattribute imports) ds
  have fresh : (options.withoutHooks.plan source ds).fresh.map (d.reattribute attributes) =
      (options.withoutHooks.plan source ds).fresh := by
    refine (List.map_congr_left ?_).trans (List.map_id _)
    intro e he
    refine Declaration.reattribute_of_ne ?_
    rintro rfl
    obtain ⟨i, into⟩ := into
    exact ((options.mem_fresh_iff source ds).mp he).2 i into
  have binding (e : Declaration) : (d.reattribute attributes e).binding.render .esm =
      e.binding.render .esm := by
    rw [Declaration.binding_reattribute]
  have base : (Overlay.ofString source).base = source := rfl
  simp only [inject, base, plan, MergePlan.map, fresh, Merge.foldl_apply_map binding]

end InjectOptions

/-- A name or a default export with attributes, injected into modules. Its statement with the attribute
clause is written exactly if the declaration is not merged into one of the source, and is then part of the
text that is inserted. If it is merged, its attributes are written nowhere: the result is the same for any
others in their place. -/
theorem clause_written_iff_not_merged (options : InjectOptions) (esm : options.dialect = .esm)
    (source : String) (ds : List Declaration) (d : Declaration) (hd : d ∈ ds)
    (mergeable : MergePlan.isMergeable options.includeTypes d = true) (clause : d.hasClause = true) :
    (∃ s, ImportStatement.own? .esm d.specifier d = some s ∧ s.clause = d.clause ∧
      (s ∈ ImportStatement.ofDeclarations .esm options.includeTypes (options.plan source ds).fresh ↔
        ∀ i, ¬ options.MergesInto source d i)) ∧
    ((∀ i, ¬ options.MergesInto source d i) →
      ∃ ps, (inject options.withoutHooks ds (.ofString source)).text? =
          some (String.ofList (Piece.render ps)) ∧
        Piece.source ps = source.toList ∧
        ∃ block ∈ Piece.blocks ps, (" with " ++ d.clause.render).toList <:+: block.toList) ∧
    ((∃ i, options.MergesInto source d i) → ∀ attributes,
      inject options.withoutHooks (ds.map (d.reattribute attributes)) (.ofString source) =
        inject options.withoutHooks ds (.ofString source)) := by
  have kind : d.kind = .named ∨ d.kind = .default := by
    simpa [MergePlan.isMergeable] using (Bool.and_eq_true_iff.mp mergeable).2
  obtain ⟨s, own, same⟩ := ImportStatement.exists_own? kind clause
  have nonempty : s.clause.isEmpty = false := by
    rw [same]
    simpa [Declaration.hasClause] using clause
  have written : s ∈ ImportStatement.ofDeclarations .esm options.includeTypes
      (options.plan source ds).fresh ↔ ∀ i, ¬ options.MergesInto source d i :=
    InjectOptions.own_mem_iff hd mergeable own nonempty
  refine ⟨⟨s, own, same, written⟩, ?_, InjectOptions.inject_reattribute⟩
  intro unmerged
  refine InjectOptions.exists_block_of_infix (by simp) ?_
  rw [InjectOptions.statements_withoutHooks, esm, ← same]
  exact ImportStatement.clause_infix_renderImports (written.mpr unmerged) nonempty

theorem clause_written_beside_merged_name :
    let source := "import \x7b x \x7d from 'm'"
    let d : Declaration :=
      { name := "a", specifier := "n", attributes := some (.ofList [("type", "json")]) }
    let e : Declaration := { name := "b", specifier := "m" }
    ∃ ps, (inject { mergeExisting := true } [d, e] (.ofString source)).text? =
        some (String.ofList (Piece.render ps)) ∧
      Piece.source ps = source.toList ∧
      ∃ block ∈ Piece.blocks ps, " with \x7b type: \"json\" \x7d".toList <:+: block.toList := by
  intro source d e
  let options : InjectOptions := { mergeExisting := true }
  have fresh : d ∈ (options.plan source [d, e]).fresh := by decide +kernel
  have written := (clause_written_iff_not_merged options rfl source [d, e] d (by decide +kernel)
    (by decide +kernel) (by decide +kernel)).2.1 ((options.mem_fresh_iff source [d, e]).mp fresh).2
  have clause : " with " ++ d.clause.render = " with \x7b type: \"json\" \x7d" := by decide +kernel
  rw [clause] at written
  exact written

/-- Merging loses the attributes that a statement of its own is written with. -/
theorem clause_lost_in_merge :
    let source := "import \x7b x \x7d from 'm'"
    let d : Declaration :=
      { name := "a", specifier := "m", attributes := some (.ofList [("type", "json")]) }
    let clause := " with " ++ d.clause.render
    (inject { mergeExisting := true } [d] (.ofString source)).text =
        "import \x7b a, x \x7d from 'm'" ∧
      ¬ clause.toList <:+: (inject { mergeExisting := true } [d] (.ofString source)).text.toList ∧
      clause.toList <:+: (inject {} [d] (.ofString source)).text.toList := by
  decide +kernel

end ImportWeave
