import ImportWeave.Proofs.Statement.Modules

/-! # Names in statements

The names that import statements bind are those of the declarations that are emitted, and the names in the
braces of type exports are those of the declarations that are for types alone. -/

namespace ImportWeave

namespace Declaration

/-- The name that the declaration has in an import statement, if it has one. -/
def boundName? (d : Declaration) : Option String :=
  match d.kind with
  | .sideEffect => none
  | .namespaceObject => d.namespaceAlias
  | .default | .wholeModule | .named => some d.displayName

/-- A declaration is bound by its own statement, or by the one that it shares. -/
theorem boundName?_eq_some_iff (dialect : Dialect) (d : Declaration) (x : String) :
    d.boundName? = some x ↔
      (∃ form, d.ownForm? dialect = some form ∧ x ∈ form.localNames) ∨
        d.isBatched dialect = true ∧ d.displayName = x := by
  unfold boundName? ownForm? isBatched
  cases hk : d.kind with
  | sideEffect => cases d.typeOnly <;> simp [ImportForm.localNames]
  | default | wholeModule => simp [ImportForm.localNames, @eq_comm _ x]
  | namespaceObject => cases d.namespaceAlias <;> simp [ImportForm.localNames, @eq_comm _ x]
  | named =>
      have own : (ImportForm.named [d.binding]).localNames = [d.displayName] := rfl
      cases (dialect == .commonjs || !d.hasClause) <;> simp [own, @eq_comm _ x]

end Declaration

namespace ImportStatement

theorem mem_expressible_iff {dialect : Dialect} {ds : List Declaration} {d : Declaration} :
    d ∈ expressible dialect ds ↔ d ∈ ds ∧ (dialect = .commonjs → d.typeOnly = false) := by
  unfold expressible
  split <;> simp_all

theorem mem_shared_iff {specifier : String} {batch : List Declaration} {x : String} :
    (∃ s ∈ shared specifier batch, x ∈ s.form.localNames) ↔ ∃ d ∈ batch, d.displayName = x := by
  cases batch with
  | nil => simp [shared]
  | cons d batch =>
      have names (ds : List Declaration) :
          (ImportForm.named (ds.map Declaration.binding)).localNames = ds.map (·.displayName) := by
        rw [ImportForm.localNames, List.map_map]
        rfl
      simp only [shared, reduceCtorEq, if_false, List.mem_singleton, exists_eq_left, names, List.mem_map]

theorem exists_mem_ofModule_iff {dialect : Dialect} {specifier : String} {ds : List Declaration}
    {x : String} :
    (∃ s ∈ ofModule dialect specifier ds, x ∈ s.form.localNames) ↔
      ∃ d ∈ expressible dialect ds, d.boundName? = some x := by
  have own : (∃ s ∈ (expressible dialect ds).filterMap (own? dialect specifier),
      x ∈ s.form.localNames) ↔ ∃ d ∈ expressible dialect ds, ∃ form,
        d.ownForm? dialect = some form ∧ x ∈ form.localNames := by
    constructor
    · rintro ⟨s, hs, hx⟩
      obtain ⟨d, hd, h⟩ := List.mem_filterMap.mp hs
      obtain ⟨form, hf, rfl⟩ := Option.map_eq_some_iff.mp h
      exact ⟨d, hd, form, hf, hx⟩
    · rintro ⟨d, hd, form, hf, hx⟩
      exact ⟨_, List.mem_filterMap.mpr ⟨d, hd, Option.map_eq_some_iff.mpr ⟨form, hf, rfl⟩⟩, hx⟩
  simp only [ofModule_eq, List.mem_append, or_and_right, exists_or, own, mem_shared_iff,
    List.mem_filter, Declaration.boundName?_eq_some_iff dialect, and_or_left, and_assoc]

/-- The names that statements bind are those of the declarations that are emitted, less the ones that
calls of `require` leave out. -/
theorem exists_mem_ofDeclarations_iff {dialect : Dialect} {includeTypes : Bool}
    {ds : List Declaration} {x : String} :
    (∃ s ∈ ofDeclarations dialect includeTypes ds, x ∈ s.form.localNames) ↔
      ∃ d ∈ ds, d.isEmitted includeTypes = true ∧ (dialect = .commonjs → d.typeOnly = false) ∧
        d.boundName? = some x := by
  constructor
  · rintro ⟨s, hs, hx⟩
    obtain ⟨group, hg, hs⟩ := List.mem_flatMap.mp hs
    obtain ⟨d, hd, bound⟩ := exists_mem_ofModule_iff.mp ⟨s, hs, hx⟩
    obtain ⟨hd, expressed⟩ := mem_expressible_iff.mp hd
    obtain ⟨hd, emitted⟩ := ModuleGroups.exists_mem_group_iff.mp ⟨group, hg, hd⟩
    exact ⟨d, hd, emitted, expressed, bound⟩
  · rintro ⟨d, hd, emitted, expressed, bound⟩
    obtain ⟨group, hg, hd⟩ := ModuleGroups.exists_mem_group_iff.mpr ⟨hd, emitted⟩
    obtain ⟨s, hs, hx⟩ := exists_mem_ofModule_iff.mpr
      ⟨d, mem_expressible_iff.mpr ⟨hd, expressed⟩, bound⟩
    exact ⟨s, List.mem_flatMap.mpr ⟨group, hg, hs⟩, hx⟩

end ImportStatement

/-! ## Type exports -/

namespace Declaration

/-- The declaration is listed in braces where its module is exported for types. -/
def isListed (d : Declaration) : Bool := d.kind != .sideEffect && d.kind != .namespaceObject

end Declaration

theorem TypeModule.named_foldl_add (ds : List Declaration) (m : TypeModule) :
    (ds.foldl add m).named = m.named ++ (ds.filter (·.isListed)).map Declaration.binding := by
  induction ds generalizing m with
  | nil => simp
  | cons d ds ih =>
      rw [List.foldl_cons, ih]
      cases hk : d.kind <;> simp [add, Declaration.isListed, hk]

namespace TypeOptions

theorem modules_eq_collect (options : TypeOptions) (ds : List Declaration) :
    options.modules ds = (Keyed.collect (fun d => some (options.specifierOf d)) ds).map fun group =>
      (group.1, group.2.foldl TypeModule.add {}) := by
  induction ds using List.reverseRecOn with
  | nil => rfl
  | append_singleton ds d ih =>
      rw [Keyed.collect_concat]
      simp only [modules, List.foldl_append, List.foldl_cons, List.foldl_nil] at ih ⊢
      rw [ih]
      refine (Keyed.map_update (List.foldl TypeModule.add {}) ?_ _ _).symm
      rintro (_ | group) <;> simp

theorem exists_mem_modules_iff {options : TypeOptions} {ds : List Declaration} {b : NamedBinding} :
    (∃ m ∈ options.modules ds, b ∈ m.2.named) ↔ ∃ d ∈ ds, d.isListed = true ∧ d.binding = b := by
  have names (group : List Declaration) : b ∈ (group.foldl TypeModule.add {}).named ↔
      ∃ d ∈ group, d.isListed = true ∧ d.binding = b := by
    rw [TypeModule.named_foldl_add]
    simp [and_assoc]
  rw [modules_eq_collect]
  constructor
  · rintro ⟨m, hm, hb⟩
    obtain ⟨group, hg, rfl⟩ := List.mem_map.mp hm
    obtain ⟨d, hd, listed⟩ := (names group.2).mp hb
    exact ⟨d, (Keyed.exists_mem_collect_some_iff _).mp ⟨group, hg, hd⟩, listed⟩
  · rintro ⟨d, hd, listed⟩
    obtain ⟨group, hg, hd⟩ := (Keyed.exists_mem_collect_some_iff options.specifierOf).mpr hd
    exact ⟨_, List.mem_map_of_mem hg, (names group.2).mpr ⟨d, hd, listed⟩⟩

/-- The modules that a declaration file exports types from. -/
def typeModules (options : TypeOptions) (ds : List Declaration) : List (String × TypeModule) :=
  if options.reExports then options.modules ((ds.filter (!·.disabled)).filter (·.typeOnly)) else []

/-- The block that exports types from some modules. No modules make no block. -/
def renderModules (ms : List (String × TypeModule)) : String :=
  if ms = [] then ""
  else "\n" ++ ("// for type re-export\n" ++
    declareGlobal (ms.flatMap fun (specifier, m) => m.lines specifier))

theorem modules_eq_nil_iff {options : TypeOptions} {ds : List Declaration} :
    options.modules ds = [] ↔ ds = [] := by
  rw [modules_eq_collect, List.map_eq_nil_iff]
  constructor
  · intro h
    refine List.eq_nil_iff_forall_not_mem.mpr fun d hd => ?_
    obtain ⟨group, hg, -⟩ := (Keyed.exists_mem_collect_some_iff options.specifierOf).mpr hd
    simp [h] at hg
  · rintro rfl
    rfl

/-- A declaration file is made of the values and of these modules. -/
theorem render_eq_renderModules (options : TypeOptions) (ds : List Declaration) :
    options.render ds =
      options.renderValues ((ds.filter (!·.disabled)).filter (!·.typeOnly)) ++
        renderModules (options.typeModules ds) := by
  have block (types : List Declaration) :
      (if options.reExports && !types.isEmpty then "\n" ++ options.renderReExports types else "") =
        renderModules (if options.reExports then options.modules types else []) := by
    cases options.reExports with
    | false => rfl
    | true =>
        by_cases none : types = []
        · subst none
          rfl
        · have some : (true && !types.isEmpty) = true := by simpa using none
          rw [if_pos some]
          exact (if_neg (modules_eq_nil_iff.not.mpr none)).symm
  simp only [render, List.partition_eq_filter_filter, block]
  rfl

theorem exists_mem_typeModules_iff {options : TypeOptions} {ds : List Declaration}
    {b : NamedBinding} :
    (∃ m ∈ options.typeModules ds, b ∈ m.2.named) ↔ options.reExports = true ∧
      ∃ d ∈ ds, d.disabled = false ∧ d.typeOnly = true ∧ d.isListed = true ∧ d.binding = b := by
  unfold typeModules
  split
  · next on =>
      rw [exists_mem_modules_iff]
      simp only [List.mem_filter, Bool.not_eq_true', and_assoc, on, true_and]
  · next off => simp [off]

end TypeOptions

end ImportWeave
