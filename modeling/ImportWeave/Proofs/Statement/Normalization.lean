import ImportWeave.Proofs.Declaration.Normalization
import ImportWeave.Proofs.Statement.Modules

/-! # Statements of normal declarations

The statements of declarations and of their normal forms differ in the aliases of the names in braces at
most. An alias that is the name itself is not written, so that their texts are the same. -/

namespace ImportWeave

theorem ModuleGroups.ofDeclarations_map_normalize (includeTypes : Bool) (ds : List Declaration) :
    ofDeclarations includeTypes (ds.map Declaration.normalize) =
      (ofDeclarations includeTypes ds).map fun group =>
        (group.1, group.2.map Declaration.normalize) := by
  rw [ofDeclarations_eq_collect, Declaration.filter_map_normalize fun _ => rfl, Keyed.collect_map]
  rfl

namespace NamedBinding

/-- Fills in the alias. -/
def normalize (b : NamedBinding) : NamedBinding :=
  { b with localAlias := some (b.localAlias.getD b.name) }

@[simp] theorem renderName_normalize (dialect : Dialect) (b : NamedBinding) :
    b.normalize.renderName dialect = b.renderName dialect := by
  rcases b with ⟨t, x, _ | a⟩
  · simp [normalize, renderName]
  · rfl

@[simp] theorem render_normalize (dialect : Dialect) (b : NamedBinding) :
    b.normalize.render dialect = b.render dialect := by
  simp only [render, renderName_normalize]
  rfl

theorem map_render_map_normalize (dialect : Dialect) (bs : List NamedBinding) :
    (bs.map normalize).map (·.render dialect) = bs.map (·.render dialect) := by
  rw [List.map_map]
  exact List.map_congr_left fun b _ => b.render_normalize dialect

end NamedBinding

theorem Declaration.binding_normalize (d : Declaration) :
    d.normalize.binding = d.binding.normalize := rfl

theorem Declaration.map_binding_normalize (ds : List Declaration) :
    (ds.map normalize).map binding = (ds.map binding).map NamedBinding.normalize := by
  rw [List.map_map, List.map_map]
  rfl

/-! ## Imports -/

/-- Fills in the aliases of the names in braces. -/
def ImportForm.normalize : ImportForm → ImportForm
  | .named bindings => .named (bindings.map NamedBinding.normalize)
  | form => form

namespace Declaration

theorem isBatched_normalize (dialect : Dialect) (d : Declaration) :
    d.normalize.isBatched dialect = d.isBatched dialect := by
  simp only [isBatched, kind_normalize, hasClause_normalize]

theorem ownForm?_normalize (dialect : Dialect) (d : Declaration) :
    d.normalize.ownForm? dialect = (d.ownForm? dialect).map ImportForm.normalize := by
  unfold ownForm?
  rw [kind_normalize, isBatched_normalize]
  cases hk : d.kind with
  | sideEffect =>
      rw [typeOnly_normalize]
      cases d.typeOnly <;> rfl
  | default | wholeModule => rfl
  | namespaceObject =>
      simp only [namespaceAlias_normalize hk, Option.map_map]
      rfl
  | named => cases d.isBatched dialect <;> rfl

end Declaration

namespace ImportStatement

/-- Fills in the aliases of the names in braces. -/
def normalize (s : ImportStatement) : ImportStatement := { s with form := s.form.normalize }

@[simp] theorem render_normalize (dialect : Dialect) (s : ImportStatement) :
    s.normalize.render dialect = s.render dialect := by
  obtain ⟨form, specifier, clause⟩ := s
  cases form with
  | sideEffect | default | wholeModule | namespaceObject => rfl
  | named bindings =>
      cases dialect <;>
        simp only [render, normalize, ImportForm.normalize, renderForm, renderTarget,
          NamedBinding.map_render_map_normalize]

theorem expressible_map_normalize (dialect : Dialect) (ds : List Declaration) :
    expressible dialect (ds.map Declaration.normalize) =
      (expressible dialect ds).map Declaration.normalize := by
  unfold expressible
  split
  · exact Declaration.filter_map_normalize (fun _ => rfl) ds
  · rfl

theorem own?_normalize (dialect : Dialect) (specifier : String) (d : Declaration) :
    own? dialect specifier d.normalize = (own? dialect specifier d).map normalize := by
  simp only [own?, Declaration.ownForm?_normalize, Option.map_map]
  rfl

theorem shared_map_normalize (specifier : String) (batch : List Declaration) :
    shared specifier (batch.map Declaration.normalize) = (shared specifier batch).map normalize := by
  cases batch with
  | nil => rfl
  | cons d batch =>
      simp only [shared, Declaration.map_binding_normalize]
      rfl

theorem ofModule_map_normalize (dialect : Dialect) (specifier : String) (ds : List Declaration) :
    ofModule dialect specifier (ds.map Declaration.normalize) =
      (ofModule dialect specifier ds).map normalize := by
  rw [ofModule_eq, ofModule_eq, expressible_map_normalize,
    Declaration.filter_map_normalize (Declaration.isBatched_normalize dialect), shared_map_normalize,
    List.map_append, List.filterMap_map, List.map_filterMap]
  congr 2
  funext d
  exact own?_normalize dialect specifier d

theorem ofDeclarations_map_normalize (dialect : Dialect) (includeTypes : Bool)
    (ds : List Declaration) :
    ofDeclarations dialect includeTypes (ds.map Declaration.normalize) =
      (ofDeclarations dialect includeTypes ds).map normalize := by
  simp only [ofDeclarations, ModuleGroups.ofDeclarations_map_normalize, List.flatMap_map,
    List.map_flatMap, ofModule_map_normalize]

end ImportStatement

theorem renderImports_map_normalize (dialect : Dialect) (includeTypes : Bool)
    (ds : List Declaration) :
    renderImports dialect includeTypes (ds.map Declaration.normalize) =
      renderImports dialect includeTypes ds := by
  simp only [renderImports, ImportStatement.ofDeclarations_map_normalize, List.map_map,
    Function.comp_def, ImportStatement.render_normalize]

/-! ## Exports -/

namespace ExportStatement

/-- Fills in the aliases of the names in braces. -/
def normalize : ExportStatement → ExportStatement
  | .namespaceObject localName specifier => .namespaceObject localName specifier
  | .named bindings specifier => .named (bindings.map NamedBinding.normalize) specifier

@[simp] theorem render_normalize (s : ExportStatement) : s.normalize.render = s.render := by
  cases s with
  | namespaceObject => rfl
  | named bindings specifier =>
      exact congrArg (fun names => "export " ++ Text.braced names ++ " from " ++
        Text.inQuotes specifier ++ ";") (NamedBinding.map_render_map_normalize .esm bindings)

theorem shared_map_normalize (specifier : String) (batch : List Declaration) :
    shared specifier (batch.map Declaration.normalize) = (shared specifier batch).map normalize := by
  cases batch with
  | nil => rfl
  | cons d batch =>
      simp only [shared, Declaration.map_binding_normalize]
      rfl

theorem ofModule_map_normalize (specifier : String) (ds : List Declaration) :
    ofModule specifier (ds.map Declaration.normalize) = (ofModule specifier ds).map normalize := by
  rw [ofModule_eq, ofModule_eq, Declaration.filter_map_normalize (by simp),
    Declaration.filter_map_normalize (by simp), shared_map_normalize, List.map_append, List.map_map,
    List.map_map]
  congr 1
  refine List.map_congr_left fun d hd => ?_
  have kind : d.kind = .namespaceObject := by simpa using (List.mem_filter.mp hd).2
  simp only [Function.comp_apply, Declaration.namespaceAlias_normalize kind, normalize]

end ExportStatement

theorem renderExports_map_normalize (fileDir : Option String) (includeTypes : Bool)
    (ds : List Declaration) :
    renderExports fileDir includeTypes (ds.map Declaration.normalize) =
      renderExports fileDir includeTypes ds := by
  simp only [renderExports, ExportStatement.ofDeclarations,
    ModuleGroups.ofDeclarations_map_normalize, List.flatMap_map, List.map_flatMap,
    ExportStatement.ofModule_map_normalize, List.map_map, Function.comp_def,
    ExportStatement.render_normalize]

/-! ## Types -/

namespace TypeModule

/-- Fills in the aliases of the names. -/
def normalize (m : TypeModule) : TypeModule :=
  { m with named := m.named.map NamedBinding.normalize }

theorem add_normalize (m : TypeModule) (d : Declaration) :
    m.normalize.add d.normalize = (m.add d).normalize := by
  unfold add
  rw [Declaration.kind_normalize]
  cases hk : d.kind with
  | sideEffect => rfl
  | namespaceObject =>
      simp only [Declaration.namespaceAlias_normalize hk]
      rfl
  | default | wholeModule | named =>
      simp only [normalize, Declaration.binding_normalize, List.map_append, List.map_singleton]

theorem lines_normalize (m : TypeModule) (specifier : String) :
    m.normalize.lines specifier = m.lines specifier := by
  have exports : m.normalize.exportLines specifier = m.exportLines specifier := by
    simp only [exportLines, normalize, List.map_eq_nil_iff, List.map_map, Function.comp_def,
      NamedBinding.renderName_normalize]
  simp only [lines, exports]

end TypeModule

namespace TypeOptions

/-- The specifiers that override those of declarations do not depend on aliases. -/
def IgnoresAlias (options : TypeOptions) : Prop :=
  ∀ (d : Declaration) (a : Option String),
    options.resolvePath { d with localAlias := a } = options.resolvePath d

variable {options : TypeOptions}

theorem specifierOf_normalize (h : options.IgnoresAlias) (d : Declaration) :
    options.specifierOf d.normalize = options.specifierOf d := by
  have resolved : options.resolvePath d.normalize = options.resolvePath d := h d _
  simp only [specifierOf, resolved]
  rfl

theorem item?_normalize (h : options.IgnoresAlias) (d : Declaration) :
    options.item? d.normalize = options.item? d := by
  have importType : options.importType d.normalize = options.importType d := by
    simp only [TypeOptions.importType, specifierOf_normalize h, Declaration.hasClause_normalize,
      Declaration.clause_normalize]
  unfold item?
  rw [Declaration.kind_normalize, importType]
  cases hk : d.kind with
  | sideEffect | wholeModule | default | named => rfl
  | namespaceObject => simp only [Declaration.namespaceAlias_normalize hk]

theorem renderValues_map_normalize (h : options.IgnoresAlias) (ds : List Declaration) :
    options.renderValues (ds.map Declaration.normalize) = options.renderValues ds := by
  have items : (ds.map Declaration.normalize).filterMap options.item? = ds.filterMap options.item? := by
    rw [List.filterMap_map]
    congr 1
    funext d
    exact item?_normalize h d
  simp only [renderValues, TypeOptions.items, items]

theorem modules_map_normalize (h : options.IgnoresAlias) (ds : List Declaration) :
    options.modules (ds.map Declaration.normalize) =
      (options.modules ds).map fun m => (m.1, m.2.normalize) := by
  induction ds using List.reverseRecOn with
  | nil => rfl
  | append_singleton ds d ih =>
      simp only [modules, List.map_append, List.map_singleton, List.foldl_append, List.foldl_cons,
        List.foldl_nil] at ih ⊢
      rw [ih, specifierOf_normalize h]
      refine (Keyed.map_update TypeModule.normalize ?_ _ _).symm
      rintro (_ | m)
      · exact (TypeModule.add_normalize {} d).symm
      · exact (TypeModule.add_normalize m d).symm

theorem renderReExports_map_normalize (h : options.IgnoresAlias) (ds : List Declaration) :
    options.renderReExports (ds.map Declaration.normalize) = options.renderReExports ds := by
  have lines : ((options.modules (ds.map Declaration.normalize)).flatMap fun m => m.2.lines m.1) =
      (options.modules ds).flatMap fun m => m.2.lines m.1 := by
    rw [modules_map_normalize h, List.flatMap_map]
    simp only [TypeModule.lines_normalize]
  exact congrArg (fun lines => "// for type re-export\n" ++ declareGlobal lines) lines

end TypeOptions

end ImportWeave
