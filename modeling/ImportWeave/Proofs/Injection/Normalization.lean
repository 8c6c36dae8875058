import ImportWeave.Proofs.Injection.Merging
import ImportWeave.Proofs.Resolution.Invariance
import ImportWeave.Proofs.Statement.Normalization

/-! # Normal declarations in all outputs

No output depends on whether the aliases of its declarations have been filled in: neither the statements
and types that are written, nor what is injected into a source. -/

namespace ImportWeave

theorem MergePlan.target?_normalize (includeTypes : Bool) (imports : List StaticImport) (d : Declaration) :
    target? includeTypes imports d.normalize = target? includeTypes imports d := by
  refine target?_of_eq ?_ (Declaration.specifier_normalize d) imports
  simp only [isMergeable, Declaration.isEmitted_normalize, Declaration.kind_normalize]

/-- Names are written in the same way, and the statements that take them are the same. -/
theorem inject_map_normalize (options : InjectOptions) (ds : List Declaration) (o : Overlay) :
    inject options.withoutHooks (ds.map Declaration.normalize) o =
      inject options.withoutHooks ds o := by
  have plan : options.withoutHooks.plan o.base (ds.map Declaration.normalize) =
      (options.withoutHooks.plan o.base ds).map Declaration.normalize :=
    InjectOptions.plan_map (MergePlan.target?_normalize options.includeTypes) ds
  have binding (d : Declaration) : d.normalize.binding.render .esm = d.binding.render .esm := by
    rw [Declaration.binding_normalize, NamedBinding.render_normalize]
  simp only [inject, plan, MergePlan.map, Merge.foldl_apply_map binding,
    InjectOptions.statements_withoutHooks, renderImports_map_normalize]

/-- Declarations and their normal forms give the same import statements, the same exports, the same types
and the same injection, and normal forms survive for the declarations that survive. -/
theorem outputs_map_normalize (ds : List Declaration) :
    (∀ dialect includeTypes, renderImports dialect includeTypes (ds.map Declaration.normalize) =
      renderImports dialect includeTypes ds) ∧
    (∀ fileDir includeTypes, renderExports fileDir includeTypes (ds.map Declaration.normalize) =
      renderExports fileDir includeTypes ds) ∧
    (∀ options : TypeOptions, options.IgnoresAlias →
      options.renderValues (ds.map Declaration.normalize) = options.renderValues ds ∧
      options.renderReExports (ds.map Declaration.normalize) = options.renderReExports ds) ∧
    (∀ (options : InjectOptions) (o : Overlay),
      inject options.withoutHooks (ds.map Declaration.normalize) o =
        inject options.withoutHooks ds o) ∧
    (resolve (ds.map Declaration.normalize)).kept = (resolve ds).kept.map Declaration.normalize ∧
    (resolve (ds.map Declaration.normalize)).conflicts = (resolve ds).conflicts := by
  refine ⟨fun _ _ => renderImports_map_normalize .., fun _ _ => renderExports_map_normalize ..,
    fun options h => ⟨TypeOptions.renderValues_map_normalize h ds,
      TypeOptions.renderReExports_map_normalize h ds⟩,
    fun _ _ => inject_map_normalize .., ?_, ?_⟩
  · rw [resolve_map_normalize]
    rfl
  · rw [resolve_map_normalize]
    rfl

/-- A namespace object without an alias, names with an alias and without, and a specifier for types. -/
theorem outputs_map_normalize_with_resolver :
    let ds : List Declaration :=
      [{ name := "*", specifier := "./a.ts", typeOnly := true },
        { name := "x", specifier := "./a.ts", localAlias := some "y", typeOnly := true },
        { name := "z", specifier := "./b.ts", typeOnly := true }]
    let options : TypeOptions :=
      { resolvePath := fun d => if d.specifier = "./b.ts" then some "./types" else none }
    options.IgnoresAlias ∧ ds.map Declaration.normalize ≠ ds ∧
      options.renderReExports (ds.map Declaration.normalize) = options.renderReExports ds := by
  intro ds options
  have ignores : options.IgnoresAlias := fun _ _ => rfl
  exact ⟨ignores, by decide, ((outputs_map_normalize ds).2.2.1 options ignores).2⟩

end ImportWeave
