import ImportWeave.Proofs.Importer.FixedPoint
import ImportWeave.Proofs.Injection.Merging
import ImportWeave.Proofs.Statement.Modules

/-! # Disabled declarations

A disabled declaration is kept for the record alone. To leave it out of the configuration changes no
other declaration of the importer, nothing that is reported, and nothing that is written. -/

namespace ImportWeave

/-- The declarations that are not disabled. -/
def enabled (ds : List Declaration) : List Declaration := ds.filter (!·.disabled)

theorem enabled_enabled (ds : List Declaration) : enabled (enabled ds) = enabled ds := by
  simp [enabled, List.filter_filter]

theorem enabled_append (ds es : List Declaration) : enabled (ds ++ es) = enabled ds ++ enabled es :=
  List.filter_append ..

theorem filter_enabled (p : Declaration → Bool) (ds : List Declaration) :
    (enabled ds).filter p = enabled (ds.filter p) := by
  simp only [enabled, List.filter_filter, Bool.and_comm]

theorem enabled_map_normalize (ds : List Declaration) :
    enabled (ds.map Declaration.normalize) = (enabled ds).map Declaration.normalize :=
  Declaration.filter_map_normalize (fun _ => rfl) ds

theorem resolve_enabled (ds : List Declaration) :
    resolve (enabled ds) = ⟨enabled (resolve ds).kept, (resolve ds).conflicts⟩ := by
  refine resolve_filter (fun d hd => ?_) ds
  have disabled : d.disabled = true := by simpa using hd
  simp [Declaration.isExempt, disabled]

/-! ## Statements -/

theorem filter_isEmitted_enabled (includeTypes : Bool) (ds : List Declaration) :
    (enabled ds).filter (·.isEmitted includeTypes) = ds.filter (·.isEmitted includeTypes) := by
  rw [enabled, List.filter_filter]
  refine List.filter_congr fun d _ => ?_
  cases hd : d.disabled <;> simp [Declaration.isEmitted, hd]

theorem ModuleGroups.ofDeclarations_enabled (includeTypes : Bool) (ds : List Declaration) :
    ofDeclarations includeTypes (enabled ds) = ofDeclarations includeTypes ds := by
  rw [ofDeclarations_eq_collect, filter_isEmitted_enabled, ofDeclarations_eq_collect]

theorem renderImports_enabled (dialect : Dialect) (includeTypes : Bool) (ds : List Declaration) :
    renderImports dialect includeTypes (enabled ds) = renderImports dialect includeTypes ds :=
  renderImports_congr (ModuleGroups.ofDeclarations_enabled includeTypes ds) dialect

theorem renderExports_enabled (fileDir : Option String) (includeTypes : Bool)
    (ds : List Declaration) :
    renderExports fileDir includeTypes (enabled ds) = renderExports fileDir includeTypes ds :=
  renderExports_congr (ModuleGroups.ofDeclarations_enabled includeTypes ds) fileDir

theorem TypeOptions.render_enabled (options : TypeOptions) (ds : List Declaration) :
    options.render (enabled ds) = options.render ds := by
  have selected : (enabled ds).filter (!·.disabled) = ds.filter (!·.disabled) := enabled_enabled ds
  unfold render
  rw [selected]

/-! ## Injection -/

namespace MergePlan

theorem target?_eq_none_of_disabled {includeTypes : Bool} {imports : List StaticImport}
    {d : Declaration} (h : d.disabled = true) : target? includeTypes imports d = none := by
  simp [target?, isMergeable, Declaration.isEmitted, h]

theorem groups_enabled (includeTypes : Bool) (imports : List StaticImport) (ds : List Declaration) :
    groups includeTypes imports (enabled ds) = groups includeTypes imports ds := by
  rw [groups_eq_collect, groups_eq_collect]
  refine Keyed.collect_filter (fun d hd => target?_eq_none_of_disabled ?_) ds
  simpa using hd

/-- A declaration that is part of a group is not disabled. -/
theorem enabled_flatMap_groups {includeTypes : Bool} {imports : List StaticImport}
    {ds : List Declaration} {gs : List ((StaticImport × Nat) × List Declaration)}
    (h : ∀ g ∈ gs, g ∈ groups includeTypes imports ds) :
    enabled (gs.flatMap (·.2)) = gs.flatMap (·.2) := by
  refine List.filter_eq_self.mpr fun d hd => ?_
  obtain ⟨⟨t, group⟩, hg, hd⟩ := List.mem_flatMap.mp hd
  obtain ⟨rfl, -⟩ := mem_groups_iff.mp (h _ hg)
  have target : target? includeTypes imports d = some t := by simpa using (List.mem_filter.mp hd).2
  cases disabled : d.disabled with
  | false => rfl
  | true =>
      rw [target?_eq_none_of_disabled disabled] at target
      cases target

theorem ofDeclarations_enabled (includeTypes : Bool) (imports : List StaticImport)
    (ds : List Declaration) :
    ofDeclarations includeTypes imports (enabled ds) =
      ⟨(ofDeclarations includeTypes imports ds).merges,
        enabled (ofDeclarations includeTypes imports ds).fresh⟩ := by
  have left : enabled (((groups includeTypes imports ds).filter
      fun group => (merge? group).isNone).flatMap (·.2)) = _ :=
    enabled_flatMap_groups fun g hg => (List.mem_filter.mp hg).1
  simp only [ofDeclarations, groups_enabled, enabled_append, left, filter_enabled]

end MergePlan

theorem InjectOptions.plan_enabled (options : InjectOptions) (source : String)
    (ds : List Declaration) :
    options.plan source (enabled ds) =
      ⟨(options.plan source ds).merges, enabled (options.plan source ds).fresh⟩ := by
  unfold plan
  split
  · exact MergePlan.ofDeclarations_enabled ..
  · rfl

theorem inject_enabled (options : InjectOptions) (ds : List Declaration) (o : Overlay) :
    inject options.withoutHooks (enabled ds) o = inject options.withoutHooks ds o := by
  simp only [inject, InjectOptions.plan_enabled, InjectOptions.statements_withoutHooks,
    renderImports_enabled]

/-! ## Importers -/

namespace Importer

variable {config : Config} {i : Importer} {conflicts : List Conflict} {ds : List Declaration}

/-- An importer of the same configuration without its disabled declarations reports the same, has the
same declarations but for the disabled ones, and writes the same. -/
theorem build_enabled (built : build config = .ok (i, conflicts))
    (flat : config.declarations = .ok ds) :
    ∃ j, build { config with imports := enabled ds, presets := [] } = .ok (j, conflicts) ∧
      j.declarations = enabled i.declarations ∧
      j.imports = i.imports ∧
      (∀ fileDir, j.exports fileDir = i.exports fileDir) ∧
      j.moduleGroups = i.moduleGroups ∧
      (∀ options, j.types options = i.types options) ∧
      ∀ (options : InjectOptions) (o : Overlay),
        j.inject options.withoutHooks o = i.inject options.withoutHooks o := by
  obtain ⟨valid, rfl, rfl⟩ := eq_of_build built flat
  have kept : (resolve (enabled ds)).kept.map Declaration.normalize =
      enabled ((resolve ds).kept.map Declaration.normalize) := by
    rw [resolve_enabled, enabled_map_normalize]
  refine ⟨⟨_, _⟩, build_eq_ok_iff.mpr ⟨enabled ds, rfl, fun d hd => valid d (List.mem_filter.mp hd).1,
    rfl, by rw [resolve_enabled]⟩, kept, ?_, ?_, ?_, ?_, ?_⟩
  · simp only [imports, kept]
    exact renderImports_enabled ..
  · intro fileDir
    simp only [exports, kept]
    exact renderExports_enabled ..
  · simp only [moduleGroups, kept]
    exact ModuleGroups.ofDeclarations_enabled ..
  · intro options
    simp only [types, kept]
    exact options.render_enabled _
  · intro options o
    simp only [inject, injectOnly, kept]
    exact inject_enabled (injectOptions _ options) _ o

/-- Disabled declarations of a name that is taken, of a module of their own and of types. -/
theorem build_enabled_of_preset :
    let config : Config :=
      { imports := [{ name := "ref", specifier := "vue", disabled := true },
          { name := "ref", specifier := "my-vue" },
          { name := "Ref", specifier := "types", typeOnly := true, disabled := true }]
        presets := [⟨{ specifier := "vue" }, [.name "ref", .name "computed"]⟩]
        mergeExisting := true }
    let ds : List Declaration :=
      [{ name := "ref", specifier := "my-vue" }, { name := "ref", specifier := "vue" },
        { name := "computed", specifier := "vue" }]
    ∃ i j, build config = .ok (i, [⟨"ref", "my-vue", "vue"⟩]) ∧
      build { config with imports := ds, presets := [] } = .ok (j, [⟨"ref", "my-vue", "vue"⟩]) ∧
      i.declarations.length = 4 ∧ j.declarations = enabled i.declarations ∧ j.imports = i.imports := by
  intro config ds
  have built : build config = .ok (⟨config, _⟩, [⟨"ref", "my-vue", "vue"⟩]) := rfl
  obtain ⟨j, builtj, same, imports, -⟩ := build_enabled built rfl
  exact ⟨_, j, built, builtj, rfl, same, imports⟩

end Importer

end ImportWeave
