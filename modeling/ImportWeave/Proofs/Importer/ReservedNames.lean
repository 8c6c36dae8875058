import ImportWeave.Proofs.Importer.FixedPoint
import ImportWeave.Proofs.Statement.LocalNames

/-! # Reserved names

The names `default`, `=` and `*` say what to bind, and cannot be bound themselves. Validity asks for an
alias in their place, but not of declarations that are for types alone. With plain names, these are the
only ones whose statements bind a reserved name, or whose exports list one. -/

namespace ImportWeave

def reservedNames : List String := ["default", "=", "*"]

theorem mem_reservedNames {x : String} : x ∈ reservedNames ↔ x = "default" ∨ x = "=" ∨ x = "*" := by
  simp [reservedNames]

theorem exists_specialName? {x : String} (hx : x ∈ reservedNames) :
    ∃ k : BindingKind, k.specialName? = some x := by
  rcases mem_reservedNames.mp hx with rfl | rfl | rfl
  · exact ⟨.default, rfl⟩
  · exact ⟨.wholeModule, rfl⟩
  · exact ⟨.namespaceObject, rfl⟩

namespace Declaration

/-- The name is an identifier or has a meaning of its own, and an alias is an identifier other than
`default`, or empty. -/
def HasPlainNames (d : Declaration) : Prop :=
  (Attributes.isBareKey d.name = true ∨ d.name = "" ∨ d.name ∈ reservedNames) ∧
    ∀ a ∈ d.localAlias, a = "" ∨ Attributes.isBareKey a = true ∧ a ≠ "default"

instance (d : Declaration) : Decidable d.HasPlainNames := inferInstanceAs (Decidable (_ ∧ _))

variable {d : Declaration} {x : String}

theorem HasPlainNames.displayName_eq_iff (plain : d.HasPlainNames) (hx : x ∈ reservedNames) :
    d.displayName = x ↔ d.name = x ∧ d.localAlias = none := by
  rcases ha : d.localAlias with _ | a
  · simp [displayName, ha]
  · have given := plain.2 a ha
    simp only [displayName, ha, Option.getD_some, reduceCtorEq, and_false, iff_false]
    rintro rfl
    rcases mem_reservedNames.mp hx with rfl | rfl | rfl <;> exact absurd given (by decide)

theorem typeOnly_of_lacksAlias (valid : d.validate = .ok ()) (h : d.lacksAlias = true) :
    d.typeOnly = true := by
  unfold validate at valid
  split at valid
  · cases valid
  · split at valid
    · cases valid
    · split at valid
      · cases valid
      · next value => simpa [h] using value

theorem displayName_of_boundName? (h : d.boundName? = some x) : d.displayName = x := by
  unfold boundName? at h
  cases hk : d.kind with
  | sideEffect => simp [hk] at h
  | default | wholeModule | named => simpa [hk] using h
  | namespaceObject =>
      have given : d.localAlias = some x := by
        simp only [hk, namespaceAlias, Option.filter_eq_some_iff] at h
        exact h.1
      simp [displayName, given]

theorem boundName?_normalize (d : Declaration) : d.normalize.boundName? = d.boundName? := by
  unfold boundName?
  rw [kind_normalize]
  cases hk : d.kind with
  | sideEffect | default | wholeModule | named => rfl
  | namespaceObject => exact namespaceAlias_normalize hk

/-- A declaration with plain names has a reserved name in a statement exactly if it asks for that name and
has no alias. The name `*` is not written even then. -/
theorem HasPlainNames.boundName?_eq_iff (plain : d.HasPlainNames) (hx : x ∈ reservedNames) :
    d.boundName? = some x ↔ x ≠ "*" ∧ d.name = x ∧ d.localAlias = none := by
  obtain ⟨k, hk⟩ := exists_specialName? hx
  constructor
  · intro bound
    obtain ⟨name, missing⟩ := (plain.displayName_eq_iff hx).mp (displayName_of_boundName? bound)
    refine ⟨?_, name, missing⟩
    rintro rfl
    have kind : d.kind = .namespaceObject := (kind_eq_iff_name rfl).mpr ⟨name, by simp [missing]⟩
    simp [boundName?, kind, namespaceAlias, missing] at bound
  · rintro ⟨ne, name, missing⟩
    have displayed : d.displayName = x := (plain.displayName_eq_iff hx).mpr ⟨name, missing⟩
    have kind : d.kind = k := (kind_eq_iff_name hk).mpr ⟨name, by simp [missing]⟩
    cases k with
    | sideEffect | named => cases hk
    | default | wholeModule => simp [boundName?, kind, displayed]
    | namespaceObject => exact absurd (Option.some.inj hk).symm ne

/-- A valid declaration that asks for a reserved name and has no alias is for types alone. -/
theorem typeOnly_of_reserved (valid : d.validate = .ok ()) (hx : d.name ∈ reservedNames)
    (missing : d.localAlias = none) : d.typeOnly = true := by
  obtain ⟨k, hk⟩ := exists_specialName? hx
  have kind : d.kind = k := (kind_eq_iff_name hk).mpr ⟨rfl, by simp [missing]⟩
  refine typeOnly_of_lacksAlias valid ?_
  cases k with
  | sideEffect | named => cases hk
  | default | wholeModule => simp [lacksAlias, kind, missing]
  | namespaceObject => simp [lacksAlias, kind, namespaceAlias, missing]

end Declaration

/-- For a name that an enabled declaration asks for, one that is kept has it. -/
theorem exists_kept_of_enabled {ds : List Declaration} {d : Declaration} (hd : d ∈ ds)
    (enabled : d.disabled = false) :
    ∃ e ∈ (resolve ds).kept, e.disabled = false ∧ e.displayName = d.displayName := by
  cases exempt : d.isExempt with
  | true => exact ⟨d, mem_resolve_of_isExempt exempt hd, enabled, rfl⟩
  | false =>
      obtain ⟨e, he, holds, competes⟩ := exists_holder? hd exempt
      obtain ⟨competes, name⟩ := Declaration.competesFor_iff.mp competes
      refine ⟨e, mem_resolve_iff.mpr ⟨he, .inr (name ▸ holds)⟩, ?_, name⟩
      cases disabled : e.disabled with
      | false => rfl
      | true => simp [Declaration.isExempt, disabled] at competes

namespace Importer

variable {config : Config} {i : Importer} {conflicts : List Conflict} {ds : List Declaration}

/-- A reserved name is bound in a module exactly if a declaration for types asks for it, gives no alias,
and types are included. Of the enabled declarations that ask for it one is kept, and all of them are for
types alone. -/
theorem exists_binds_reserved_iff (built : build config = .ok (i, conflicts))
    (flat : config.declarations = .ok ds) (plain : ∀ d ∈ ds, d.HasPlainNames)
    (esm : config.commonjs = false) {x : String} (hx : x ∈ reservedNames) :
    (∃ s ∈ i.importStatements, x ∈ s.form.localNames) ↔
      x ≠ "*" ∧ config.includeTypes = true ∧ ∃ d ∈ ds, d.disabled = false ∧ d.typeOnly = true ∧
        d.name = x ∧ d.localAlias = none := by
  obtain ⟨valid, rfl, -⟩ := eq_of_build built flat
  have bound : (∃ s ∈ importStatements ⟨config, (resolve ds).kept.map Declaration.normalize⟩,
      x ∈ s.form.localNames) ↔
      ∃ d ∈ (resolve ds).kept, d.isEmitted config.includeTypes = true ∧ d.boundName? = some x := by
    rw [importStatements, ImportStatement.exists_mem_ofDeclarations_iff]
    simp [dialect, esm, Declaration.boundName?_normalize]
  rw [bound]
  constructor
  · rintro ⟨d, hd, emitted, name⟩
    have hd := mem_of_mem_resolve hd
    obtain ⟨ne, rfl, missing⟩ := ((plain d hd).boundName?_eq_iff hx).mp name
    have types := Declaration.typeOnly_of_reserved (valid d hd) hx missing
    have included : d.disabled = false ∧ config.includeTypes = true := by
      simpa [Declaration.isEmitted, types] using emitted
    exact ⟨ne, included.2, d, hd, included.1, types, rfl, missing⟩
  · rintro ⟨ne, included, d, hd, enabled, -, name, missing⟩
    obtain ⟨e, he, enabled, same⟩ := exists_kept_of_enabled hd enabled
    have plain' := plain e (mem_of_mem_resolve he)
    have displayed : e.displayName = x :=
      same.trans (((plain d hd).displayName_eq_iff hx).mpr ⟨name, missing⟩)
    refine ⟨e, he, by simp [Declaration.isEmitted, enabled, included], ?_⟩
    exact (plain'.boundName?_eq_iff hx).mpr ⟨ne, (plain'.displayName_eq_iff hx).mp displayed⟩

/-- The name `=` is listed where types are exported exactly if a settled declaration for types asks for it,
with any alias that can be written. -/
theorem exists_lists_equals_iff (built : build config = .ok (i, conflicts))
    (flat : config.declarations = .ok ds) (plain : ∀ d ∈ ds, d.HasPlainNames) (options : TypeOptions) :
    (∃ m ∈ options.typeModules i.declarations, ∃ b ∈ m.2.named, b.name = "=" ∨ b.localAlias = some "=") ↔
      options.reExports = true ∧ ∃ d ∈ i.declarations, d.disabled = false ∧ d.typeOnly = true ∧
        d.name = "=" ∧ d.localAlias ≠ some "" := by
  have name_of_alias (d : Declaration) (hd : d ∈ i.declarations) (given : d.localAlias = some "=") :
      d.name = "=" := by
    obtain ⟨-, rfl, -⟩ := eq_of_build built flat
    obtain ⟨e, he, rfl⟩ := List.mem_map.mp hd
    rw [Declaration.localAlias_normalize, Option.some.injEq] at given
    exact (((plain e (mem_of_mem_resolve he)).displayName_eq_iff (by decide)).mp given).1
  constructor
  · rintro ⟨m, hm, b, hb, equals⟩
    obtain ⟨on, d, hd, enabled, types, listed, rfl⟩ :=
      TypeOptions.exists_mem_typeModules_iff.mp ⟨m, hm, hb⟩
    have name : d.name = "=" := equals.elim id (name_of_alias d hd)
    refine ⟨on, d, hd, enabled, types, name, fun none => ?_⟩
    have kind : d.kind = .sideEffect := Declaration.kind_eq_sideEffect_iff.mpr (.inr none)
    simp [Declaration.isListed, kind] at listed
  · rintro ⟨on, d, hd, enabled, types, name, given⟩
    have kind : d.kind = .wholeModule := (Declaration.kind_eq_iff_name rfl).mpr ⟨name, given⟩
    have listed : d.isListed = true := by simp [Declaration.isListed, kind]
    obtain ⟨m, hm, hb⟩ := TypeOptions.exists_mem_typeModules_iff.mpr
      ⟨on, d, hd, enabled, types, listed, rfl⟩
    exact ⟨m, hm, d.binding, hb, .inl name⟩

/-- Of plain names, an accepted configuration binds a reserved one in a module exactly if types are included
and an enabled declaration for types has it and no alias; the name `*` is never bound. A type export lists
the name `=` exactly if a settled declaration for types asks for a whole module. So what validity asks for
is enough for values, and not for types. -/
theorem reserved_names_written_iff (built : build config = .ok (i, conflicts))
    (flat : config.declarations = .ok ds) (plain : ∀ d ∈ ds, d.HasPlainNames) :
    (config.commonjs = false →
      i.imports = "\n".intercalate (i.importStatements.map (·.render .esm)) ∧
      ∀ x ∈ reservedNames, ((∃ s ∈ i.importStatements, x ∈ s.form.localNames) ↔
        x ≠ "*" ∧ config.includeTypes = true ∧ ∃ d ∈ ds, d.disabled = false ∧ d.typeOnly = true ∧
          d.name = x ∧ d.localAlias = none)) ∧
    ∀ options : TypeOptions,
      i.types options =
        options.renderValues ((i.declarations.filter (!·.disabled)).filter (!·.typeOnly)) ++
          TypeOptions.renderModules (options.typeModules i.declarations) ∧
      ((∃ m ∈ options.typeModules i.declarations, ∃ b ∈ m.2.named,
          b.name = "=" ∨ b.localAlias = some "=") ↔
        options.reExports = true ∧ ∃ d ∈ i.declarations, d.disabled = false ∧ d.typeOnly = true ∧
          d.name = "=" ∧ d.localAlias ≠ some "") := by
  refine ⟨fun esm => ⟨?_, fun x hx => exists_binds_reserved_iff built flat plain esm hx⟩, fun options =>
    ⟨options.render_eq_renderModules i.declarations, exists_lists_equals_iff built flat plain options⟩⟩
  obtain ⟨-, rfl, -⟩ := eq_of_build built flat
  simp [imports, renderImports, importStatements, dialect, esm]

/-- Values with aliases, a namespace object for types, and a default export that is disabled: none of the
three names is bound or listed. -/
theorem reserved_names_not_written_for_values :
    let config : Config :=
      { imports := [{ name := "default", specifier := "m", localAlias := some "m" },
          { name := "=", specifier := "n", localAlias := some "n" },
          { name := "*", specifier := "types", typeOnly := true },
          { name := "default", specifier := "types", typeOnly := true, disabled := true }]
        includeTypes := true }
    ∃ i, build config = .ok (i, []) ∧ i.importStatements.length = 2 ∧
      (∀ x ∈ reservedNames, ¬ ∃ s ∈ i.importStatements, x ∈ s.form.localNames) ∧
      ∀ options : TypeOptions, ¬ ∃ m ∈ options.typeModules i.declarations, ∃ b ∈ m.2.named,
        b.name = "=" ∨ b.localAlias = some "=" := by
  intro config
  have built : build config = .ok (⟨config, _⟩, []) := rfl
  have written := reserved_names_written_iff built rfl (by decide)
  refine ⟨_, built, rfl, fun x hx => ?_, fun options => ?_⟩
  · rw [(written.1 rfl).2 x hx]
    revert x
    decide
  · rw [(written.2 options).2]
    rintro ⟨-, equals⟩
    exact absurd equals (by decide)

/-- A declaration for types is accepted without an alias, and makes a statement that binds `default`. One
of a whole module makes an export that lists `=`. -/
theorem reserved_names_written_for_types :
    let config : Config :=
      { imports := [{ name := "default", specifier := "m", typeOnly := true },
          { name := "=", specifier := "n", localAlias := some "x", typeOnly := true }]
        includeTypes := true }
    (∀ d ∈ config.imports, d.HasPlainNames) ∧ config.declarations = .ok config.imports ∧
    ∃ i, build config = .ok (i, []) ∧
      (∃ s ∈ i.importStatements, "default" ∈ s.form.localNames) ∧
      i.imports = "import type default from 'm';\nimport type x from 'n';" ∧
      (∃ m ∈ i.typeOptions.typeModules i.declarations, ∃ b ∈ m.2.named, b.name = "=") ∧
      i.types i.typeOptions =
        "export \x7b\x7d\ndeclare global \x7b\n\n\x7d\n// for type re-export\ndeclare global \x7b\n" ++
        "  // @ts-ignore\n  export type \x7b default \x7d from 'm'\n  import('m')\n" ++
        "  // @ts-ignore\n  export type \x7b = as x \x7d from 'n'\n  import('n')\n\x7d" := by
  intro config
  have built : build config = .ok (⟨config, _⟩, []) := rfl
  exact ⟨by decide, rfl, _, built, by decide +kernel, by decide +kernel, by decide +kernel,
    by decide +kernel⟩

end Importer

end ImportWeave
