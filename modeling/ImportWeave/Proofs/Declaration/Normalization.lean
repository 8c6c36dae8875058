import ImportWeave.Declaration.Validity

/-! # Normal declarations

The normal form of a declaration has an alias, which is the name where none was given. The two bind the
same name in the same way, and are valid or refused together. -/

namespace ImportWeave

/-- The special name that asks for a binding of this kind. Side effects can be asked for by an empty alias
too, and have no place here. -/
def BindingKind.specialName? : BindingKind → Option String
  | .default => some "default"
  | .wholeModule => some "="
  | .namespaceObject => some "*"
  | .sideEffect | .named => none

namespace Declaration

variable {d : Declaration}

theorem kind_eq_sideEffect_iff : d.kind = .sideEffect ↔ d.name = "" ∨ d.localAlias = some "" := by
  grind [kind]

/-- A special name decides the kind, unless the alias is empty. -/
theorem kind_eq_iff_name {k : BindingKind} {x : String} (h : k.specialName? = some x) :
    d.kind = k ↔ d.name = x ∧ d.localAlias ≠ some "" := by
  cases k <;> grind [kind, BindingKind.specialName?]

/-! ## What a normal form keeps -/

theorem normalize_of_alias {a : String} (h : d.localAlias = some a) : d.normalize = d := by
  cases d
  cases h
  rfl

theorem localAlias_normalize (d : Declaration) : d.normalize.localAlias = some d.displayName := rfl

@[simp] theorem normalize_normalize (d : Declaration) : d.normalize.normalize = d.normalize := rfl

@[simp] theorem name_normalize (d : Declaration) : d.normalize.name = d.name := rfl

@[simp] theorem specifier_normalize (d : Declaration) : d.normalize.specifier = d.specifier := rfl

@[simp] theorem typeOnly_normalize (d : Declaration) : d.normalize.typeOnly = d.typeOnly := rfl

@[simp] theorem clause_normalize (d : Declaration) : d.normalize.clause = d.clause := rfl

@[simp] theorem hasClause_normalize (d : Declaration) : d.normalize.hasClause = d.hasClause := rfl

@[simp] theorem isEmitted_normalize (includeTypes : Bool) (d : Declaration) :
    d.normalize.isEmitted includeTypes = d.isEmitted includeTypes := rfl

/-- A name that is filled in as the alias is empty only if it asked for side effects before. -/
@[simp] theorem kind_normalize (d : Declaration) : d.normalize.kind = d.kind := by
  rcases h : d.localAlias with _ | a
  · simp [kind, normalize, displayName, h]
  · rw [normalize_of_alias h]

/-- For a namespace object the name that is filled in is `*`, which is no alias. -/
theorem namespaceAlias_normalize (h : d.kind = .namespaceObject) :
    d.normalize.namespaceAlias = d.namespaceAlias := by
  rcases ha : d.localAlias with _ | a
  · have name : d.name = "*" := ((kind_eq_iff_name rfl).mp h).1
    simp [namespaceAlias, localAlias_normalize, displayName, ha, name]
  · rw [normalize_of_alias ha]

theorem lacksAlias_normalize (d : Declaration) : d.normalize.lacksAlias = d.lacksAlias := by
  unfold lacksAlias
  rw [kind_normalize]
  rcases ha : d.localAlias with _ | a
  · cases hk : d.kind with
    | sideEffect | named => rfl
    | namespaceObject => rw [namespaceAlias_normalize hk]
    | default =>
        have name : d.name = "default" := ((kind_eq_iff_name rfl).mp hk).1
        simp [localAlias_normalize, displayName, ha, name]
    | wholeModule =>
        have name : d.name = "=" := ((kind_eq_iff_name rfl).mp hk).1
        simp [localAlias_normalize, displayName, ha, name]
  · rw [normalize_of_alias ha, ha]

/-- A declaration and its normal form are accepted together, or refused with the same error. -/
@[simp] theorem validate_normalize (d : Declaration) : d.normalize.validate = d.validate := by
  simp only [validate, lacksAlias_normalize, clause_normalize, name_normalize, specifier_normalize,
    typeOnly_normalize]

/-- A choice that does not look at the alias can be made before or after it is filled in. -/
theorem filter_map_normalize {p : Declaration → Bool} (h : ∀ d, p d.normalize = p d)
    (ds : List Declaration) : (ds.map normalize).filter p = (ds.filter p).map normalize := by
  rw [List.filter_map]
  congr 1
  exact List.filter_congr fun d _ => h d

end Declaration

end ImportWeave
