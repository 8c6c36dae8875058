import ImportWeave.Proofs.Grouping
import ImportWeave.Statement.Types

/-! # Statements by module

The groups of a list of declarations hold those that are emitted. The statements of a group are those of
single declarations, and one that the others share. -/

namespace ImportWeave

namespace ModuleGroups

theorem ofDeclarations_eq_collect (includeTypes : Bool) (ds : List Declaration) :
    ofDeclarations includeTypes ds =
      Keyed.collect (fun d => some d.specifier) (ds.filter (·.isEmitted includeTypes)) := rfl

theorem exists_mem_group_iff {includeTypes : Bool} {ds : List Declaration} {d : Declaration} :
    (∃ group ∈ ofDeclarations includeTypes ds, d ∈ group.2) ↔
      d ∈ ds ∧ d.isEmitted includeTypes = true := by
  rw [ofDeclarations_eq_collect, Keyed.exists_mem_collect_some_iff, List.mem_filter]

/-- The declarations of a group are those of its module. -/
theorem mem_group_iff {includeTypes : Bool} {ds group : List Declaration} {specifier : String}
    (h : (specifier, group) ∈ ofDeclarations includeTypes ds) {d : Declaration} :
    d ∈ group ↔ (d ∈ ds ∧ d.isEmitted includeTypes = true) ∧ d.specifier = specifier := by
  rw [ofDeclarations_eq_collect, Keyed.mem_collect_iff] at h
  rw [h.1, List.mem_filter, List.mem_filter, decide_eq_true_eq, Option.some.injEq]

theorem exists_group {includeTypes : Bool} {ds : List Declaration} {d : Declaration} (hd : d ∈ ds)
    (emitted : d.isEmitted includeTypes = true) :
    ∃ group, (d.specifier, group) ∈ ofDeclarations includeTypes ds ∧ d ∈ group := by
  obtain ⟨⟨specifier, group⟩, hg, member⟩ := exists_mem_group_iff.mpr ⟨hd, emitted⟩
  obtain ⟨-, rfl⟩ := (mem_group_iff hg).mp member
  exact ⟨group, hg, member⟩

end ModuleGroups

namespace ImportStatement

/-- The declarations that the dialect has statements for. -/
def expressible (dialect : Dialect) (ds : List Declaration) : List Declaration :=
  if dialect = .commonjs then ds.filter (!·.typeOnly) else ds

/-- The statement of a single declaration, if it has one. -/
def own? (dialect : Dialect) (specifier : String) (d : Declaration) : Option ImportStatement :=
  (d.ownForm? dialect).map fun form => { form, specifier, clause := d.clause }

/-- The statement that declarations share, if there are any. -/
def shared (specifier : String) (batch : List Declaration) : List ImportStatement :=
  if batch = [] then [] else [{ form := .named (batch.map Declaration.binding), specifier }]

theorem ofModule_eq (dialect : Dialect) (specifier : String) (ds : List Declaration) :
    ofModule dialect specifier ds =
      (expressible dialect ds).filterMap (own? dialect specifier) ++
        shared specifier ((expressible dialect ds).filter (·.isBatched dialect)) := by
  simp only [ofModule, expressible]
  generalize (if dialect = .commonjs then ds.filter (!·.typeOnly) else ds) = ds
  cases ds.filter (·.isBatched dialect) with
  | nil => exact (List.append_nil _).symm
  | cons d batch => rfl

end ImportStatement

namespace ExportStatement

/-- The statement that exports names, if there are any. -/
def shared (specifier : String) (batch : List Declaration) : List ExportStatement :=
  if batch = [] then [] else [.named (batch.map Declaration.binding) specifier]

theorem ofModule_eq (specifier : String) (ds : List Declaration) :
    ofModule specifier ds =
      ((ds.filter (·.kind = .namespaceObject)).map fun d =>
        .namespaceObject d.namespaceAlias specifier) ++
        shared specifier (ds.filter fun d => d.kind = .default ∨ d.kind = .named) := by
  simp only [ofModule]
  cases ds.filter fun d => d.kind = .default ∨ d.kind = .named with
  | nil => exact (List.append_nil _).symm
  | cons d batch => rfl

end ExportStatement

/-- The statements of declarations are those of their groups. -/
theorem renderImports_congr {includeTypes : Bool} {ds ds' : List Declaration}
    (groups : ModuleGroups.ofDeclarations includeTypes ds =
      ModuleGroups.ofDeclarations includeTypes ds') (dialect : Dialect) :
    renderImports dialect includeTypes ds = renderImports dialect includeTypes ds' := by
  rw [renderImports, ImportStatement.ofDeclarations, groups]
  rfl

theorem renderExports_congr {includeTypes : Bool} {ds ds' : List Declaration}
    (groups : ModuleGroups.ofDeclarations includeTypes ds =
      ModuleGroups.ofDeclarations includeTypes ds') (fileDir : Option String) :
    renderExports fileDir includeTypes ds = renderExports fileDir includeTypes ds' := by
  rw [renderExports, ExportStatement.ofDeclarations, groups]
  rfl

end ImportWeave
