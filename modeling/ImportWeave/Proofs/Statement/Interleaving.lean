import ImportWeave.Proofs.Statement.Modules

/-! # Interleaved modules

What is written for declarations is made module by module. It depends on the order in which the modules
first come up and on the order of the declarations of each, and not on how declarations of different modules
alternate. -/

namespace ImportWeave

/-- The declarations that value imports are written for: those that are not disabled, and not for types alone
unless these are included. -/
def emitted (includeTypes : Bool) (ds : List Declaration) : List Declaration :=
  ds.filter fun d => d.disabled = false ∧ (d.typeOnly = true → includeTypes = true)

theorem filter_isEmitted (includeTypes : Bool) (ds : List Declaration) :
    ds.filter (·.isEmitted includeTypes) = emitted includeTypes ds := by
  refine List.filter_congr fun d _ => ?_
  cases hd : d.disabled <;> cases ht : d.typeOnly <;> cases includeTypes <;>
    simp [Declaration.isEmitted, hd, ht]

/-- The modules of the declarations, in the order in which they first come up. -/
def moduleOrder (ds : List Declaration) : List String := (ds.map (·.specifier)).eraseDups

namespace ModuleGroups

/-- Each module is followed by its declarations in their order. -/
theorem ofDeclarations_eq_map (includeTypes : Bool) (ds : List Declaration) :
    ofDeclarations includeTypes ds = (moduleOrder (emitted includeTypes ds)).map fun m =>
      (m, (emitted includeTypes ds).filter (·.specifier = m)) := by
  rw [ofDeclarations_eq_collect, Keyed.collect_some_eq_map, filter_isEmitted]
  rfl

/-- Declarations with the same order of modules and the same order in each module make the same groups. -/
theorem ofDeclarations_congr {includeTypes : Bool} {ds ds' : List Declaration}
    (order : moduleOrder (emitted includeTypes ds) = moduleOrder (emitted includeTypes ds'))
    (each : ∀ m, (emitted includeTypes ds).filter (·.specifier = m) =
      (emitted includeTypes ds').filter (·.specifier = m)) :
    ofDeclarations includeTypes ds = ofDeclarations includeTypes ds' := by
  rw [ofDeclarations_eq_map, ofDeclarations_eq_map, order]
  exact List.map_congr_left fun m _ => by rw [each m]

end ModuleGroups

/-- The groups are those of the different modules, in the order in which these first come up, and each has
the declarations of its module in their order. So the import statements of both dialects and the export
statements are the same for lists in which the modules first come up in one order, and each module has the
same declarations in one order. -/
theorem statements_of_interleaved_modules (includeTypes : Bool) :
    (∀ ds : List Declaration,
      let kept := emitted includeTypes ds
      let specifiers := kept.map (·.specifier)
      ModuleGroups.ofDeclarations includeTypes ds =
        (moduleOrder kept).map (fun m => (m, kept.filter (·.specifier = m))) ∧
      (moduleOrder kept).Nodup ∧
      (moduleOrder kept).Pairwise fun m n => specifiers.idxOf m < specifiers.idxOf n) ∧
    ∀ ds ds' : List Declaration,
      moduleOrder (emitted includeTypes ds) = moduleOrder (emitted includeTypes ds') →
      (∀ m, (emitted includeTypes ds).filter (·.specifier = m) =
        (emitted includeTypes ds').filter (·.specifier = m)) →
      (∀ dialect, renderImports dialect includeTypes ds = renderImports dialect includeTypes ds') ∧
      ∀ fileDir, renderExports fileDir includeTypes ds = renderExports fileDir includeTypes ds' := by
  constructor
  · intro ds kept specifiers
    exact ⟨ModuleGroups.ofDeclarations_eq_map includeTypes ds, Keyed.nodup_eraseDups specifiers,
      Keyed.pairwise_idxOf_eraseDups specifiers⟩
  · intro ds ds' order each
    have groups := ModuleGroups.ofDeclarations_congr order each
    exact ⟨renderImports_congr groups, renderExports_congr groups⟩

/-- Two modules that alternate, and the same declarations one module after the other. -/
theorem statements_of_interleaved_modules_sorted :
    let ref : Declaration := { name := "ref", specifier := "vue" }
    let get : Declaration := { name := "get", specifier := "lodash" }
    let off : Declaration := { name := "off", specifier := "events", disabled := true }
    let computed : Declaration := { name := "computed", specifier := "vue" }
    (∀ dialect, renderImports dialect false [off, ref, get, computed] =
      renderImports dialect false [ref, computed, get]) ∧
    ∀ fileDir, renderExports fileDir false [off, ref, get, computed] =
      renderExports fileDir false [ref, computed, get] := by
  intro ref get off computed
  have order : moduleOrder (emitted false [off, ref, get, computed]) =
      moduleOrder (emitted false [ref, computed, get]) := by decide +kernel
  refine (statements_of_interleaved_modules false).2 _ _ order fun m => ?_
  have alternating : emitted false [off, ref, get, computed] = [ref, get, computed] := rfl
  have sorted : emitted false [ref, computed, get] = [ref, computed, get] := rfl
  rw [alternating, sorted]
  by_cases vue : m = "vue"
  · subst vue
    rfl
  · have other : decide ("vue" = m) = false := by simpa [eq_comm] using vue
    simp [List.filter_cons, ref, computed, other]

end ImportWeave
